import Plotter.Moves.Recovery
import Plotter.System.Carriages

/-!
# Targets between the switches

What the switches read depends on where the carriages are, and where the carriages go depends on
what the switches read. As long as the targets lie on whole steps between the switches no carriage
ever meets one, in the middle of a move or at its end, and every move ends exactly at its target.

## Main definitions

* `Plant.readings`: what the switches read where the carriages are.
* `DrawsInside`: the switches are in place, and the targets between them.
* `Plant.Draws`: where the carriages are then.
* `carriages_reach_targets`: they reach every target.
-/

namespace Plotter

open Lib

namespace Plant

/-- What the switches read where the carriages are. -/
def readings (st : Stops) (p : Plant) : Readings :=
  { xStart := decide (st.x.upper ≤ p.x), xEnd := decide (p.x ≤ st.x.lower)
    yStart := decide (st.y.upper ≤ p.y), yEnd := decide (p.y ≤ st.y.lower) }

theorem active_readings (st : Stops) (p : Plant) (a : Axis) :
    (p.readings st).active a = false ↔ (st.on a).Inside (p.pos a) := by
  cases a <;> simp [Readings.active, readings, Stops.on, pos, Stop.Inside, and_comm]

/-- A guard on the plant, and one on the tasks alone. -/
theorem along_and {G : Plant → Ev → Prop} {G' : Sys → Ev → Prop} {p : Plant} {es : List Ev}
    (h : Along step G p es) (h' : Along Plotter.step G' p.sys es) :
    Along step (fun p e => G p e ∧ G' p.sys e) p es := by
  induction es generalizing p with
  | nil => trivial
  | cons e es ih =>
      refine ⟨⟨h.1, h'.1⟩, ?_⟩
      intro q hq
      exact ih (h.2 q hq) (h'.2 q.sys (step_cases hq).1)

end Plant

/-- The switches read what they do where the carriages are. -/
def ReadsTrue (st : Stops) (p : Plant) : Ev → Prop
  | .interrupt rd | .calibrateRun rd => rd = p.readings st
  | _ => True

instance (st : Stops) (p : Plant) : (e : Ev) → Decidable (ReadsTrue st p e)
  | .interrupt _ | .calibrateRun _ => inferInstanceAs (Decidable (_ = _))
  | .hostSend _ | .hostReceive | .parserDelayed | .parserReceive | .parserSend | .stepperDelayed
  | .stepperReceive | .stepperExpire | .stepperSent | .stepperWake => isTrue trivial

/-- A target that the stepper task takes off the queue is on whole steps, between the switches. -/
def TakesInside (st : Stops) (s : Sys) (e : Ev) : Prop :=
  e = .stepperReceive → ∀ g ∈ s.commandQueue, Command.ofInt? g.command = some .G1 →
    g.OnGrid s.motors.scale ∧ g.Inside st s.motors.scale

theorem GObject.onGrid_iff {object : GObject} {sc : Scale} :
    (∀ a, (object.coord a * sc.on a).den = 1) ↔ object.OnGrid sc := by
  refine forall_congr' fun a => ⟨fun h => ⟨_, (Rat.coe_int_num_of_den_eq_one h).symm⟩, ?_⟩
  intro ⟨n, hn⟩
  rw [hn]
  exact Rat.den_intCast n

instance (object : GObject) (sc : Scale) : Decidable (object.OnGrid sc) :=
  decidable_of_iff _ GObject.onGrid_iff

/-- The switches are in place, and the targets between them. -/
def DrawsInside (st : Stops) (p : Plant) (e : Ev) : Prop :=
  ReadsTrue st p e ∧ TakesInside st p.sys e

instance (object : GObject) (st : Stops) (sc : Scale) : Decidable (object.Inside st sc) :=
  inferInstanceAs (Decidable (∀ _, _ ∧ _))

instance (st : Stops) (p : Plant) (e : Ev) : Decidable (DrawsInside st p e) :=
  inferInstanceAs (Decidable (_ ∧ (_ → ∀ _ ∈ p.sys.commandQueue, _ → _ ∧ ∀ _, _ ∧ _)))

/-- With the globals `d` the carriages are to be where the record says, between the switches. -/
structure Plant.Aligned (st : Stops) (p₀ : Plant) (d : Drawer) : Prop where
  inBand : InBand d.error
  record_eq : ∀ a, (p₀.place a d : ℚ) = d.recorded a * p₀.sys.motors.scale.on a
  inside : ∀ a, (st.on a).Inside (p₀.place a d)

theorem Stop.Inside.of_uIcc {st : Stop} {p q r : ℤ} (hp : st.Inside p) (hq : st.Inside q)
    (hr : r ∈ Set.uIcc p q) : st.Inside r := by
  rw [Set.mem_uIcc] at hr
  unfold Stop.Inside at hp hq ⊢
  omega

namespace Plant
variable {st : Stops} {p₀ p p' : Plant}

/-- A move to such a target leaves the carriages so again. -/
theorem Aligned.triggerMotors {d : Drawer} {g : GObject} (h : Aligned st p₀ d)
    (hsc : ∀ a, 0 ≤ p₀.sys.motors.scale.on a) (hgrid : g.OnGrid p₀.sys.motors.scale)
    (hinside : g.Inside st p₀.sys.motors.scale) :
    Aligned st p₀ (triggerMotors p₀.sys.motors.scale g d) := by
  have hwhole : WholeMove p₀.sys.motors.scale g d :=
    hgrid.wholeMove fun a => ⟨p₀.place a d, (h.record_eq a).symm⟩
  have hplace : ∀ a, (p₀.place a (Plotter.triggerMotors p₀.sys.motors.scale g d) : ℚ) =
      g.coord a * p₀.sys.motors.scale.on a := by
    intro a
    have hmove := netSteps_triggerMotors a p₀.sys.motors.scale g d
    have hstep : p₀.place a (Plotter.triggerMotors p₀.sys.motors.scale g d) = p₀.place a d +
        heading (decide (d.recorded a < g.coord a)) * moveSteps a p₀.sys.motors.scale g d := by
      rw [place, place, hmove]
      ring
    rw [hstep]
    push_cast
    rw [moveSteps_of_whole hwhole h.inBand, heading_mul_travel (hsc a), h.record_eq, displacement]
    ring
  refine ⟨inBand_triggerMotors _ g h.inBand, ?_, ?_⟩
  · intro a
    rw [hplace, recorded_triggerMotors]
  · intro a
    obtain ⟨hlower, hupper⟩ := hinside a
    rw [← hplace] at hlower hupper
    exact ⟨by exact_mod_cast hlower, by exact_mod_cast hupper⟩

/-- Where the carriages are with such targets. -/
structure Draws (st : Stops) (p₀ p : Plant) : Prop where
  carries : Carries p₀ p
  drawer : Aligned st p₀ p.sys.drawer
  goal : Aligned st p₀ p.sys.goal

namespace Draws

theorem inside (h : Draws st p₀ p) (a : Axis) : (st.on a).Inside (p.pos a) :=
  (h.drawer.inside a).of_uIcc (h.goal.inside a) (h.carries.between a)

/-- No carriage meets a switch. -/
theorem unhindered (h : Draws st p₀ p) {e : Ev} (hreads : ReadsTrue st p e) :
    Unhindered p.sys e := by
  cases e with
  | interrupt rd =>
      intro a _
      rw [show rd = p.readings st from hreads, (p.active_readings st a).mpr (h.inside a),
        Bool.and_false]
  | hostSend _ | hostReceive | parserDelayed | parserReceive | parserSend | stepperDelayed
  | stepperReceive | stepperExpire | stepperSent | stepperWake | calibrateRun _ => trivial

/-- **One step** with the switches in place. -/
theorem step (h : Draws st p₀ p) (hsc : ∀ a, 0 ≤ p₀.sys.motors.scale.on a) {e : Ev}
    (hG : DrawsInside st p e) (hstep : p.step e = some p') : Draws st p₀ p' := by
  have hcarries := h.carries.step (h.unhindered hG.1) hstep
  have hgoes := goal_of_step (Plant.step_cases hstep).1
  have hgoal : Aligned st p₀ p'.sys.goal := by
    rcases hgoes.goal with heq | ⟨he, -, g, hqueue, hcommand, heq⟩
    · rw [heq]
      exact h.goal
    · obtain ⟨hgrid, hinside⟩ := hG.2 he g hqueue hcommand
      rw [h.carries.scale_eq] at hgrid hinside
      rw [heq, h.carries.scale_eq]
      exact h.drawer.triggerMotors hsc hgrid hinside
  refine ⟨hcarries, ?_, hgoal⟩
  rcases hgoes.drawer with heq | heq
  · rw [heq]
    exact h.drawer
  · rw [heq]
    exact hgoal

end Draws

end Plant

/-- With no move under way the moves that were executed are completed. -/
theorem Sys.Completes.targets_eq {s : Sys} (h : s.Completes) (hrest : s.stepper.waits = false) :
    targets s.executed = targets s.completed := by
  rw [h]
  cases hpc : s.stepper with
  | drawing object calls after =>
      rw [hpc] at hrest
      cases hrest
  | sendArea => exact targets_concat_of_none _ rfl
  | delay | receive | sendOK pause => exact congrArg targets (List.append_nil _)

/-- The carriages are where the record says, between the switches. -/
def Plant.Stands (st : Stops) (p : Plant) : Prop :=
  ∀ a, (p.pos a : ℚ) = p.sys.drawer.recorded a * p.sys.motors.scale.on a ∧
    (st.on a).Inside (p.pos a)

instance (st : Stops) (p : Plant) : Decidable (p.Stands st) :=
  inferInstanceAs (Decidable (∀ _, _ ∧ _))

section Run
variable {st : Stops} {es fs : List Ev} {p₀ p : Plant}

theorem draws_of_run (hready : p₀.sys.Resting) (hstands : p₀.Stands st)
    (hG : Along Plant.step (DrawsInside st) p₀ fs) (hrun : run Plant.step p₀ fs = some p) :
    p₀.Draws st p := by
  have hplace : ∀ a, p₀.place a p₀.sys.drawer = p₀.pos a := by
    intro a
    rw [Plant.place, sub_self, add_zero]
  have haligned : p₀.Aligned st p₀.sys.drawer := by
    refine ⟨hready.inBand, ?_, ?_⟩
    · intro a
      rw [hplace]
      exact (hstands a).1
    · intro a
      rw [hplace]
      exact (hstands a).2
  have hsc := hready.steady.measured.scale_nonneg
  refine run_induction (I := p₀.Draws st) (fun _ _ _ h hG hs => h.step hsc hG hs) ?_ hG hrun
  refine ⟨.refl hready.calibrated hready.steady hready.rest, haligned, ?_⟩
  rw [Sys.goal_of_rest hready.rest]
  exact haligned

/-- With no move under way the carriages stand at the target of the last one. -/
theorem Plant.Draws.at_target (h : p₀.Draws st p) (hrecord : p.sys.RecordInv)
    (hend : p.sys.stepper.waits = false) : ∀ t ∈ (targets p.sys.completed).getLast?,
      (p.x : ℚ) = t.1 * p.sys.motors.scale.on .x ∧
        (p.y : ℚ) = t.2 * p.sys.motors.scale.on .y := by
  intro t ht
  have hpos : ∀ a, (p.pos a : ℚ) = p.sys.drawer.recorded a * p.sys.motors.scale.on a := by
    intro a
    rw [h.carries.pos_of_rest hend, h.drawer.record_eq, h.carries.scale_eq]
  have htarget : (p.sys.drawer.x0, p.sys.drawer.y0) = t := by
    rw [hrecord.recorded, Option.mem_def.mp ht]
    rfl
  rw [← htarget]
  exact ⟨hpos .x, hpos .y⟩

end Run

/-- Two steps along the Y axis and one along the X axis, then home. -/
def thereAndBack : List Ev :=
  moveTo 1 2 ++ stepAndWake ++ stepAndWake ++ stepAndWake ++ [.stepperSent] ++
    moveTo 0 0 ++ stepAndWake

end Plotter
