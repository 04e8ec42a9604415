import Plotter.Moves.Drift
import Plotter.System.Home
import Plotter.System.Strokes

/-!
# Where the carriages go

The tasks are put together with the two carriages. A pulse on a step pin moves a carriage by one
step, the way its motor is set. After calibration the carriages are then, at every moment, as far
from where they were as the moves that were made say, up to the steps to go of the move under way.

## Main definitions

* `Plant`: the tasks with the carriages.
* `Plant.Carries`: where the carriages are after calibration.
* `carriages_follow_moves`: the carriages after a run in which no switch is in the way.
-/

namespace Plotter

open Lib

/-- The tasks and the two carriages, whose positions are counted in steps. -/
structure Plant where
  sys : Sys
  x : ℤ := 0
  y : ℤ := 0
  deriving DecidableEq, Repr

/-- How far the pulses on the step pin of an axis move its carriage from one state to the next. -/
def pulled (a : Axis) (s s' : Sys) : ℤ :=
  heading (s.motors.axis a).dir *
    ((s'.motors.engine.stepPin a).rises - (s.motors.engine.stepPin a).rises)

namespace Plant

def pos (p : Plant) : Axis → ℤ
  | .x => p.x
  | .y => p.y

/-- A step of the tasks moves the carriages. -/
def step (p : Plant) (e : Ev) : Option Plant :=
  (Plotter.step p.sys e).map fun s =>
    { sys := s, x := p.x + pulled .x p.sys s, y := p.y + pulled .y p.sys s }

theorem step_cases {p p' : Plant} {e : Ev} (h : p.step e = some p') :
    Plotter.step p.sys e = some p'.sys ∧ ∀ a, p'.pos a = p.pos a + pulled a p.sys p'.sys := by
  obtain ⟨s, hs, rfl⟩ := Option.map_eq_some_iff.mp h
  refine ⟨hs, ?_⟩
  intro a
  cases a with
  | x => rfl
  | y => rfl

/-- The carriages hold up no step of the tasks. -/
theorem exists_run {p : Plant} {s : Sys} {es : List Ev} (h : run Plotter.step p.sys es = some s) :
    ∃ q, run step p es = some q ∧ q.sys = s := by
  induction es generalizing p with
  | nil => exact ⟨p, rfl, Option.some_inj.mp h⟩
  | cons e es ih =>
      obtain ⟨s', hs', hrest⟩ := run_cons_eq_some.mp h
      obtain ⟨q, hq, heq⟩ :=
        ih (p := { sys := s', x := p.x + pulled .x p.sys s', y := p.y + pulled .y p.sys s' }) hrest
      exact ⟨q, run_cons_eq_some.mpr ⟨_, by rw [step, hs']; rfl, hq⟩, heq⟩

end Plant

theorem pulled_eq_zero {a : Axis} {s s' : Sys}
    (h : s'.motors.engine.stepPin a = s.motors.engine.stepPin a) : pulled a s s' = 0 := by
  rw [pulled, h, sub_self, mul_zero]

/-- What a stretch of strokes leaves: its steps are to go, and no pin has moved. -/
structure Sys.Drawn (s s' : Sys) (calls : List Event) : Prop where
  toGo : ∀ a, s'.toGo a = totalSteps a calls
  pin : ∀ a, s'.motors.engine.stepPin a = s.motors.engine.stepPin a
  axis : ∀ a, s'.motors.axis a = s.motors.axis a

theorem Sys.drawn (s : Sys) (object : GObject) {calls : List Event} (after : Drawer)
    (h : ∀ call ∈ calls, call.Stroke) : s.Drawn (s.draw object calls after) calls := by
  rcases s.draw_of_stroke object after h with ⟨hnil, heq⟩ | ⟨b, rest, hcons, heq⟩
  · rw [heq, hnil]
    exact ⟨fun _ => rfl, fun _ => rfl, fun _ => rfl⟩
  · rw [heq, hcons]
    refine ⟨?_, ?_, ?_⟩
    · intro a
      rw [totalSteps_cons]
      cases a <;> cases b <;> rfl
    · intro a
      cases a <;> rfl
    · intro a
      exact s.motors.axis_start ..

/-! ## After calibration -/

/-- The coordinates of a command, as a host gives them. -/
def GObject.target (g : GObject) : ℚ × ℚ := (g.xCoord, g.yCoord)

/-- Where the carriage of an axis is to be when the globals of the moves are `d`. -/
def Plant.place (p₀ : Plant) (a : Axis) (d : Drawer) : ℤ :=
  p₀.pos a + (netSteps a d - netSteps a p₀.sys.drawer)

/-- Where the carriages are after calibration, if no switch was in the way since the state `p₀`. -/
structure Plant.Carries (p₀ p : Plant) : Prop where
  calibrated : p.sys.Calibrated
  steady : p.sys.Steady
  scale_eq : p.sys.motors.scale = p₀.sys.motors.scale
  moves : ∃ objects : List GObject,
    p.sys.drawer = triggerAll p₀.sys.motors.scale objects p₀.sys.drawer ∧
      targets p.sys.completed = targets p₀.sys.completed ++ objects.map GObject.target
  pos_eq : ∀ a, p.pos a + heading (p.sys.motors.axis a).dir * p.sys.toGo a =
    p₀.place a p.sys.goal
  under : ∀ object calls after, p.sys.stepper = .drawing object calls after →
    after = triggerMotors p₀.sys.motors.scale object p.sys.drawer ∧
      ∀ a, (p.sys.motors.axis a).dir = decide (p.sys.drawer.recorded a < object.coord a) ∧
        p.sys.toGo a ≤ moveSteps a p₀.sys.motors.scale object p.sys.drawer

namespace Plant.Carries
variable {p₀ p p' : Plant}

/-- A step of the stepper task that is no move, or of another task. -/
theorem of_same (h : Carries p₀ p) (hcalibrated : p'.sys.Calibrated) (hsteady : p'.sys.Steady)
    (hpos : ∀ a, p'.pos a = p.pos a + pulled a p.sys p'.sys)
    (hmotors : p'.sys.motors = p.sys.motors) (hdrawer : p'.sys.drawer = p.sys.drawer)
    (htargets : targets p'.sys.completed = targets p.sys.completed)
    (hpc : p'.sys.stepper = p.sys.stepper ∨
      p.sys.stepper.waits = false ∧ p'.sys.stepper.waits = false) : Carries p₀ p' := by
  have hgoal : p'.sys.goal = p.sys.goal ∧ ∀ a, p'.sys.toGo a = p.sys.toGo a := by
    rcases hpc with heq | ⟨hrest, hrest'⟩
    · refine ⟨by rw [Sys.goal, Sys.goal, heq, hdrawer], ?_⟩
      intro a
      rw [Sys.toGo, Sys.toGo, heq, hmotors]
    · rw [Sys.goal_of_rest hrest, Sys.goal_of_rest hrest', hdrawer]
      refine ⟨rfl, ?_⟩
      intro a
      rw [Sys.toGo_of_rest hrest, Sys.toGo_of_rest hrest']
  refine ⟨hcalibrated, hsteady, by rw [hmotors, h.scale_eq], ?_, ?_, ?_⟩
  · rw [hdrawer, htargets]
    exact h.moves
  · intro a
    rw [hpos, pulled_eq_zero (by rw [hmotors]), add_zero, hmotors, hgoal.1, hgoal.2]
    exact h.pos_eq a
  · intro object calls after heq
    rcases hpc with hsame | ⟨-, hrest⟩
    · have hunder := h.under object calls after (hsame ▸ heq)
      rw [hdrawer, hmotors]
      refine ⟨hunder.1, ?_⟩
      intro a
      rw [hgoal.2]
      exact hunder.2 a
    · rw [heq] at hrest
      cases hrest

/-- A stretch of a move. -/
theorem of_draw (h : Carries p₀ p) (hcalibrated : p'.sys.Calibrated) (hsteady : p'.sys.Steady)
    (hpos : ∀ a, p'.pos a = p.pos a + pulled a p.sys p'.sys) {t : Sys} {object : GObject}
    {calls : List Event} {after : Drawer} (hsys : p'.sys = t.draw object calls after)
    (hcalls : ∀ call ∈ calls, call.Stroke)
    (hpin : ∀ a, t.motors.engine.stepPin a = p.sys.motors.engine.stepPin a)
    (hscale : t.motors.scale = p.sys.motors.scale) (hdrawer : t.drawer = p.sys.drawer)
    (hcompleted : t.completed = p.sys.completed)
    (hafter : after = triggerMotors p₀.sys.motors.scale object p.sys.drawer)
    (hplace : ∀ a, p.pos a + heading (t.motors.axis a).dir * totalSteps a calls =
      p₀.place a after)
    (hunder : ∀ a, (t.motors.axis a).dir = decide (p.sys.drawer.recorded a < object.coord a) ∧
      totalSteps a calls ≤ moveSteps a p₀.sys.motors.scale object p.sys.drawer) :
    Carries p₀ p' := by
  have hdrawn := hsys ▸ t.drawn object after hcalls
  have hstay : ∀ a, p'.pos a = p.pos a := by
    intro a
    rw [hpos, pulled_eq_zero ((hdrawn.pin a).trans (hpin a)), add_zero]
  have hgoal : p'.sys.goal = after := by rw [hsys, (t.goal_draw object calls after).1]
  refine ⟨hcalibrated, hsteady, ?_, ?_, ?_, ?_⟩
  · rw [← h.scale_eq, ← hscale]
    exact Motors.scale_eq fun a => by rw [hdrawn.axis]
  · rcases t.draw_of_stroke object after hcalls with ⟨-, heq⟩ | ⟨b, rest, -, heq⟩
    · -- the move is over
      obtain ⟨objects, hobjects, htargets⟩ := h.moves
      refine ⟨objects ++ [object], ?_, ?_⟩
      · rw [hsys, heq, triggerAll_concat, ← hobjects, hafter]
      · rw [hsys, heq, targets_concat_G1, hcompleted, htargets, List.map_append,
          ← List.append_assoc]
        rfl
    · rw [hsys, heq]
      change ∃ objects : List GObject, t.drawer = _ ∧ targets t.completed = _
      rw [hdrawer, hcompleted]
      exact h.moves
  · intro a
    rw [hstay, hdrawn.axis, hdrawn.toGo, hgoal]
    exact hplace a
  · intro o c d hpc
    rcases t.draw_of_stroke object after hcalls with ⟨-, heq⟩ | ⟨b, rest, -, heq⟩
    · rw [hsys, heq] at hpc
      cases hpc
    · have hsame : p'.sys.drawer = p.sys.drawer := by rw [hsys, heq, ← hdrawer]
      rw [hsys, heq] at hpc
      obtain ⟨rfl, -, rfl⟩ := StepperPc.drawing.inj hpc
      rw [hsame]
      refine ⟨hafter, ?_⟩
      intro a
      rw [hdrawn.axis, hdrawn.toGo]
      exact hunder a

/-- A command that the stepper task takes off the queue. -/
theorem receive (h : Carries p₀ p) (hcalibrated : p'.sys.Calibrated) (hsteady : p'.sys.Steady)
    (hpos : ∀ a, p'.pos a = p.pos a + pulled a p.sys p'.sys)
    (hs : p.sys.stepperReceive = some p'.sys) : Carries p₀ p' := by
  obtain ⟨hpc, g, -, hsys⟩ := Sys.stepperReceive_cases hs
  have hrest : p.sys.stepper.waits = false := by rw [hpc]; rfl
  cases horder : g.order? with
  | none =>
      rw [horder] at hsys
      exact h.of_same hcalibrated hsteady hpos (by rw [hsys]; rfl) (by rw [hsys]; rfl)
        (by rw [hsys]; rfl) (.inl (by rw [hsys]; rfl))
  | some o =>
      rw [horder] at hsys
      cases o with
      | M10 =>
          exact h.of_same hcalibrated hsteady hpos (by rw [hsys]; rfl) (by rw [hsys]; rfl)
            (by rw [hsys]; rfl) (.inr ⟨hrest, by rw [hsys]; rfl⟩)
      | M1 servo =>
          exact h.of_same hcalibrated hsteady hpos (by rw [hsys]; rfl) (by rw [hsys]; rfl)
            (by rw [hsys]; exact targets_concat_of_none _ rfl) (.inr ⟨hrest, by rw [hsys]; rfl⟩)
      | G28 =>
          exact h.of_same hcalibrated hsteady hpos (by rw [hsys]; rfl) (by rw [hsys]; rfl)
            (by rw [hsys]; exact targets_concat_of_none _ rfl) (.inr ⟨hrest, by rw [hsys]; rfl⟩)
      | G1 x y =>
          simp only [Sys.draw_moveEvents] at hsys
          have haxis : ∀ a, (p.sys.motors.turnTo g p.sys.drawer).axis a =
              { p.sys.motors.axis a with
                dir := decide (p.sys.drawer.recorded a < g.coord a) } :=
            p.sys.motors.axis_turnTo g p.sys.drawer
          refine h.of_draw hcalibrated hsteady hpos hsys stroke_of_mem_moveStrokes ?_ rfl rfl rfl
            (by rw [h.scale_eq]) ?_ ?_
          · intro a
            cases a <;> rfl
          · intro a
            have hbefore := h.pos_eq a
            rw [Sys.toGo_of_rest hrest, mul_zero, add_zero, Sys.goal_of_rest hrest] at hbefore
            have hmove := netSteps_triggerMotors a p.sys.motors.scale g p.sys.drawer
            rw [Plant.place, hmove, hbefore, Plant.place]
            change _ + heading (((p.sys.motors.turnTo g p.sys.drawer).axis a).dir) *
              moveSteps a p.sys.motors.scale g p.sys.drawer = _
            rw [haxis]
            ring
          · intro a
            change ((p.sys.motors.turnTo g p.sys.drawer).axis a).dir = _ ∧ _
            rw [haxis, ← h.scale_eq]
            exact ⟨rfl, le_refl _⟩

/-- The next wait of a move. -/
theorem wake (h : Carries p₀ p) (hcalibrated : p'.sys.Calibrated) (hsteady : p'.sys.Steady)
    (hpos : ∀ a, p'.pos a = p.pos a + pulled a p.sys p'.sys)
    (hs : p.sys.stepperWake = some p'.sys) : Carries p₀ p' := by
  obtain ⟨object, calls, after, hpc, hsb, hsys⟩ := Sys.stepperWake_cases hs
  have hcalls := h.steady.strokes object calls after hpc
  obtain ⟨hafter, hunder⟩ := h.under object calls after hpc
  have hdone := h.steady.left_of_wake hpc hsb
  have htoGo : ∀ a, p.sys.toGo a = totalSteps a calls := by
    intro a
    simp [Sys.toGo, hpc, Engine.toCome, hdone a]
  refine h.of_draw hcalibrated hsteady hpos hsys hcalls ?_ rfl rfl rfl hafter ?_ ?_
  · intro a
    cases a <;> rfl
  · intro a
    have hplace := h.pos_eq a
    rw [htoGo, Sys.goal, hpc] at hplace
    change _ + heading ((p.sys.motors.wake.axis a).dir) * _ = _
    rw [Motors.axis_wake]
    exact hplace
  · intro a
    change ((p.sys.motors.wake.axis a).dir) = _ ∧ _
    rw [Motors.axis_wake, ← htoGo]
    exact hunder a

/-- The interrupts of a wait. -/
theorem interrupt (h : Carries p₀ p) (hcalibrated : p'.sys.Calibrated) (hsteady : p'.sys.Steady)
    (hpos : ∀ a, p'.pos a = p.pos a + pulled a p.sys p'.sys) {rd : Readings}
    (hclear : Unhindered p.sys (.interrupt rd)) (hs : p.sys.interrupt rd = some p'.sys) :
    Carries p₀ p' := by
  obtain ⟨ht, hsys⟩ := Sys.interrupt_cases hs
  obtain ⟨b, hstepping⟩ := h.steady.stepping
  have hpulses := (hstepping.interrupt (h.steady.engine.1.unheld ht b) (hclear b)).2
  have haxis : ∀ a, p'.sys.motors.axis a = p.sys.motors.axis a := by
    intro a
    rw [hsys]
    exact p.sys.motors.axis_interrupt rd a
  have hstepper : p'.sys.stepper = p.sys.stepper := by rw [hsys]
  have hgoal : p'.sys.goal = p.sys.goal := by rw [hsys]; rfl
  obtain ⟨object, calls, after, hpc⟩ := h.steady.drawing_of_timer h.calibrated ht
  have hgo : ∀ a, ((p'.sys.motors.engine.stepPin a).rises : ℤ) + p'.sys.toGo a =
      (p.sys.motors.engine.stepPin a).rises + p.sys.toGo a := by
    intro a
    have hpulse : ((p'.sys.motors.engine.stepPin a).rises : ℤ) + p'.sys.motors.engine.toCome a =
        (p.sys.motors.engine.stepPin a).rises + p.sys.motors.engine.toCome a := by
      rw [hsys]
      exact_mod_cast hpulses a
    simp only [Sys.toGo, hstepper, hpc]
    linarith
  refine ⟨hcalibrated, hsteady, ?_, ?_, ?_, ?_⟩
  · rw [← h.scale_eq]
    exact Motors.scale_eq fun a => by rw [haxis]
  · rw [hsys]
    exact h.moves
  · intro a
    rw [hpos, haxis, hgoal, ← h.pos_eq a, pulled]
    have htoGo : p.sys.toGo a = (p'.sys.motors.engine.stepPin a).rises -
        (p.sys.motors.engine.stepPin a).rises + p'.sys.toGo a := by
      linarith [hgo a]
    rw [htoGo]
    ring
  · intro o c d heq
    obtain ⟨hafter, hunder⟩ := h.under o c d (hstepper ▸ heq)
    have hdrawer : p'.sys.drawer = p.sys.drawer := by rw [hsys]
    rw [hdrawer]
    refine ⟨hafter, ?_⟩
    intro a
    obtain ⟨hdir, hle⟩ := hunder a
    have hless : p'.sys.motors.engine.toCome a ≤ p.sys.motors.engine.toCome a := by
      rw [hsys]
      exact RIT_IRQHandler_toCome_le (h.steady.engine.1.unheld ht a) rd
    have htoGo : p'.sys.toGo a ≤ p.sys.toGo a := by
      simp only [Sys.toGo, hstepper, hpc]
      omega
    rw [haxis]
    exact ⟨hdir, htoGo.trans hle⟩

/-- **One step** after calibration, in which no switch is in the way. -/
theorem step (h : Carries p₀ p) {e : Ev} (hclear : Unhindered p.sys e)
    (hstep : p.step e = some p') : Carries p₀ p' := by
  obtain ⟨hs, hpos⟩ := Plant.step_cases hstep
  have hcalibrated := h.calibrated.step hs
  have hsteady := h.steady.step (h.calibrated.movesAlone e) hclear hs
  cases e with
  | hostSend _ | hostReceive | parserDelayed | parserReceive | parserSend =>
      have hsame := sameWork_of_transfer rfl hs
      exact h.of_same hcalibrated hsteady hpos hsame.motors_eq hsame.drawer_eq
        (by rw [hsame.completed_eq]) (.inl hsame.stepper_eq)
  | stepperDelayed =>
      obtain ⟨hpc, hsys⟩ := Sys.stepperDelayed_cases hs
      exact h.of_same hcalibrated hsteady hpos (by rw [hsys]) (by rw [hsys]) (by rw [hsys])
        (.inr ⟨by rw [hpc]; rfl, by rw [hsys]; rfl⟩)
  | stepperReceive => exact h.receive hcalibrated hsteady hpos hs
  | stepperExpire =>
      obtain ⟨hpc, -, hsys⟩ := Sys.stepperExpire_cases hs
      exact h.of_same hcalibrated hsteady hpos (by rw [hsys]) (by rw [hsys]) (by rw [hsys])
        (.inr ⟨by rw [hpc]; rfl, by rw [hsys]; rfl⟩)
  | stepperSent =>
      obtain ⟨hpc, hsys⟩ | ⟨pause, hpc, hsys⟩ := Sys.stepperSent_cases hs
      · exact h.of_same hcalibrated hsteady hpos (by rw [hsys]) (by rw [hsys])
          (by rw [hsys]; exact targets_concat_of_none _ rfl)
          (.inr ⟨by rw [hpc]; rfl, by rw [hsys]; rfl⟩)
      · exact h.of_same hcalibrated hsteady hpos (by rw [hsys]) (by rw [hsys]) (by rw [hsys])
          (.inr ⟨by rw [hpc]; rfl, by rw [hsys]; cases pause <;> rfl⟩)
  | stepperWake => exact h.wake hcalibrated hsteady hpos hs
  | calibrateRun rd =>
      obtain ⟨hpc, -⟩ | ⟨a, hpc, -⟩ := Sys.calibrateRun_cases hs
      · rw [h.calibrated.done] at hpc
        cases hpc
      · rw [h.calibrated.done] at hpc
        cases hpc
  | interrupt rd => exact h.interrupt hcalibrated hsteady hpos hclear hs

/-- At rest, before the first move. -/
theorem refl (hcalibrated : p.sys.Calibrated) (hsteady : p.sys.Steady)
    (hrest : p.sys.stepper.waits = false) : Carries p p where
  calibrated := hcalibrated
  steady := hsteady
  scale_eq := rfl
  moves := ⟨[], rfl, by simp⟩
  pos_eq := by
    intro a
    rw [Sys.toGo_of_rest hrest, Sys.goal_of_rest hrest, place, mul_zero, sub_self]
  under := by
    intro object calls after hpc
    rw [hpc] at hrest
    cases hrest

theorem pos_of_rest (h : Carries p₀ p) (hrest : p.sys.stepper.waits = false) (a : Axis) :
    p.pos a = p₀.place a p.sys.drawer := by
  have hpos := h.pos_eq a
  rwa [Sys.toGo_of_rest hrest, mul_zero, add_zero, Sys.goal_of_rest hrest] at hpos

/-- **In the middle of a move** a carriage is between the two ends of it. -/
theorem between (h : Carries p₀ p) (a : Axis) :
    p.pos a ∈ Set.uIcc (p₀.place a p.sys.drawer) (p₀.place a p.sys.goal) := by
  cases hpc : p.sys.stepper with
  | delay | receive | sendArea | sendOK pause =>
      have hrest : p.sys.stepper.waits = false := by rw [hpc]; rfl
      rw [h.pos_of_rest hrest]
      exact Set.left_mem_uIcc
  | drawing object calls after =>
      obtain ⟨hafter, hunder⟩ := h.under object calls after hpc
      obtain ⟨hdir, hle⟩ := hunder a
      have hgoal : p.sys.goal = after := by rw [Sys.goal, hpc]
      have hpos := h.pos_eq a
      have hmove := netSteps_triggerMotors a p₀.sys.motors.scale object p.sys.drawer
      rw [← hafter, ← hdir] at hmove
      have hnonneg : 0 ≤ p.sys.toGo a := by
        have hcalls := totalSteps_nonneg (h.steady.strokes object calls after hpc) a
        simp only [Sys.toGo, hpc]
        omega
      rw [hgoal] at hpos ⊢
      rw [place] at hpos ⊢
      rw [place, Set.mem_uIcc]
      generalize (p.sys.motors.axis a).dir = d at hpos hmove
      cases d with
      | true =>
          simp only [heading, if_true, one_mul] at hpos hmove
          omega
      | false =>
          simp only [heading, Bool.false_eq_true, if_false, neg_one_mul] at hpos hmove
          omega

end Plant.Carries

/-! ## Runs in which no switch is in the way -/

/-- Moves are begun with both axes calibrated, and no switch is in the way. -/
def Undisturbed (s : Sys) (e : Ev) : Prop := MovesAlone s e ∧ Unhindered s e

/-- After calibration, with no move under way. -/
structure Sys.Resting (s : Sys) : Prop where
  calibrated : s.Calibrated
  steady : s.Steady
  rest : s.stepper.waits = false
  inBand : InBand s.drawer.error

theorem resting_of_run {es : List Ev} {s : Sys} (hG : Along step Undisturbed Sys.init es)
    (hrun : run step Sys.init es = some s) (hdone : s.calibrate = .done)
    (hrest : s.stepper.waits = false) : s.Resting where
  calibrated :=
    ⟨run_induction (fun _ _ _ h hG hs => h.step hG hs) Sys.Armed.init
      (hG.mono fun _ _ h => h.1) hrun, hdone⟩
  steady := run_induction (fun _ _ _ h hG hs => h.step hG.1 hG.2 hs) Sys.Steady.init hG hrun
  rest := hrest
  inBand :=
    (run_induction_all
      (fun _ _ _ h hs => drawers_of_step (P := fun d => InBand d.error)
        (fun sc g _ hd => inBand_triggerMotors sc g hd) hs h)
      ⟨inBand_half, inBand_half⟩ hrun).1

/-- The drift of `n` moves is at most `2 * n` steps, whatever the record was before. -/
theorem abs_drift_sub_le {a : Axis} {sc : Scale} (h : 0 ≤ sc.on a) {s : Drawer}
    (hs : InBand s.error) (objects : List GObject) :
    |drift a sc (triggerAll sc objects s) - drift a sc s| ≤ 2 * objects.length := by
  induction objects using List.reverseRecOn with
  | nil => simp
  | append_singleton os o ih =>
      have hmove := abs_moveSteps_sub_lt a sc o (triggerAll_inBand sc os hs)
      have hstep : |drift a sc (triggerMotors sc o (triggerAll sc os s)) -
          drift a sc (triggerAll sc os s)| ≤ 2 := by
        rw [drift_triggerMotors h, add_sub_cancel_left, abs_mul, abs_heading, one_mul]
        exact hmove.le
      rw [triggerAll_concat, List.length_append]
      push_cast [List.length_singleton]
      calc |drift a sc (triggerMotors sc o (triggerAll sc os s)) - drift a sc s|
          ≤ |drift a sc (triggerMotors sc o (triggerAll sc os s)) -
              drift a sc (triggerAll sc os s)| +
            |drift a sc (triggerAll sc os s) - drift a sc s| := abs_sub_le _ _ _
        _ ≤ 2 * (os.length + 1) := by linarith

section Run
variable {es fs : List Ev} {p₀ p : Plant}

/-- **The carriages follow the moves.** Let calibration be over and no move be under way. In
every run from there in which no switch is in the way, whatever the tasks, the host and the timer
do in between: when no move is under way again the pulses have moved each carriage by the distance
between the two records, up to two steps for each of the moves that were made. -/
theorem carriages_follow_moves (hG : Along step Undisturbed Sys.init es)
    (hstart : run step Sys.init es = some p₀.sys) (hdone : p₀.sys.calibrate = .done)
    (hrest : p₀.sys.stepper.waits = false)
    (hclear : Along Plant.step (fun p e => Unhindered p.sys e) p₀ fs)
    (hrun : run Plant.step p₀ fs = some p) (hend : p.sys.stepper.waits = false) :
    ∃ objects : List GObject,
      p.sys.drawer = triggerAll p₀.sys.motors.scale objects p₀.sys.drawer ∧
      targets p.sys.completed = targets p₀.sys.completed ++ objects.map GObject.target ∧
      ∀ a, |((p.pos a - p₀.pos a : ℤ) : ℚ) -
        (p.sys.drawer.recorded a - p₀.sys.drawer.recorded a) * p₀.sys.motors.scale.on a| ≤
          2 * objects.length := by
  have hready := resting_of_run hG hstart hdone hrest
  have h : p₀.Carries p := run_induction (fun _ _ _ h hG hs => h.step hG hs)
    (Plant.Carries.refl hready.calibrated hready.steady hrest) hclear hrun
  obtain ⟨objects, hdrawer, htargets⟩ := h.moves
  refine ⟨objects, hdrawer, htargets, ?_⟩
  intro a
  have hdrift := abs_drift_sub_le (hready.steady.measured.scale_nonneg a) hready.inBand objects
  rw [← hdrawer, drift, drift] at hdrift
  rw [h.pos_of_rest hend a, Plant.place]
  push_cast
  have hsame : ((p₀.pos a : ℚ) + (netSteps a p.sys.drawer - netSteps a p₀.sys.drawer) - p₀.pos a) -
      (p.sys.drawer.recorded a - p₀.sys.drawer.recorded a) * p₀.sys.motors.scale.on a =
      netSteps a p.sys.drawer - p.sys.drawer.recorded a * p₀.sys.motors.scale.on a -
        (netSteps a p₀.sys.drawer - p₀.sys.drawer.recorded a * p₀.sys.motors.scale.on a) := by
    ring
  rw [hsame]
  exact hdrift

end Run

/-- Calibration over a travel of 348 steps on both axes. -/
def bothAxes : List Ev :=
  [.calibrateRun {}, .parserDelayed, .stepperDelayed] ++
    stepAndRead { xStart := true } ++ stepAndRead { yStart := true } ++
    (List.replicate 347 (stepAndRead {} ++ stepAndRead {})).flatten ++
    stepAndRead { xEnd := true } ++ (List.replicate 7 (stepAndRead {})).flatten ++
    stepAndRead { yEnd := true } ++ (List.replicate 7 (stepAndRead {})).flatten

/-- An event with which no command is received and no switch is read active by the timer. -/
def Ev.undisturbing : Ev → Bool
  | .stepperReceive => false
  | .interrupt rd => rd = {}
  | _ => true

theorem undisturbed_of_all {s : Sys} {es : List Ev} (h : es.all Ev.undisturbing = true) :
    Along step Undisturbed s es := by
  refine (along_of_forall_mem (List.all_eq_true.mp h)).mono ?_
  intro t e he
  refine ⟨?_, ?_⟩
  · rintro rfl
    cases he
  · cases e with
    | interrupt rd =>
        intro a _
        rw [show rd = {} from of_decide_eq_true he]
        cases a <;> simp [Readings.active]
    | hostSend _ | hostReceive | parserDelayed | parserReceive | parserSend | stepperDelayed
    | stepperReceive | stepperExpire | stepperSent | stepperWake | calibrateRun _ => trivial

theorem undisturbed_bothAxes : Along step Undisturbed Sys.init bothAxes :=
  undisturbed_of_all (by decide +kernel)

/-- Two interrupts finish a step of the move, and the stepper task goes on. -/
def stepAndWake : List Ev := [.interrupt {}, .interrupt {}, .stepperWake]

/-- A move by half a step, which the leading axis makes with a whole one. -/
def halfStep : List Ev := moveTo (1 / 2) 0 ++ stepAndWake

theorem carriages_follow_moves_halfStep : ∃ s p, run step Sys.init bothAxes = some s ∧
    run Plant.step ⟨s, 0, 0⟩ halfStep = some p ∧ p.x = 1 ∧ ∃ objects : List GObject,
      p.sys.drawer = triggerAll s.motors.scale objects s.drawer ∧
      targets p.sys.completed = targets s.completed ++ objects.map GObject.target ∧
      ∀ a, |((p.pos a - (⟨s, 0, 0⟩ : Plant).pos a : ℤ) : ℚ) -
        (p.sys.drawer.recorded a - s.drawer.recorded a) * s.motors.scale.on a| ≤
          2 * objects.length := by
  obtain ⟨s, hs, hdone, hrest, hclear, hmove⟩ : ∃ s, run step Sys.init bothAxes = some s ∧
      s.calibrate = .done ∧ s.stepper.waits = false ∧
      Along Plant.step (fun p e => Unhindered p.sys e) ⟨s, 0, 0⟩ halfStep ∧
      (run Plant.step ⟨s, 0, 0⟩ halfStep).any (fun p =>
        decide (p.sys.stepper.waits = false ∧ p.x = 1)) = true := exists_of_run (by decide +kernel)
  obtain ⟨p, hp, hend, hx⟩ := exists_of_run hmove
  have hstart : run step Sys.init bothAxes = some (⟨s, 0, 0⟩ : Plant).sys := hs
  have hfollow := carriages_follow_moves undisturbed_bothAxes hstart hdone hrest hclear hp hend
  exact ⟨s, p, hs, hp, hx, hfollow⟩

end Plotter
