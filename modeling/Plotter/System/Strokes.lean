import Plotter.StepEngine.Stroke
import Plotter.System.Progress

/-!
# The moves of a run, step by step

A move is cut at the waits for its full steps, and other tasks run in between. What the stepper
task has still to make of it is known at every moment: the calls after the wait, and the pulses
that the wait has still to give.

## Main definitions

* `Unhindered`: no interrupt finds a switch in the way of a move.
* `Sys.Steady`: the engine makes one full step at a time.
* `Sys.goal`, `Sys.toGo`: the globals that the move under way leaves, and its steps to go.
* `goal_of_step`: how the globals of the moves change.
-/

namespace Plotter

open Lib

/-! ## The calls of a move -/

/-- The steps of a list of strokes up to its next wait. -/
theorem drawUntilWait_of_stroke {calls : List Event} (h : ∀ call ∈ calls, call.Stroke)
    (m : Motors) : calls = [] ∧ drawUntilWait calls m = (m, none) ∨
      ∃ (a : Axis) (rest : List Event), calls = .ritStart a.counts.1 a.counts.2 :: rest ∧
        drawUntilWait calls m = (m.start a.counts.1 a.counts.2, some rest) := by
  cases calls with
  | nil => exact .inl ⟨rfl, rfl⟩
  | cons call rest =>
      rcases h call List.mem_cons_self with rfl | rfl
      · exact .inr ⟨.x, rest, rfl, rfl⟩
      · exact .inr ⟨.y, rest, rfl, rfl⟩

/-- The motors with the directions of a move. -/
def Motors.turnTo (m : Motors) (object : GObject) (s : Drawer) : Motors :=
  (m.setDirection .x (decide (s.x0 < object.xCoord))).setDirection .y
    (decide (s.y0 < object.yCoord))

/-- The strokes of a move. -/
def moveStrokes (sc : Scale) (object : GObject) (s : Drawer) : List Event :=
  (movePlan sc object s).strokes (moveTicks sc object s).1

theorem stroke_of_mem_moveStrokes {sc : Scale} {object : GObject} {s : Drawer} :
    ∀ call ∈ moveStrokes sc object s, call.Stroke := fun _ => Plan.stroke_of_mem

theorem Motors.axis_turnTo (m : Motors) (object : GObject) (s : Drawer) (a : Axis) :
    (m.turnTo object s).axis a =
      { m.axis a with dir := decide (s.recorded a < object.coord a) } := by
  cases a <;> rfl

/-- A move sets the directions, then it makes its strokes. -/
theorem Sys.draw_moveEvents (s : Sys) (sc : Scale) (object : GObject) (d after : Drawer) :
    s.draw object (moveEvents sc object d) after =
      Sys.draw { s with motors := s.motors.turnTo object d } object (moveStrokes sc object d)
        after := by
  rw [Sys.draw, Sys.draw]
  rfl

/-- Nothing of a draw but the wait it begins touches the engine. -/
theorem Sys.draw_of_stroke (s : Sys) (object : GObject) {calls : List Event} (after : Drawer)
    (h : ∀ call ∈ calls, call.Stroke) :
    (calls = [] ∧ s.draw object calls after = { s with
      drawer := after
      completed := s.completed ++ [.G1 object.xCoord object.yCoord]
      stepper := .sendOK false }) ∨
    ∃ (a : Axis) (rest : List Event), calls = .ritStart a.counts.1 a.counts.2 :: rest ∧
      s.draw object calls after = { s with
        motors := s.motors.start a.counts.1 a.counts.2
        stepper := .drawing object rest after } := by
  rcases drawUntilWait_of_stroke h s.motors with ⟨hnil, heq⟩ | ⟨a, rest, hcons, heq⟩
  · refine .inl ⟨hnil, ?_⟩
    rw [Sys.draw, heq]
    rfl
  · refine .inr ⟨a, rest, hcons, ?_⟩
    rw [Sys.draw, heq]

/-! ## The scales -/

/-- No axis has counted less than nothing. -/
def Motors.Measured (m : Motors) : Prop :=
  ∀ a, 0 ≤ (m.axis a).stepsTaken ∧ 0 ≤ (m.axis a).scaled

namespace Motors.Measured
variable {m : Motors}

theorem setAxis (h : m.Measured) {a : Axis} {s : AxisState}
    (hs : 0 ≤ s.stepsTaken ∧ 0 ≤ s.scaled) : (m.setAxis a s).Measured := by
  intro b
  by_cases hab : a = b
  · subst hab
    rwa [axis_setAxis_self]
  · rw [axis_setAxis_of_ne m hab]
    exact h b

theorem of_axes {m' : Motors} (h : m.Measured)
    (haxis : ∀ a, (m'.axis a).stepsTaken = (m.axis a).stepsTaken ∧
      (m'.axis a).scaled = (m.axis a).scaled) : m'.Measured := by
  intro a
  rw [(haxis a).1, (haxis a).2]
  exact h a

theorem count (h : m.Measured) (a : Axis) :
    0 ≤ (m.axis a).count.stepsTaken ∧ 0 ≤ (m.axis a).count.scaled :=
  ⟨Int.le_add_one (h a).1, (h a).2⟩

theorem finish (h : m.Measured) (a : Axis) : 0 ≤ ((m.axis a).finish a.divisor).stepsTaken ∧
    0 ≤ ((m.axis a).finish a.divisor).scaled := by
  have htaken : 0 ≤ truncate ((m.axis a).stepsTaken * (98 / 100)) := by
    refine Int.tdiv_nonneg ?_ (Int.natCast_nonneg _)
    rw [Rat.num_nonneg]
    exact mul_nonneg (by exact_mod_cast (h a).1) (by norm_num)
  refine ⟨htaken, ?_⟩
  change (0 : ℚ) ≤ perMillimetre (truncate ((m.axis a).stepsTaken * (98 / 100))) a.divisor
  rw [perMillimetre]
  exact_mod_cast Int.tdiv_nonneg htaken (by cases a <;> decide)

theorem calibrateFrom (h : m.Measured) (a : Axis) : (calibrateFrom a m).1.Measured := by
  unfold Plotter.calibrateFrom
  split_ifs
  · exact fun b => h.setAxis (h.count a) b
  · exact fun b => h.setAxis (h.count a.other) b
  · exact h

theorem calibrateBackOff (h : m.Measured) (a : Axis) (i : ℕ) :
    (calibrateBackOff a i m).1.Measured := by
  unfold Plotter.calibrateBackOff
  split_ifs
  · exact fun b => h.setAxis (s := { m.axis a with dir := true }) (h a) b
  · exact (h.setAxis (h.finish a)).calibrateFrom a.other

theorem calibrateResume (h : m.Measured) (rd : Readings) (pc : CalibratePc) :
    (calibrateResume rd pc m).1.Measured := by
  cases pc with
  | ready =>
      have hx : (m.setDirection .x true).Measured := h.setAxis (h .x)
      have hy : ((m.setDirection .x true).setDirection .y true).Measured := hx.setAxis (hx .y)
      exact hy.calibrateFrom .x
  | step a =>
      rw [Plotter.calibrateResume]
      split_ifs
      · have hturn : 0 ≤ (m.axis a).turnRound.stepsTaken ∧ 0 ≤ (m.axis a).turnRound.scaled :=
          ⟨le_refl _, (h a).2⟩
        exact (h.setAxis hturn).calibrateFrom a.other
      · exact h.calibrateBackOff a 0
      · exact h.calibrateFrom a.other
  | backOff a i => exact h.calibrateBackOff a (i + 1)
  | done => exact h

theorem scale_nonneg (h : m.Measured) (a : Axis) : 0 ≤ m.scale.on a := by
  cases a with
  | x => exact (h .x).2
  | y => exact (h .y).2

end Motors.Measured

/-! ## The scales stay -/

theorem Motors.scale_eq {m m' : Motors} (h : ∀ a, (m'.axis a).scaled = (m.axis a).scaled) :
    m'.scale = m.scale := congrArg₂ Scale.mk (h .x) (h .y)

theorem Sys.scale_draw (s : Sys) (object : GObject) (calls : List Event) (after : Drawer) :
    (s.draw object calls after).motors.scale = s.motors.scale := by
  have hscale : (drawUntilWait calls s.motors).1.scale = s.motors.scale := by
    apply Motors.scale_eq
    intro a
    obtain ⟨d, hd⟩ := axis_drawUntilWait calls s.motors a
    rw [hd]
  rcases draw_cases s object calls after with ⟨rest, -, heq⟩ | ⟨-, heq⟩
  · rw [heq]
    exact hscale
  · rw [heq]
    exact hscale

/-- After calibration the scales do not change. -/
theorem scale_of_step {s s' : Sys} {e : Ev} (hs : step s e = some s') (hdone : s.calibrate = .done) :
    s'.motors.scale = s.motors.scale := by
  cases e with
  | hostSend _ | hostReceive | parserDelayed | parserReceive | parserSend =>
      rw [(sameWork_of_transfer rfl hs).motors_eq]
  | stepperDelayed => obtain ⟨-, rfl⟩ := Sys.stepperDelayed_cases hs; rfl
  | stepperReceive =>
      obtain ⟨-, g, -, rfl⟩ := Sys.stepperReceive_cases hs
      cases g.order? with
      | none => rfl
      | some o =>
          cases o with
          | M10 | M1 servo | G28 => rfl
          | G1 x y => exact (s.take g).scale_draw ..
  | stepperExpire => obtain ⟨-, -, rfl⟩ := Sys.stepperExpire_cases hs; rfl
  | stepperSent =>
      obtain ⟨-, rfl⟩ | ⟨pause, -, rfl⟩ := Sys.stepperSent_cases hs
      · rfl
      · rfl
  | stepperWake =>
      obtain ⟨object, calls, after, -, -, rfl⟩ := Sys.stepperWake_cases hs
      exact Sys.scale_draw { s with motors := s.motors.wake } ..
  | calibrateRun rd =>
      obtain ⟨hpc, -⟩ | ⟨a, hpc, -⟩ := Sys.calibrateRun_cases hs
      · rw [hdone] at hpc
        cases hpc
      · rw [hdone] at hpc
        cases hpc
  | interrupt rd => obtain ⟨-, rfl⟩ := Sys.interrupt_cases hs; rfl

/-! ## One full step at a time -/

/-- No switch is in the way of a step. -/
def Unhindered (s : Sys) : Ev → Prop
  | .interrupt rd =>
    ∀ a, s.motors.engine.left a ≠ 0 → (s.motors.flags.on a && rd.active a) = false
  | _ => True

instance (s : Sys) : (e : Ev) → Decidable (Unhindered s e)
  | .interrupt _ => inferInstanceAs (Decidable (∀ _, _))
  | .hostSend _ | .hostReceive | .parserDelayed | .parserReceive | .parserSend | .stepperDelayed
  | .stepperReceive | .stepperExpire | .stepperSent | .stepperWake | .calibrateRun _ =>
    isTrue trivial

/-- Every counter that is not zero is counted down. -/
theorem EnginePhase.unheld {pc : CalibratePc} {w : Bool} {m : Motors} (h : EnginePhase pc w m)
    (ht : m.engine.timer = true) (a : Axis) : m.engine.Unheld m.flags a := by
  intro hon hoff
  rw [Motors.flags_on] at hon hoff
  cases h with
  | before _ hfree | idle _ hfree => exact absurd ht (by rw [hfree.1]; exact Bool.false_ne_true)
  | calibrating b _ hflag hother _ =>
      by_cases hab : a = b
      · rw [hab, hflag] at hon
        cases hon
      · have ha : a = b.other := by cases a <;> cases b <;> first | rfl | exact absurd rfl hab
        rw [ha]
        exact (m.engine.left_eq_zero b.other).mpr hother
  | drawing hflags _ =>
      rw [hflags a.other] at hoff
      cases hoff

/-- The engine makes one full step at a time, and so does a move. -/
structure Sys.Steady (s : Sys) : Prop where
  engine : s.EngineInv
  stepping : ∃ a, s.motors.engine.Stepping a
  strokes : ∀ object calls after, s.stepper = .drawing object calls after →
    ∀ call ∈ calls, call.Stroke
  measured : s.motors.Measured

theorem moveStrokes_eq_nil {sc : Scale} {object : GObject} {s : Drawer}
    (h : ∀ a, displacement a sc object s = 0) : moveStrokes sc object s = [] := by
  have hrounds : (movePlan sc object s).rounds = 0 := (rounds_eq_zero_iff sc object s).mpr h
  rw [moveStrokes, moveTicks, hrounds, dda_zero, Plan.strokes]
  split_ifs
  · rfl
  · rfl

namespace Sys.Steady
variable {s s' : Sys}

theorem init : Sys.init.Steady where
  engine := Sys.EngineInv.init
  stepping := ⟨.x, rfl, Nat.zero_le 2, rfl, fun h => absurd h Nat.zero_ne_one, fun _ => rfl⟩
  strokes := by
    intro object calls after hpc
    cases hpc
  measured := by
    intro a
    cases a <;> exact ⟨le_refl _, le_refl _⟩

/-- A step that begins no wait. -/
theorem of_same (h : s.Steady) (hinv : s'.EngineInv) (hengine : s'.motors.engine = s.motors.engine)
    (hmeasured : s'.motors.Measured)
    (hpc : ∀ object calls after, s'.stepper = .drawing object calls after →
      s.stepper = .drawing object calls after) : s'.Steady where
  engine := hinv
  stepping := by
    rw [hengine]
    exact h.stepping
  strokes := fun object calls after heq => h.strokes object calls after (hpc object calls after heq)
  measured := hmeasured

/-- A stretch of a move. -/
theorem draw {t : Sys} {object : GObject} {calls : List Event} {after : Drawer}
    (hinv : (t.draw object calls after).EngineInv) (hcalls : ∀ call ∈ calls, call.Stroke)
    (hstepping : ∃ a, t.motors.engine.Stepping a)
    (hturn : calls ≠ [] → t.motors.engine.stepTurn = true) (hmeasured : t.motors.Measured) :
    (t.draw object calls after).Steady := by
  refine ⟨hinv, ?_, ?_, ?_⟩
  · rcases t.draw_of_stroke object after hcalls with ⟨-, heq⟩ | ⟨a, rest, hcons, heq⟩
    · rw [heq]
      exact hstepping
    · rw [heq]
      refine ⟨a, Engine.Stepping.of_begin _ a (hturn ?_)⟩
      rw [hcons]
      exact List.cons_ne_nil _ _
  · intro o c d hpc
    rcases t.draw_of_stroke object after hcalls with ⟨-, heq⟩ | ⟨a, rest, hcons, heq⟩
    · rw [heq] at hpc
      cases hpc
    · rw [heq] at hpc
      obtain ⟨-, rfl, -⟩ := StepperPc.drawing.inj hpc
      intro call hcall
      apply hcalls
      rw [hcons]
      exact List.mem_cons_of_mem _ hcall
  · rcases t.draw_of_stroke object after hcalls with ⟨-, heq⟩ | ⟨a, rest, -, heq⟩
    · rw [heq]
      exact hmeasured
    · rw [heq]
      apply hmeasured.of_axes
      intro b
      exact ⟨congrArg AxisState.stepsTaken (t.motors.axis_start ..),
        congrArg AxisState.scaled (t.motors.axis_start ..)⟩

/-- The engine after `sbRIT` was taken. -/
theorem stepping_wake {m : Motors} (h : ∃ a, m.engine.Stepping a) :
    ∃ a, m.wake.engine.Stepping a := by
  obtain ⟨a, h⟩ := h
  exact ⟨a, h.other, h.le_two, h.turn, h.low, h.rest⟩

theorem measured_wake {m : Motors} (h : m.Measured) : m.wake.Measured := by
  apply h.of_axes
  intro a
  rw [Motors.axis_wake]
  exact ⟨rfl, rfl⟩

theorem stepperReceive (h : s.Steady) (hG : MovesAlone s .stepperReceive)
    (hs : s.stepperReceive = some s') : s'.Steady := by
  have hinv := h.engine.stepperReceive hG hs
  obtain ⟨hpc, g, hqueue, rfl⟩ := stepperReceive_cases hs
  cases horder : g.order? with
  | none =>
      rw [horder] at hinv
      exact h.of_same hinv rfl h.measured fun _ _ _ => id
  | some o =>
      rw [horder] at hinv
      cases o with
      | M10 | M1 servo | G28 =>
          exact h.of_same hinv rfl h.measured fun _ _ _ hnew => by cases hnew
      | G1 x y =>
          simp only [Sys.draw_moveEvents] at hinv ⊢
          refine draw hinv stroke_of_mem_moveStrokes h.stepping ?_ ?_
          · intro hne
            rcases hG rfl g hqueue (g.command_of_order horder) with hflags | hzero
            · have hw : s.stepper.waits = false := by rw [hpc]; rfl
              obtain ⟨-, hfree⟩ := (hw ▸ h.engine.1).of_bothCalibrated hflags
              obtain ⟨a, hstepping⟩ := h.stepping
              exact hstepping.turn_of_stopped hfree.1
            · exact absurd (moveStrokes_eq_nil hzero) hne
          · apply h.measured.of_axes
            intro a
            change ((s.motors.turnTo g s.drawer).axis a).stepsTaken = _ ∧
              ((s.motors.turnTo g s.drawer).axis a).scaled = _
            rw [Motors.axis_turnTo]
            exact ⟨rfl, rfl⟩

theorem stepperWake (h : s.Steady) (hs : s.stepperWake = some s') : s'.Steady := by
  have hinv := h.engine.stepperWake hs
  obtain ⟨object, calls, after, hpc, hsb, rfl⟩ := stepperWake_cases hs
  have hw : s.stepper.waits = true := by rw [hpc]; rfl
  obtain ⟨-, -, htaken⟩ := (hw ▸ h.engine.1).of_drawing
  obtain ⟨a, hstepping⟩ := h.stepping
  exact draw hinv (h.strokes object calls after hpc) (stepping_wake h.stepping)
    (fun _ => hstepping.turn_of_stopped (htaken.free_wake hsb).1) (measured_wake h.measured)

theorem calibrateRun {rd : Readings} (h : s.Steady) (hs : s.calibrateRun rd = some s') :
    s'.Steady := by
  have hinv := h.engine.calibrateRun hs
  have hbegin : ∀ {m : Motors} {r : Motors × CalibratePc}, (∃ a, m.engine.Stepping a) →
      m.engine.timer = false → Settles m.engine r → ∃ a, r.1.engine.Stepping a := by
    intro m r hstepping hoff hsettles
    cases hsettles with
    | waits a _ _ hengine =>
        obtain ⟨b, hb⟩ := hstepping
        rw [hengine]
        exact ⟨a, Engine.Stepping.of_begin _ a (hb.turn_of_stopped hoff)⟩
    | ends _ hengine =>
        rw [hengine]
        exact hstepping
  rcases calibrateRun_cases hs with ⟨hpc, rfl⟩ | ⟨a, hpc, hsb, rfl⟩
  · obtain ⟨-, hfree⟩ := (hpc ▸ h.engine.1).of_ready
    exact ⟨hinv, hbegin h.stepping hfree.1 (calibrateResume_settles rd (.inl rfl)), h.strokes,
      h.measured.calibrateResume rd .ready⟩
  · obtain ⟨-, hflag, htaken⟩ := h.engine.1.of_waitsFor hpc
    have hsettles : Settles s.motors.wake.engine (calibrateResume rd s.calibrate s.motors.wake) :=
      calibrateResume_settles rd (.inr ⟨a, hpc, by rwa [Motors.axis_wake]⟩)
    exact ⟨hinv, hbegin (stepping_wake h.stepping) (htaken.free_wake hsb).1 hsettles, h.strokes,
      (measured_wake h.measured).calibrateResume rd s.calibrate⟩

theorem interrupt {rd : Readings} (h : s.Steady) (hclear : Unhindered s (.interrupt rd))
    (hs : s.interrupt rd = some s') : s'.Steady := by
  have hinv := h.engine.interrupt hs
  obtain ⟨ht, rfl⟩ := interrupt_cases hs
  obtain ⟨a, hstepping⟩ := h.stepping
  refine ⟨hinv, ⟨a, ?_⟩, h.strokes, ?_⟩
  · exact (hstepping.interrupt (h.engine.1.unheld ht a) (hclear a)).1
  · apply h.measured.of_axes
    intro b
    rw [Motors.axis_interrupt]
    exact ⟨rfl, rfl⟩

/-- **One step** in which no switch is in the way. -/
theorem step {e : Ev} (h : s.Steady) (hG : MovesAlone s e) (hclear : Unhindered s e)
    (hs : step s e = some s') : s'.Steady := by
  have hinv := h.engine.step hG hs
  cases e with
  | hostSend _ | hostReceive | parserDelayed | parserReceive | parserSend =>
      have hsame := sameWork_of_transfer rfl hs
      refine h.of_same hinv (by rw [hsame.motors_eq]) (by rw [hsame.motors_eq]; exact h.measured) ?_
      rw [hsame.stepper_eq]
      exact fun _ _ _ => id
  | stepperDelayed =>
      obtain ⟨-, rfl⟩ := stepperDelayed_cases hs
      exact h.of_same hinv rfl h.measured fun _ _ _ hnew => by cases hnew
  | stepperReceive => exact h.stepperReceive hG hs
  | stepperExpire =>
      obtain ⟨-, -, rfl⟩ := stepperExpire_cases hs
      exact h.of_same hinv rfl h.measured fun _ _ _ hnew => by cases hnew
  | stepperSent =>
      obtain ⟨-, rfl⟩ | ⟨pause, -, rfl⟩ := stepperSent_cases hs
      · exact h.of_same hinv rfl h.measured fun _ _ _ hnew => by cases hnew
      · exact h.of_same hinv rfl h.measured fun _ _ _ hnew => by cases pause <;> cases hnew
  | stepperWake => exact h.stepperWake hs
  | calibrateRun rd => exact h.calibrateRun hs
  | interrupt rd => exact h.interrupt hclear hs

/-- When the stepper task goes on with a move, the wait has given its pulse. -/
theorem left_of_wake (h : s.Steady) {object : GObject} {calls : List Event} {after : Drawer}
    (hpc : s.stepper = .drawing object calls after) (hsb : s.motors.engine.sbRIT = true)
    (a : Axis) : s.motors.engine.left a = 0 := by
  have hw : s.stepper.waits = true := by rw [hpc]; rfl
  obtain ⟨-, -, htaken⟩ := (hw ▸ h.engine.1).of_drawing
  obtain ⟨b, hstepping⟩ := h.stepping
  by_cases hab : a = b
  · rw [hab]
    exact hstepping.rest (htaken.free_wake hsb).1
  · have ha : a = b.other := by cases a <;> cases b <;> first | rfl | exact absurd rfl hab
    rw [ha]
    exact hstepping.other

/-- After calibration the timer is off unless a move is under way. -/
theorem drawing_of_timer (h : s.Steady) (hcalibrated : s.Calibrated)
    (ht : s.motors.engine.timer = true) :
    ∃ object calls after, s.stepper = .drawing object calls after := by
  cases hpc : s.stepper with
  | drawing object calls after => exact ⟨object, calls, after, rfl⟩
  | delay | receive | sendArea | sendOK pause =>
      have hphase := h.engine.1
      rw [hpc] at hphase
      obtain ⟨-, hfree⟩ := hphase.of_bothCalibrated hcalibrated.bothCalibrated
      rw [hfree.1] at ht
      cases ht

end Sys.Steady

/-! ## The globals that a move leaves -/

/-- The globals of the moves when the one under way is over. -/
def Sys.goal (s : Sys) : Drawer :=
  match s.stepper with
  | .drawing _ _ after => after
  | _ => s.drawer

/-- The steps of the move under way that are still to be made. -/
def Sys.toGo (s : Sys) (a : Axis) : ℤ :=
  match s.stepper with
  | .drawing _ calls _ => s.motors.engine.toCome a + totalSteps a calls
  | _ => 0

theorem Sys.goal_of_rest {s : Sys} (h : s.stepper.waits = false) : s.goal = s.drawer := by
  rw [goal]
  cases hpc : s.stepper with
  | drawing object calls after =>
      rw [hpc] at h
      cases h
  | delay | receive | sendArea | sendOK pause => rfl

theorem Sys.toGo_of_rest {s : Sys} (h : s.stepper.waits = false) (a : Axis) : s.toGo a = 0 := by
  rw [toGo]
  cases hpc : s.stepper with
  | drawing object calls after =>
      rw [hpc] at h
      cases h
  | delay | receive | sendArea | sendOK pause => rfl

/-- A draw leads to the globals `after`, now or at its end. -/
theorem Sys.goal_draw (s : Sys) (object : GObject) (calls : List Event) (after : Drawer) :
    (s.draw object calls after).goal = after ∧
      ((s.draw object calls after).drawer = s.drawer ∨
        (s.draw object calls after).drawer = after) := by
  rcases draw_cases s object calls after with ⟨rest, -, heq⟩ | ⟨-, heq⟩
  · rw [heq]
    exact ⟨rfl, .inl rfl⟩
  · rw [heq]
    exact ⟨rfl, .inr rfl⟩

/-- What a step may do to the globals of the moves: it lets a move begin, or lets the one under way
come to its end. -/
structure Sys.Goes (s : Sys) (e : Ev) (s' : Sys) : Prop where
  drawer : s'.drawer = s.drawer ∨ s'.drawer = s'.goal
  goal : s'.goal = s.goal ∨ e = .stepperReceive ∧ s.stepper = .receive ∧
    ∃ g ∈ s.commandQueue, Command.ofInt? g.command = some .G1 ∧
      s'.goal = Plotter.triggerMotors s.motors.scale g s.drawer

theorem goal_of_step {s s' : Sys} {e : Ev} (hs : step s e = some s') : s.Goes e s' := by
  have hsame : ∀ {t : Sys}, t.stepper = s.stepper → t.drawer = s.drawer → s.Goes e t := by
    intro t hstepper hdrawer
    refine ⟨.inl hdrawer, .inl ?_⟩
    rw [Sys.goal, Sys.goal, hstepper, hdrawer]
  have hrest : ∀ {t : Sys}, s.stepper.waits = false → t.stepper.waits = false →
      t.drawer = s.drawer → s.Goes e t := by
    intro t hs ht hdrawer
    refine ⟨.inl hdrawer, .inl ?_⟩
    rw [Sys.goal_of_rest hs, Sys.goal_of_rest ht, hdrawer]
  cases e with
  | hostSend _ | hostReceive | parserDelayed | parserReceive | parserSend =>
      have h := sameWork_of_transfer rfl hs
      exact hsame h.stepper_eq h.drawer_eq
  | stepperDelayed =>
      obtain ⟨hpc, rfl⟩ := Sys.stepperDelayed_cases hs
      exact hrest (by rw [hpc]; rfl) rfl rfl
  | stepperReceive =>
      obtain ⟨hpc, g, hqueue, rfl⟩ := Sys.stepperReceive_cases hs
      have hw : s.stepper.waits = false := by rw [hpc]; rfl
      cases horder : g.order? with
      | none => exact hsame rfl rfl
      | some o =>
          cases o with
          | M10 | M1 servo | G28 => exact hrest hw rfl rfl
          | G1 x y =>
              obtain ⟨hgoal, hdrawer⟩ := (s.take g).goal_draw g
                (moveEvents s.motors.scale g s.drawer) (triggerMotors s.motors.scale g s.drawer)
              refine ⟨hdrawer.imp_right fun h => h.trans hgoal.symm, .inr ⟨rfl, hpc, ?_⟩⟩
              exact ⟨g, hqueue, g.command_of_order horder, hgoal⟩
  | stepperExpire =>
      obtain ⟨hpc, -, rfl⟩ := Sys.stepperExpire_cases hs
      exact hrest (by rw [hpc]; rfl) rfl rfl
  | stepperSent =>
      obtain ⟨hpc, rfl⟩ | ⟨pause, hpc, rfl⟩ := Sys.stepperSent_cases hs
      · exact hrest (by rw [hpc]; rfl) rfl rfl
      · exact hrest (by rw [hpc]; rfl) (by cases pause <;> rfl) rfl
  | stepperWake =>
      obtain ⟨object, calls, after, hpc, -, rfl⟩ := Sys.stepperWake_cases hs
      obtain ⟨hgoal, hdrawer⟩ := Sys.goal_draw { s with motors := s.motors.wake } object calls after
      refine ⟨hdrawer.imp_right fun h => h.trans hgoal.symm, .inl ?_⟩
      rw [hgoal, Sys.goal, hpc]
  | calibrateRun rd =>
      obtain ⟨-, rfl⟩ | ⟨a, -, -, rfl⟩ := Sys.calibrateRun_cases hs
      · exact hsame rfl rfl
      · exact hsame rfl rfl
  | interrupt rd =>
      obtain ⟨-, rfl⟩ := Sys.interrupt_cases hs
      exact hsame rfl rfl

/-- What every move keeps of the globals holds of them, and when the move under way is over. -/
theorem drawers_of_step {P : Drawer → Prop}
    (hP : ∀ sc g d, P d → P (triggerMotors sc g d)) {s s' : Sys} {e : Ev}
    (hs : step s e = some s') (h : P s.drawer ∧ P s.goal) : P s'.drawer ∧ P s'.goal := by
  have hgoes := goal_of_step hs
  have hgoal : P s'.goal := by
    rcases hgoes.goal with heq | ⟨-, -, g, -, -, heq⟩
    · rw [heq]
      exact h.2
    · rw [heq]
      exact hP _ _ _ h.1
  refine ⟨?_, hgoal⟩
  rcases hgoes.drawer with heq | heq
  · rw [heq]
    exact h.1
  · rw [heq]
    exact hgoal

theorem inBand_triggerMotors (sc : Scale) (g : GObject) {d : Drawer} (h : InBand d.error) :
    InBand (triggerMotors sc g d).error := triggerAll_inBand sc [g] h

end Plotter
