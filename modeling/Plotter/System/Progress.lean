import Plotter.StepEngine.Countdown
import Plotter.System.Sharing
import Plotter.System.Turns

/-!
# No task waits for ever

Once calibration is over the stepper task has the step engine to itself. Whenever it waits for
`sbRIT` the timer runs and its interrupt is enabled, and the interrupts count down until the
handler gives `sbRIT`; so every move comes to its end.

## Main definitions

* `Sys.Calibrated`: calibration is over, and a wait of the stepper task will end.
* `Engine.toGive`: the interrupts until `sbRIT` is given.
* `StepperPc.rank`: how far the stepper task is from its next receive.
-/

namespace Plotter

open Lib

instance (s : Sys) (e : Ev) : Decidable (MovesAlone s e) :=
  inferInstanceAs (Decidable (_ → ∀ _ ∈ s.commandQueue, _ →
    (∀ a, (s.motors.axis a).calibrated = true) ∨ _))

/-! ## Waits that end -/

/-- The engine is in one of its phases, and its interrupt is enabled while the stepper task waits
for it. -/
structure Sys.Armed (s : Sys) : Prop where
  engine : s.EngineInv
  irq : s.stepper.waits = true → s.motors.engine.irq = true

namespace Sys.Armed
variable {s s' : Sys}

theorem init : Sys.init.Armed := ⟨Sys.EngineInv.init, fun hw => by cases hw⟩

/-- What a stretch of a move leaves: the engine of its next wait, or no wait. -/
theorem draw {t : Sys} {object : GObject} {calls : List Event} {after : Drawer}
    (h : (t.draw object calls after).EngineInv) : (t.draw object calls after).Armed := by
  refine ⟨h, ?_⟩
  intro hw
  rcases draw_cases t object calls after with ⟨rest, hrest, heq⟩ | ⟨-, heq⟩
  · rw [heq]
    rcases engine_drawUntilWait calls t.motors with ⟨hnone, -⟩ | ⟨-, x, y, hbegin⟩
    · rw [hnone] at hrest
      cases hrest
    · simp only [hbegin]
      rfl
  · rw [heq] at hw
    cases hw

/-- A step that brings the stepper task to no new wait. -/
theorem of_same (h : s.Armed) (hs : s'.EngineInv)
    (hw : s'.stepper.waits = true → s.stepper.waits = true)
    (hirq : s'.motors.engine.irq = s.motors.engine.irq) : s'.Armed where
  engine := hs
  irq := by
    intro hwaits
    rw [hirq]
    exact h.irq (hw hwaits)

/-- **One step** that begins no move while calibration needs the engine. -/
theorem step {e : Ev} (h : s.Armed) (hG : MovesAlone s e) (hs : step s e = some s') :
    s'.Armed := by
  have hengine := h.engine.step hG hs
  cases e with
  | hostSend _ | hostReceive | parserDelayed | parserReceive | parserSend =>
      have hsame := sameWork_of_transfer rfl hs
      exact h.of_same hengine (by rw [hsame.stepper_eq]; exact id) (by rw [hsame.motors_eq])
  | stepperDelayed =>
      obtain ⟨-, rfl⟩ := stepperDelayed_cases hs
      exact h.of_same hengine (fun hw => by cases hw) rfl
  | stepperReceive =>
      obtain ⟨hpc, g, -, rfl⟩ := stepperReceive_cases hs
      cases horder : g.order? with
      | none =>
          rw [horder] at hengine
          exact h.of_same hengine id rfl
      | some o =>
          rw [horder] at hengine
          cases o with
          | M10 | M1 servo | G28 => exact h.of_same hengine (fun hw => by cases hw) rfl
          | G1 x y => exact draw (t := s.take g) hengine
  | stepperExpire =>
      obtain ⟨-, -, rfl⟩ := stepperExpire_cases hs
      exact h.of_same hengine (fun hw => by cases hw) rfl
  | stepperSent =>
      obtain ⟨-, rfl⟩ | ⟨pause, -, rfl⟩ := stepperSent_cases hs
      · exact h.of_same hengine (fun hw => by cases hw) rfl
      · exact h.of_same hengine (fun hw => by cases pause <;> cases hw) rfl
  | stepperWake =>
      obtain ⟨object, calls, after, -, -, rfl⟩ := stepperWake_cases hs
      exact draw (t := { s with motors := s.motors.wake }) hengine
  | calibrateRun rd =>
      refine ⟨hengine, ?_⟩
      intro hw
      have hstepper : s'.stepper = s.stepper := by
        obtain ⟨-, rfl⟩ | ⟨a, -, -, rfl⟩ := calibrateRun_cases hs
        · rfl
        · rfl
      rw [hstepper] at hw
      -- a move under way means that calibration is over
      obtain ⟨hdone, -⟩ := (hw ▸ h.engine.1).of_drawing
      obtain ⟨hpc, -⟩ | ⟨a, hpc, -⟩ := calibrateRun_cases hs
      · rw [hdone] at hpc
        cases hpc
      · rw [hdone] at hpc
        cases hpc
  | interrupt rd =>
      obtain ⟨-, rfl⟩ := interrupt_cases hs
      exact h.of_same hengine id (RIT_IRQHandler_stops s.motors.flags rd s.motors.engine).2.2

end Sys.Armed

/-- Calibration is over, and a wait of the stepper task will end. -/
structure Sys.Calibrated (s : Sys) : Prop where
  armed : s.Armed
  done : s.calibrate = .done

namespace Sys.Calibrated
variable {s s' : Sys}

theorem bothCalibrated (h : s.Calibrated) : s.motors.BothCalibrated := by
  have hphase := h.armed.engine.1
  rw [h.done] at hphase
  generalize s.stepper.waits = w at hphase
  cases hphase with
  | calibrating a hpc => cases hpc
  | idle hflags => exact hflags
  | drawing hflags => exact hflags

theorem movesAlone (h : s.Calibrated) (e : Ev) : MovesAlone s e :=
  fun _ _ _ _ => .inl h.bothCalibrated

theorem calibrate_draw (s : Sys) (object : GObject) (calls : List Event) (after : Drawer) :
    (s.draw object calls after).calibrate = s.calibrate := by
  rcases draw_cases s object calls after with ⟨rest, -, heq⟩ | ⟨-, heq⟩
  · rw [heq]
  · rw [heq]

/-- A task that is deleted does not run again. -/
theorem done_of_step {e : Ev} (hs : Plotter.step s e = some s') (hdone : s.calibrate = .done) :
    s'.calibrate = .done := by
  cases e with
  | hostSend _ | hostReceive | parserDelayed | parserReceive | parserSend =>
      exact (sameWork_of_transfer rfl hs).calibrate_eq.trans hdone
  | stepperDelayed => obtain ⟨-, rfl⟩ := stepperDelayed_cases hs; exact hdone
  | stepperReceive =>
      obtain ⟨-, g, -, rfl⟩ := stepperReceive_cases hs
      cases g.order? with
      | none => exact hdone
      | some o =>
          cases o with
          | M10 | M1 servo | G28 => exact hdone
          | G1 x y => exact (calibrate_draw (s.take g) ..).trans hdone
  | stepperExpire => obtain ⟨-, -, rfl⟩ := stepperExpire_cases hs; exact hdone
  | stepperSent =>
      obtain ⟨-, rfl⟩ | ⟨pause, -, rfl⟩ := stepperSent_cases hs
      · exact hdone
      · exact hdone
  | stepperWake =>
      obtain ⟨object, calls, after, -, -, rfl⟩ := stepperWake_cases hs
      exact (calibrate_draw { s with motors := s.motors.wake } ..).trans hdone
  | calibrateRun rd =>
      obtain ⟨hpc, -⟩ | ⟨a, hpc, -⟩ := calibrateRun_cases hs
      · rw [hdone] at hpc
        cases hpc
      · rw [hdone] at hpc
        cases hpc
  | interrupt rd => obtain ⟨-, rfl⟩ := interrupt_cases hs; exact hdone

/-- **One step** after calibration. -/
theorem step {e : Ev} (h : s.Calibrated) (hs : Plotter.step s e = some s') : s'.Calibrated :=
  ⟨h.armed.step (h.movesAlone e) hs, done_of_step hs h.done⟩

end Sys.Calibrated

/-! ## The end of a wait -/

/-- The steps that are left of both axes, with one more for the interrupt that gives `sbRIT`. -/
def Engine.toGive (e : Engine) : ℕ := if e.sbRIT then 0 else e.left .x + e.left .y + 1

/-- With both axes calibrated each interrupt comes nearer to the give. -/
theorem RIT_IRQHandler_toGive {fl : Flags} (hfl : ∀ a, fl.on a = true) (rd : Readings) {e : Engine}
    (hsb : e.sbRIT = false) : (RIT_IRQHandler fl rd e).toGive < e.toGive := by
  have hleft : ∀ a, (RIT_IRQHandler fl rd e).left a ≤ e.left a - 1 := by
    intro a
    have hunheld : e.Unheld fl a := by
      intro _ hoff
      rw [hfl a.other] at hoff
      cases hoff
    exact (RIT_IRQHandler_left hunheld).1
  have hx := hleft .x
  have hy := hleft .y
  obtain ⟨-, hgives, -⟩ := RIT_IRQHandler_stops fl rd e
  rw [hsb, Bool.false_or] at hgives
  rw [Engine.toGive, Engine.toGive, hsb, hgives]
  by_cases hdone : (RIT_IRQHandler fl rd e).Done
  · simp [hdone]
  · simp only [hdone, decide_false, Bool.false_eq_true, if_false]
    -- a counter is left, so it was there before
    obtain ⟨a, ha⟩ := not_forall.mp hdone
    have hpos := hleft a
    cases a <;> omega

namespace Sys
variable {s : Sys}

/-- While the stepper task waits, the timer can interrupt until `sbRIT` is given. -/
theorem Calibrated.interrupt_or_give (h : s.Calibrated) (hw : s.stepper.waits = true) :
    s.motors.engine.sbRIT = true ∨ ∃ s', Plotter.step s (.interrupt {}) = some s' ∧
      s'.stepper = s.stepper ∧ s'.motors.engine.toGive < s.motors.engine.toGive := by
  obtain ⟨-, hflags, htaken⟩ := (hw ▸ h.armed.engine.1).of_drawing
  have hirq := h.armed.irq hw
  cases hsb : s.motors.engine.sbRIT with
  | true => exact .inl rfl
  | false =>
      right
      have htimer : s.motors.engine.timer = true := by
        rw [htaken, hsb]
        rfl
      refine ⟨{ s with motors := s.motors.interrupt {} }, ?_, rfl, ?_⟩
      · simp [Plotter.step, Sys.interrupt, htimer, hirq]
      · apply RIT_IRQHandler_toGive _ _ hsb
        intro a
        rw [Motors.flags_on]
        exact hflags a

end Sys

/-! ## The way to the next receive -/

/-- How far the stepper task is from its next receive: the waits of its move, the replies and the
pause behind them. -/
def StepperPc.rank : StepperPc → ℕ
  | .receive => 0
  | .delay => 1
  | .sendOK _ => 2
  | .sendArea => 3
  | .drawing _ calls _ => 3 + calls.length

theorem length_drawUntilWait {calls rest : List Event} {m : Motors}
    (h : (drawUntilWait calls m).2 = some rest) : rest.length < calls.length := by
  induction calls generalizing m with
  | nil => cases h
  | cons call calls ih =>
      cases call with
      | setDirection a d =>
          rw [drawUntilWait] at h
          exact (ih h).trans (Nat.lt_succ_self _)
      | ritStart x y =>
          rw [drawUntilWait] at h
          obtain rfl := Option.some_inj.mp h
          exact Nat.lt_succ_self _

/-- A move that goes on has fewer waits ahead, or it is over. -/
theorem Sys.rank_draw (s : Sys) (object : GObject) (calls : List Event) (after : Drawer) :
    (s.draw object calls after).stepper.rank < 3 + calls.length := by
  rcases draw_cases s object calls after with ⟨rest, hrest, heq⟩ | ⟨-, heq⟩
  · rw [heq]
    exact Nat.add_lt_add_left (length_drawUntilWait hrest) 3
  · rw [heq, StepperPc.rank]
    omega

/-- The end of a reply brings the stepper task nearer. -/
theorem Sys.exists_sent {s : Sys} {r : Reply} (hr : s.stepper.reply? = some r) :
    ∃ s', Plotter.step s .stepperSent = some s' ∧ s'.stepper.rank < s.stepper.rank := by
  cases hpc : s.stepper with
  | delay | receive | drawing object calls after =>
      rw [hpc] at hr
      cases hr
  | sendArea =>
      refine ⟨_, by simp only [Plotter.step, stepperSent, hpc]; rfl, ?_⟩
      simp only [acknowledge, StepperPc.rank]
      omega
  | sendOK pause =>
      refine ⟨_, by simp only [Plotter.step, stepperSent, hpc]; rfl, ?_⟩
      cases pause <;> simp [StepperPc.rank]

end Plotter
