import Plotter.StepEngine.Countdown

/-!
# One full step at a time

The tasks never ask `RIT_start` for more than one full step of one axis. The counter of that axis
starts at two; the first interrupt drives its pin low, the second one drives it high. So the pin
gets one pulse whatever its level was, as long as `stepTurn` is set when the wait begins, and
`stepTurn` is set again when it ends.

## Main definitions

* `Engine.Stepping`: the engine in a wait for one full step of an axis, or after it.
* `Engine.toCome`: the pulses that the wait has still to give.
* `Engine.Stepping.interrupt`: an interrupt gives what it takes.
-/

namespace Plotter

namespace Engine

/-- Nothing but a full step of axis `a` is left to do. -/
structure Stepping (e : Engine) (a : Axis) : Prop where
  other : e.left a.other = 0
  le_two : e.left a ≤ 2
  turn : e.stepTurn = decide (e.left a ≠ 1)
  low : e.left a = 1 → (e.stepPin a).level = false
  rest : e.timer = false → e.left a = 0

/-- The pulses still to come on the step pin of an axis. -/
def toCome (e : Engine) (a : Axis) : ℕ := if e.left a = 0 then 0 else 1

theorem left_stopIfDone (e : Engine) (a : Axis) : e.stopIfDone.left a = e.left a := by
  rw [left, steps_stopIfDone, left]

@[simp] theorem stepPin_stopIfDone (e : Engine) (a : Axis) :
    e.stopIfDone.stepPin a = e.stepPin a := by
  rw [stopIfDone_eq]
  cases a <;> rfl

@[simp] theorem stepTurn_stopIfDone (e : Engine) : e.stopIfDone.stepTurn = e.stepTurn := by
  rw [stopIfDone_eq]

theorem rest_stopIfDone {e : Engine} {a : Axis} (h : e.timer = false → e.left a = 0)
    (hoff : e.stopIfDone.timer = false) : e.left a = 0 := by
  rw [stopIfDone_eq] at hoff
  by_cases hdone : e.Done
  · exact hdone a
  · apply h
    simpa [hdone] using hoff

/-- A counter that is zero stays so. -/
theorem countDown_of_zero {e : Engine} {a : Axis} (h : e.left a = 0) (limited : Bool) :
    e.countDown a limited = e := by
  rw [countDown, (e.left_eq_zero a).mp h]
  simp

/-- The toggle of a counter that is positive and not limited. -/
theorem countDown_of_pos {e : Engine} {a : Axis} (h : e.left a ≠ 0) :
    e.countDown a false = (e.setSteps a (e.steps a - 1)).drive a := by
  have hpos : e.steps a > 0 := (BitVec.pos_iff_ne_zero _).mpr (mt (e.left_eq_zero a).mpr h)
  rw [countDown, if_pos hpos]
  simp

section Toggle
variable (e : Engine) (a : Axis) (n : BitVec 32)

theorem left_setSteps_drive : ((e.setSteps a n).drive a).left a = n.toNat := by cases a <;> rfl

theorem left_setSteps_drive_other :
    ((e.setSteps a n).drive a).left a.other = e.left a.other := by cases a <;> rfl

theorem stepTurn_setSteps : (e.setSteps a n).stepTurn = e.stepTurn := by cases a <;> rfl

theorem timer_setSteps_drive : ((e.setSteps a n).drive a).timer = e.timer := by cases a <;> rfl

theorem stepPin_setSteps (b : Axis) : (e.setSteps a n).stepPin b = e.stepPin b := by
  cases a <;> cases b <;> rfl

end Toggle

end Engine

/-! ## One interrupt -/

/-- An engine with steps to make on one axis only: the handler counts that axis down. -/
theorem RIT_IRQHandler_alone {fl : Flags} {e : Engine} {a : Axis} (hother : e.left a.other = 0)
    (hunheld : e.Unheld fl a) (rd : Readings) :
    RIT_IRQHandler fl rd e = (e.countDown a (fl.on a && rd.active a)).stopIfDone := by
  have hheld : fl.on a = true → fl.on a.other = false → ∀ limited, e.countDown a limited = e :=
    fun hon hoff => Engine.countDown_of_zero (hunheld hon hoff)
  have hne : a ≠ a.other := by cases a <;> decide
  have hidle : ∀ e' : Engine, e'.left a.other = 0 → ∀ limited, e'.countDown a.other limited = e' :=
    fun e' h => Engine.countDown_of_zero h
  have hzero : ∀ limited, (e.countDown a limited).left a.other = 0 := by
    intro limited
    rw [Engine.left, Engine.steps_countDown_of_ne _ _ hne]
    exact hother
  rw [RIT_IRQHandler_eq]
  cases a with
  | x =>
      rcases fl with ⟨_ | _, _ | _⟩
      · exact congrArg Engine.stopIfDone (hidle _ (hzero false) false)
      · rfl
      · exact congrArg Engine.stopIfDone ((hidle e hother false).trans (hheld rfl rfl _).symm)
      · exact congrArg Engine.stopIfDone (hidle _ (hzero (rd.active .x)) (rd.active .y))
  | y =>
      have hx := hidle e hother
      rcases fl with ⟨_ | _, _ | _⟩
      · exact congrArg (fun e' => (e'.countDown .y false).stopIfDone) (hx false)
      · exact congrArg Engine.stopIfDone ((hx false).trans (hheld rfl rfl _).symm)
      · rfl
      · exact congrArg (fun e' => (e'.countDown .y (rd.active .y)).stopIfDone) (hx (rd.active .x))

/-- No pulse is added to those to come. -/
theorem RIT_IRQHandler_toCome_le {fl : Flags} {e : Engine} {a : Axis} (hunheld : e.Unheld fl a)
    (rd : Readings) : (RIT_IRQHandler fl rd e).toCome a ≤ e.toCome a := by
  have hle : (RIT_IRQHandler fl rd e).left a ≤ e.left a - 1 := (RIT_IRQHandler_left hunheld).1
  rw [Engine.toCome, Engine.toCome]
  split_ifs <;> omega

namespace Engine.Stepping
variable {fl : Flags} {rd : Readings} {e : Engine} {a : Axis}

/-- With the timer off the next step may begin. -/
theorem turn_of_stopped (h : e.Stepping a) (hoff : e.timer = false) : e.stepTurn = true := by
  rw [h.turn, h.rest hoff]
  rfl

/-- The begin of a wait for one full step. -/
theorem of_begin (e : Engine) (a : Axis) (hturn : e.stepTurn = true) :
    (RIT_begin a.counts.1 a.counts.2 e).Stepping a := by
  have hleft : ∀ b, (RIT_begin a.counts.1 a.counts.2 e).left b = if b = a then 2 else 0 := by
    intro b
    cases a <;> cases b <;> rfl
  have htimer : (RIT_begin a.counts.1 a.counts.2 e).timer = true := rfl
  have hsame : (RIT_begin a.counts.1 a.counts.2 e).stepTurn = e.stepTurn := rfl
  refine ⟨?_, ?_, ?_, ?_, ?_⟩
  · rw [hleft, if_neg (by cases a <;> decide)]
  · rw [hleft, if_pos rfl]
  · rw [hsame, hturn, hleft, if_pos rfl]
    rfl
  · rw [hleft, if_pos rfl]
    intro hone
    omega
  · rw [htimer]
    intro hoff
    cases hoff

/-- **One interrupt** at which no switch is in the way: the pulses that are still to come become
fewer by those that the step pins get. -/
theorem interrupt (h : e.Stepping a) (hunheld : e.Unheld fl a)
    (hclear : e.left a ≠ 0 → (fl.on a && rd.active a) = false) :
    (RIT_IRQHandler fl rd e).Stepping a ∧ ∀ b,
      ((RIT_IRQHandler fl rd e).stepPin b).rises + (RIT_IRQHandler fl rd e).toCome b =
        (e.stepPin b).rises + e.toCome b := by
  have halone := RIT_IRQHandler_alone h.other hunheld rd
  by_cases hzero : e.left a = 0
  · -- nothing is left to count
    rw [Engine.countDown_of_zero hzero] at halone
    rw [halone]
    refine ⟨⟨?_, ?_, ?_, ?_, ?_⟩, ?_⟩
    · rw [left_stopIfDone]
      exact h.other
    · rw [left_stopIfDone]
      exact h.le_two
    · rw [left_stopIfDone, stepTurn_stopIfDone]
      exact h.turn
    · rw [left_stopIfDone, stepPin_stopIfDone]
      exact h.low
    · intro _
      rw [left_stopIfDone]
      exact hzero
    · intro b
      simp [Engine.toCome, left_stopIfDone]
  · rw [hclear hzero, Engine.countDown_of_pos hzero] at halone
    have hone : (e.steps a - 1).toNat = e.left a - 1 := by
      have hle : (1 : BitVec 32) ≤ e.steps a := by
        rw [BitVec.le_def]
        exact Nat.one_le_iff_ne_zero.mpr hzero
      rw [BitVec.toNat_sub_of_le hle]
      rfl
    have hleft : (RIT_IRQHandler fl rd e).left a = e.left a - 1 := by
      rw [halone, left_stopIfDone, Engine.left_setSteps_drive, hone]
    have hturn : (RIT_IRQHandler fl rd e).stepTurn = !e.stepTurn := by
      rw [halone, stepTurn_stopIfDone, Engine.stepTurn_drive, Engine.stepTurn_setSteps]
    have hpin : (RIT_IRQHandler fl rd e).stepPin a = (e.stepPin a).write (!e.stepTurn) := by
      rw [halone, stepPin_stopIfDone, Engine.stepPin_drive, Engine.stepTurn_setSteps,
        Engine.stepPin_setSteps]
    have hother : (RIT_IRQHandler fl rd e).left a.other = 0 := by
      rw [halone, left_stopIfDone, Engine.left_setSteps_drive_other, h.other]
    have hle := h.le_two
    refine ⟨⟨hother, by omega, ?_, ?_, ?_⟩, ?_⟩
    · rw [hturn, hleft, h.turn]
      rcases (by omega : e.left a = 1 ∨ e.left a = 2) with hone | htwo
      · rw [hone]
        rfl
      · rw [htwo]
        rfl
    · intro hlast
      have htwo : e.left a = 2 := by omega
      rw [hpin, OutputPin.level_write, h.turn, htwo]
      rfl
    · rw [halone, left_stopIfDone]
      refine rest_stopIfDone ?_
      intro hoff
      rw [Engine.timer_setSteps_drive] at hoff
      exact absurd (h.rest hoff) hzero
    · intro b
      by_cases hb : b = a
      · subst hb
        rw [hpin, OutputPin.rises_write, h.turn, Engine.toCome, Engine.toCome, hleft]
        -- the first interrupt drives the pin low, the second one high
        rcases (by omega : e.left b = 1 ∨ e.left b = 2) with hone | htwo
        · rw [h.low hone, hone]
          simp [Nat.add_comm]
        · rw [htwo]
          simp
      · have hb' : b = a.other := by cases a <;> cases b <;> first | rfl | exact absurd rfl hb
        subst hb'
        have hsame : (RIT_IRQHandler fl rd e).stepPin a.other = e.stepPin a.other := by
          rw [halone, stepPin_stopIfDone, Engine.stepPin_drive_other, Engine.stepPin_setSteps]
        rw [hsame, Engine.toCome, Engine.toCome, hother, h.other]

end Engine.Stepping

end Plotter
