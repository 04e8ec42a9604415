import Plotter.StepEngine

/-!
# One pulse for every step

The two axes share the toggle `stepTurn`. A call whose step is cut by a limit switch
between its two interrupts toggles once and leaves `stepTurn` flipped for both axes.
From then on a full step drives its pin high first and low second: a pin that was left
low still gives one pulse, a pin that was left high gives none.

`Phase` tracks this from the outcomes of the calls alone, and the engine refines it.

## Main definitions

* `StepCall`: a call for one full step, with the switch readings at its interrupts.
* `Phase`: flipped or not, and the level each pin was left at.
* `everyStep_pulses_iff`: in which runs every undisturbed call gives one pulse.
-/

namespace Plotter

/-- A call of `RIT_start(2, 0)` or `RIT_start(0, 2)`, with the readings at its
interrupts. -/
structure StepCall where
  axis : Axis
  rd : ℕ → Readings

namespace StepCall

/-- Neither switch of the axis is read active during the call. -/
def NoLimit (c : StepCall) : Prop := (c.rd 0).active c.axis = false ∧ (c.rd 1).active c.axis = false

/-- A switch is read active at the second interrupt and not at the first. -/
def Cut (c : StepCall) : Prop := (c.rd 0).active c.axis = false ∧ (c.rd 1).active c.axis = true

instance (c : StepCall) : Decidable c.NoLimit := inferInstanceAs (Decidable (_ ∧ _))

instance (c : StepCall) : Decidable c.Cut := inferInstanceAs (Decidable (_ ∧ _))

end StepCall

/-- The engine after the calls, issued one after another. -/
def stepAll (calls : List StepCall) (e : Engine) : Engine :=
  calls.foldl (fun e c => fullStep c.axis c.rd e) e

/-- The engine before the calls: idle, `stepTurn` true, the pins at any level. -/
def Engine.fresh (xLevel yLevel : Bool) : Engine :=
  { xStep := { level := xLevel }, yStep := { level := yLevel } }

/-- The call gives one low-to-high transition on its own pin and none on the other. -/
def OnePulse (c : StepCall) (e : Engine) : Prop :=
  ((fullStep c.axis c.rd e).stepPin c.axis).rises = (e.stepPin c.axis).rises + 1 ∧
  ((fullStep c.axis c.rd e).stepPin c.axis.other).rises = (e.stepPin c.axis.other).rises

/-- Every call that meets no active switch gives its pulse. -/
def EveryStepPulses (xLevel yLevel : Bool) (calls : List StepCall) : Prop :=
  ∀ before c after, calls = before ++ c :: after → c.NoLimit →
    OnePulse c (stepAll before (Engine.fresh xLevel yLevel))

/-! ## The phase of the shared toggle -/

/-- What the calls so far have left behind. -/
structure Phase where
  /-- An odd number of calls was cut. -/
  flipped : Bool := false
  xHigh : Bool
  yHigh : Bool
  deriving DecidableEq, Repr

namespace Phase

/-- The level the pin of an axis was left at. -/
def high (p : Phase) : Axis → Bool
  | .x => p.xHigh
  | .y => p.yHigh

def setHigh (p : Phase) (v : Bool) : Axis → Phase
  | .x => { p with xHigh := v }
  | .y => { p with yHigh := v }

/-- A call that is cut leaves its pin at the new value of the toggle; a call that meets
no switch leaves it at the old one. -/
def after (p : Phase) (c : StepCall) : Phase :=
  if c.Cut then { p.setHigh p.flipped c.axis with flipped := !p.flipped }
  else if c.NoLimit then p.setHigh (!p.flipped) c.axis
  else p

/-- The phase after a list of calls. -/
def afterAll (p : Phase) (calls : List StepCall) : Phase := calls.foldl after p

/-- A pulse is lost when the toggle is flipped and the pin of the axis is high. -/
def Loses (p : Phase) (a : Axis) : Prop := p.flipped = true ∧ p.high a = true

end Phase

/-- No undisturbed call comes at a moment that loses its pulse. -/
def NoPulseLost (xLevel yLevel : Bool) (calls : List StepCall) : Prop :=
  ∀ before c after, calls = before ++ c :: after → c.NoLimit →
    ¬ (Phase.afterAll { xHigh := xLevel, yHigh := yLevel } before).Loses c.axis

/-- The phase of an engine. -/
def Engine.phase (e : Engine) : Phase :=
  { flipped := !e.stepTurn, xHigh := e.xStep.level, yHigh := e.yStep.level }

/-- **The engine refines the phase**: a call changes them alike. -/
theorem phase_fullStep (c : StepCall) {e : Engine} (he : e.Idle) :
    (fullStep c.axis c.rd e).phase = e.phase.after c := by
  rw [fullStep_cases c.axis c.rd he]
  by_cases h0 : (c.rd 0).active c.axis
  · simp [h0, Phase.after, StepCall.Cut, StepCall.NoLimit]
  · by_cases h1 : (c.rd 1).active c.axis
    · cases ha : c.axis <;> simp_all [Phase.after, StepCall.Cut, Engine.phase, Engine.drive,
        Engine.driveX, Engine.driveY, Phase.setHigh]
    · cases ha : c.axis <;> simp_all [Phase.after, StepCall.Cut, StepCall.NoLimit, Engine.phase,
        Engine.drive, Engine.driveX, Engine.driveY, Phase.setHigh]

theorem idle_stepAll (calls : List StepCall) {e : Engine} (he : e.Idle) : (stepAll calls e).Idle := by
  induction calls generalizing e with
  | nil => exact he
  | cons c calls ih => exact ih (he.fullStep c.axis c.rd)

theorem phase_stepAll (calls : List StepCall) {e : Engine} (he : e.Idle) :
    (stepAll calls e).phase = e.phase.afterAll calls := by
  induction calls generalizing e with
  | nil => rfl
  | cons c calls ih =>
      have h := ih (he.fullStep c.axis c.rd)
      rw [phase_fullStep c he] at h
      exact h

theorem idle_fresh (xLevel yLevel : Bool) : (Engine.fresh xLevel yLevel).Idle :=
  ⟨rfl, rfl, rfl, rfl, rfl⟩

/-- An undisturbed call drives its pin to the flipped toggle and back: one rise, unless
it starts high and goes high first. -/
theorem onePulse_iff {c : StepCall} (hc : c.NoLimit) {e : Engine} (he : e.Idle) :
    OnePulse c e ↔ ¬ e.phase.Loses c.axis := by
  rw [OnePulse, fullStep_cases c.axis c.rd he, hc.1, hc.2]
  simp only [Bool.false_eq_true, if_false, Engine.stepPin_drive, Engine.stepPin_drive_other,
    Engine.stepTurn_drive, OutputPin.rises_write, OutputPin.level_write]
  cases ha : c.axis <;> cases hturn : e.stepTurn <;> cases hx : e.xStep.level <;>
    cases hy : e.yStep.level <;>
    simp [Phase.Loses, Phase.high, Engine.phase, Engine.stepPin, hturn, hx, hy, add_comm]

/-- **Pulses.** In a run of calls every undisturbed one gives exactly one pulse, and none
on the other pin, if and only if none of them is made while the toggle is flipped and
the pin of its axis is high. -/
theorem everyStep_pulses_iff (xLevel yLevel : Bool) (calls : List StepCall) :
    EveryStepPulses xLevel yLevel calls ↔ NoPulseLost xLevel yLevel calls := by
  have hidle := idle_fresh xLevel yLevel
  have hcall : ∀ before c, c.NoLimit →
      (OnePulse c (stepAll before (Engine.fresh xLevel yLevel)) ↔
        ¬ (Phase.afterAll { xHigh := xLevel, yHigh := yLevel } before).Loses c.axis) := by
    intro before c hc
    rw [onePulse_iff hc (idle_stepAll before hidle), phase_stepAll before hidle]
    rfl
  constructor
  · intro h before c after hsplit hc
    exact (hcall before c hc).mp (h before c after hsplit hc)
  · intro h before c after hsplit hc
    exact (hcall before c hc).mpr (h before c after hsplit hc)

/-- A limit switch of the X axis becomes active between the two interrupts of a step;
the Y step after it goes without a pulse, since the Y pin was left high. -/
def cutThenY : List StepCall :=
  [{ axis := .x, rd := fun i => if i = 0 then {} else { xStart := true } },
   { axis := .y, rd := fun _ => {} }]

theorem cutThenY_loses : ¬ ∀ (xLevel yLevel : Bool) (calls : List StepCall),
    EveryStepPulses xLevel yLevel calls := by
  intro h
  have hpulse := h false true cutThenY [cutThenY[0]] cutThenY[1] [] rfl (by decide)
  revert hpulse
  unfold OnePulse
  decide

end Plotter
