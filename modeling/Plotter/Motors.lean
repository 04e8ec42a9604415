import Plotter.Calibrate
import Plotter.Carriage
import Plotter.StepEngine

/-!
# The motors as the tasks share them

`vCalibrate` and `vStepperTask` move the same two motors through the same step engine.
Here both are cut at the calls of `RIT_start`, in which they wait: a task runs from one
wait to the next without giving way, and what it does in between is a function on the
`Motors`.

## Main definitions

* `Motors`: the globals of both axes and the step engine.
* `drawUntilWait`: the calls of a move up to the next wait.
* `CalibratePc`, `calibrateResume`: `vCalibrate` from one wait to the next.
* `Motors.Wedged`: the timer runs and nothing counts down.
-/

namespace Plotter

open Lib

/-- The globals of the two axes, and the step engine. -/
structure Motors where
  x : AxisState := {}
  y : AxisState := {}
  engine : Engine := {}
  deriving DecidableEq, Repr

namespace Motors

def axis (m : Motors) : Axis → AxisState
  | .x => m.x
  | .y => m.y

def setAxis (m : Motors) (a : Axis) (s : AxisState) : Motors :=
  match a with
  | .x => { m with x := s }
  | .y => { m with y := s }

/-- `xCalibrated` and `yCalibrated`. -/
def flags (m : Motors) : Flags := ⟨m.x.calibrated, m.y.calibrated⟩

/-- `scaledX` and `scaledY`. -/
def scale (m : Motors) : Scale := ⟨m.x.scaled, m.y.scaled⟩

/-- `xMotor->setDirection(d)` or `yMotor->setDirection(d)`. -/
def setDirection (m : Motors) (a : Axis) (d : Bool) : Motors :=
  m.setAxis a { m.axis a with dir := d }

/-- `RIT_start` up to its wait. -/
def start (m : Motors) (xCount yCount : ℤ) : Motors :=
  { m with engine := RIT_begin xCount yCount m.engine }

/-- `RIT_start` after its wait. -/
def wake (m : Motors) : Motors := { m with engine := RIT_wake m.engine }

/-- One expiry of the timer. -/
def interrupt (rd : Readings) (m : Motors) : Motors :=
  { m with engine := RIT_IRQHandler m.flags rd m.engine }

end Motors

/-! ## A move -/

/-- The calls of a move up to the next `RIT_start`, and the calls that follow it; `none`
when the move is over. -/
def drawUntilWait : List Event → Motors → Motors × Option (List Event)
  | [], m => (m, none)
  | .setDirection a d :: calls, m => drawUntilWait calls (m.setDirection a d)
  | .ritStart xCount yCount :: calls, m => (m.start xCount yCount, some calls)

/-! ## Calibration -/

/-- Where `vCalibrate` waits. -/
inductive CalibratePc
  /-- It has not run yet. -/
  | ready
  /-- In the `RIT_start` of the loop body, for one step of an axis. -/
  | step (a : Axis)
  /-- In the `RIT_start` of round `i` of the back-off loop of an axis. -/
  | backOff (a : Axis) (i : ℕ)
  /-- The task is deleted. -/
  | done
  deriving DecidableEq, Repr

/-- The axis that `vCalibrate` waits for. -/
def CalibratePc.waitsFor : CalibratePc → Option Axis
  | .ready => none
  | .step a => some a
  | .backOff a _ => some a
  | .done => none

/-- The area constant by which `vCalibrate` divides the count of an axis. -/
def Axis.divisor : Axis → ℤ
  | .x => areaYmm
  | .y => areaXmm

/-- Whether a switch of an axis reads active. -/
def Readings.limitStart (rd : Readings) : Axis → Bool
  | .x => rd.xStart
  | .y => rd.yStart

def Readings.limitEnd (rd : Readings) : Axis → Bool
  | .x => rd.xEnd
  | .y => rd.yEnd

/-- `StepsTaken++; RIT_start(..)` at the start of the part of an axis. -/
def calibrateStep (a : Axis) (m : Motors) : Motors × CalibratePc :=
  let m := m.setAxis a (m.axis a).count
  (m.start a.counts.1 a.counts.2, .step a)

/-- From the test `if (!Calibrated)` of axis `a` to the next wait. After the part of the
X axis comes that of the Y axis, after that the loop condition and the X axis again. -/
def calibrateFrom (a : Axis) (m : Motors) : Motors × CalibratePc :=
  if !(m.axis a).calibrated then calibrateStep a m
  else if !(m.axis a.other).calibrated then calibrateStep a.other m
  else (m, .done)

/-- From the test of round `i` of the back-off loop to the next wait. -/
def calibrateBackOff (a : Axis) (i : ℕ) (m : Motors) : Motors × CalibratePc :=
  if AxisState.BackingOff i (m.axis a) then
    let m := m.setDirection a true
    (m.start a.counts.1 a.counts.2, .backOff a i)
  else
    let m := m.setAxis a ((m.axis a).finish a.divisor)
    calibrateFrom a.other m

/-- `vCalibrate` from one wait to the next; `rd` is what the switches read. -/
def calibrateResume (rd : Readings) : CalibratePc → Motors → Motors × CalibratePc
  | .ready, m =>
    let m := m.setDirection .x true
    let m := m.setDirection .y true
    calibrateFrom .x m
  | .step a, m =>
    if rd.limitStart a then calibrateFrom a.other (m.setAxis a (m.axis a).turnRound)
    else if rd.limitEnd a then calibrateBackOff a 0 m
    else calibrateFrom a.other m
  | .backOff a i, m => calibrateBackOff a (i + 1) m
  | .done, m => (m, .done)

/-! ## What moves and calibration leave alone -/

namespace Motors

@[simp] theorem axis_setAxis_self (m : Motors) (a : Axis) (s : AxisState) :
    (m.setAxis a s).axis a = s := by cases a <;> rfl

theorem axis_setAxis_of_ne (m : Motors) {a b : Axis} (h : a ≠ b) (s : AxisState) :
    (m.setAxis a s).axis b = m.axis b := by
  cases a <;> cases b <;> first | exact absurd rfl h | rfl

@[simp] theorem engine_setAxis (m : Motors) (a : Axis) (s : AxisState) :
    (m.setAxis a s).engine = m.engine := by cases a <;> rfl

@[simp] theorem engine_setDirection (m : Motors) (a : Axis) (d : Bool) :
    (m.setDirection a d).engine = m.engine := m.engine_setAxis a _

/-- A call of `setDirection` changes the directions and nothing else. -/
theorem axis_setDirection (m : Motors) (a b : Axis) (d : Bool) :
    ∃ d', (m.setDirection a d).axis b = { m.axis b with dir := d' } := by
  cases a <;> cases b
  exacts [⟨d, rfl⟩, ⟨m.y.dir, rfl⟩, ⟨m.x.dir, rfl⟩, ⟨d, rfl⟩]

@[simp] theorem axis_start (m : Motors) (x y : ℤ) (a : Axis) : (m.start x y).axis a = m.axis a := by
  cases a <;> rfl

@[simp] theorem axis_wake (m : Motors) (a : Axis) : m.wake.axis a = m.axis a := by
  cases a <;> rfl

@[simp] theorem axis_interrupt (m : Motors) (rd : Readings) (a : Axis) :
    (m.interrupt rd).axis a = m.axis a := by cases a <;> rfl

theorem flags_on (m : Motors) (a : Axis) : m.flags.on a = (m.axis a).calibrated := by
  cases a <;> rfl

/-- Both flags are set. -/
def BothCalibrated (m : Motors) : Prop := ∀ a, (m.axis a).calibrated = true

/-- The timer runs, and some counter is positive that no interrupt counts down. -/
def Wedged (m : Motors) : Prop :=
  m.engine.timer = true ∧ ∃ a, 0 < m.engine.steps a ∧
    ∀ rd, (m.interrupt rd).engine.steps a = m.engine.steps a

/-- A counter is stuck when its axis is calibrated and the other one is not. -/
theorem wedged_iff (m : Motors) : m.Wedged ↔ m.engine.timer = true ∧
    ∃ a, 0 < m.engine.steps a ∧ (m.axis a).calibrated = true ∧
      (m.axis a.other).calibrated = false := by
  unfold Wedged
  refine and_congr_right fun _ => exists_congr fun a => and_congr_right fun hpos => ?_
  have hne : m.engine.steps a ≠ 0 := (BitVec.pos_iff_ne_zero _).mp hpos
  simp only [interrupt, RIT_IRQHandler_steps, flags_on]
  constructor
  · -- with inactive switches a counter that is not stuck goes down by one
    intro h
    by_contra hstuck
    have hdown := h {}
    have hactive : Readings.active {} a = false := by cases a <;> rfl
    rw [if_neg (by simpa using hstuck), if_neg hne, hactive, Bool.and_false] at hdown
    simp at hdown
  · rintro ⟨hon, hother⟩ rd
    rw [hon, hother]
    rfl

end Motors

/-- A move up to its wait changes the directions, and starts the engine or leaves it
alone. -/
theorem axis_drawUntilWait (calls : List Event) (m : Motors) (a : Axis) :
    ∃ d, (drawUntilWait calls m).1.axis a = { m.axis a with dir := d } := by
  induction calls generalizing m with
  | nil => exact ⟨_, rfl⟩
  | cons ev calls ih =>
      cases ev with
      | setDirection b d =>
          obtain ⟨d₁, h₁⟩ := ih (m.setDirection b d)
          obtain ⟨d₂, h₂⟩ := m.axis_setDirection b a d
          exact ⟨d₁, by rw [drawUntilWait, h₁, h₂]⟩
      | ritStart x y => exact ⟨_, by rw [drawUntilWait, Motors.axis_start]⟩

theorem engine_drawUntilWait (calls : List Event) (m : Motors) :
    ((drawUntilWait calls m).2 = none ∧ (drawUntilWait calls m).1.engine = m.engine) ∨
      ((drawUntilWait calls m).2.isSome ∧
        ∃ x y, (drawUntilWait calls m).1.engine = RIT_begin x y m.engine) := by
  induction calls generalizing m with
  | nil => exact .inl ⟨rfl, rfl⟩
  | cons ev calls ih =>
      cases ev with
      | setDirection b d => simpa [drawUntilWait] using ih (m.setDirection b d)
      | ritStart x y => exact .inr ⟨rfl, x, y, rfl⟩

/-- A move makes no round if and only if the pen is to stay where it is. -/
theorem rounds_eq_zero_iff (sc : Scale) (object : GObject) (s : Drawer) :
    (movePlan sc object s).rounds = 0 ↔ ∀ a, displacement a sc object s = 0 := by
  have hrounds : (movePlan sc object s).rounds =
      ⌈max (travel .x sc object s) (travel .y sc object s)⌉₊ := rounds_plan _ _
  have hzero : ∀ a, travel a sc object s ≤ 0 ↔ displacement a sc object s = 0 := by
    intro a
    exact abs_nonpos_iff
  rw [hrounds, Nat.ceil_eq_zero, max_le_iff, hzero, hzero]
  constructor
  · intro h a
    cases a with
    | x => exact h.1
    | y => exact h.2
  · intro h
    exact ⟨h .x, h .y⟩

/-- A move waits for the engine unless the pen is to stay where it is. -/
theorem drawUntilWait_moveEvents (sc : Scale) (object : GObject) (s : Drawer) (m : Motors) :
    (drawUntilWait (moveEvents sc object s) m).2 = none ↔
      ∀ a, displacement a sc object s = 0 := by
  rw [← rounds_eq_zero_iff, moveEvents, drawUntilWait, drawUntilWait, moveTicks]
  cases (movePlan sc object s).rounds with
  | zero => simp [Plan.strokes, strokes, drawUntilWait]
  | succ n =>
      rw [dda_succ, Plan.strokes]
      cases (movePlan sc object s).xLeads <;>
        cases (ddaTick (movePlan sc object s).slope s.error).1 <;>
        simp [strokes_cons, drawUntilWait]

/-- How a stretch of `vCalibrate` ends, from the engine it finds: in the wait for a step
of an axis that is not calibrated, or for good, with both flags set. -/
inductive Settles (e : Engine) : Motors × CalibratePc → Prop
  | waits {m : Motors} {pc : CalibratePc} (a : Axis) (hpc : pc.waitsFor = some a)
      (hflag : (m.axis a).calibrated = false)
      (hengine : m.engine = RIT_begin a.counts.1 a.counts.2 e) : Settles e (m, pc)
  | ends {m : Motors} (hflags : m.BothCalibrated) (hengine : m.engine = e) : Settles e (m, .done)

theorem calibrateStep_settles {a : Axis} {m : Motors} (h : (m.axis a).calibrated = false) :
    Settles m.engine (calibrateStep a m) := by
  refine .waits a rfl ?_ ?_
  · simpa [AxisState.count] using h
  · simp [Motors.start]

theorem calibrateFrom_settles (a : Axis) (m : Motors) : Settles m.engine (calibrateFrom a m) := by
  unfold calibrateFrom
  cases h : (m.axis a).calibrated with
  | false => exact calibrateStep_settles h
  | true =>
      cases hother : (m.axis a.other).calibrated with
      | false => exact calibrateStep_settles hother
      | true => exact .ends (by cases a <;> rintro (_ | _) <;> assumption) rfl

theorem calibrateBackOff_settles {a : Axis} (i : ℕ) {m : Motors}
    (h : (m.axis a).calibrated = false) : Settles m.engine (calibrateBackOff a i m) := by
  unfold calibrateBackOff
  split_ifs
  · obtain ⟨d, hd⟩ := m.axis_setDirection a a true
    refine .waits a rfl ?_ ?_
    · simpa [hd] using h
    · simp [Motors.start]
  · simpa using calibrateFrom_settles a.other (m.setAxis a ((m.axis a).finish a.divisor))

/-- **The waits of `vCalibrate`**: it waits for an axis only while that axis is not
calibrated. -/
theorem calibrateResume_settles (rd : Readings) {pc : CalibratePc} {m : Motors}
    (h : pc = .ready ∨ ∃ a, pc.waitsFor = some a ∧ (m.axis a).calibrated = false) :
    Settles m.engine (calibrateResume rd pc m) := by
  cases pc with
  | ready =>
      simpa [calibrateResume] using
        calibrateFrom_settles .x ((m.setDirection .x true).setDirection .y true)
  | step a =>
      obtain ⟨b, hb, hflag⟩ := h.resolve_left (by simp)
      obtain rfl : a = b := Option.some_inj.mp hb
      rw [calibrateResume]
      split_ifs
      · simpa using calibrateFrom_settles a.other (m.setAxis a (m.axis a).turnRound)
      · exact calibrateBackOff_settles 0 hflag
      · exact calibrateFrom_settles a.other m
  | backOff a i =>
      obtain ⟨b, hb, hflag⟩ := h.resolve_left (by simp)
      obtain rfl : a = b := Option.some_inj.mp hb
      exact calibrateBackOff_settles (i + 1) hflag
  | done => simp [CalibratePc.waitsFor] at h

/-- The scale of an axis is zero until it is calibrated. -/
def Motors.Unscaled (m : Motors) : Prop :=
  ∀ a, (m.axis a).calibrated = false → (m.axis a).scaled = 0

namespace Motors.Unscaled
variable {m : Motors}

theorem setAxis (h : m.Unscaled) {a : Axis} {s : AxisState}
    (hs : s.calibrated = false → s.scaled = 0) : (m.setAxis a s).Unscaled := by
  intro b
  by_cases hab : a = b
  · subst hab
    rwa [axis_setAxis_self]
  · rw [axis_setAxis_of_ne m hab]
    exact h b

theorem setDirection (h : m.Unscaled) (a : Axis) (d : Bool) : (m.setDirection a d).Unscaled :=
  h.setAxis (h a)

theorem calibrateFrom (h : m.Unscaled) (a : Axis) : (calibrateFrom a m).1.Unscaled := by
  unfold Plotter.calibrateFrom
  split_ifs
  · exact fun b => h.setAxis (s := (m.axis a).count) (h a) b
  · exact fun b => h.setAxis (s := (m.axis a.other).count) (h a.other) b
  · exact h

theorem calibrateBackOff (h : m.Unscaled) (a : Axis) (i : ℕ) :
    (calibrateBackOff a i m).1.Unscaled := by
  unfold Plotter.calibrateBackOff
  split_ifs
  · exact h.setDirection a true
  · exact (h.setAxis (s := (m.axis a).finish a.divisor) fun hf => absurd hf (by
      simp [AxisState.finish])).calibrateFrom a.other

theorem calibrateResume (h : m.Unscaled) (rd : Readings) (pc : CalibratePc) :
    (calibrateResume rd pc m).1.Unscaled := by
  cases pc with
  | ready => exact ((h.setDirection .x true).setDirection .y true).calibrateFrom .x
  | step a =>
      rw [Plotter.calibrateResume]
      split_ifs
      · exact (h.setAxis (s := (m.axis a).turnRound) (h a)).calibrateFrom a.other
      · exact h.calibrateBackOff a 0
      · exact h.calibrateFrom a.other
  | backOff a i => exact h.calibrateBackOff a (i + 1)
  | done => exact h

theorem drawUntilWait (h : m.Unscaled) (calls : List Event) :
    (drawUntilWait calls m).1.Unscaled := by
  intro a
  obtain ⟨d, hd⟩ := axis_drawUntilWait calls m a
  rw [hd]
  exact h a

end Motors.Unscaled

end Plotter
