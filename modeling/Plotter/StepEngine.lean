import Mathlib.Data.BitVec
import Plotter.Basic

/-!
# The step engine

`RIT_start` loads two step counters, starts a timer and waits; every expiry of the
timer runs `RIT_IRQHandler`, which counts down and toggles the step pins. When both
counters are zero the handler stops the timer and releases the waiting caller
through the binary semaphore `sbRIT`.

The handler chooses its branch by the flags `xCalibrated` and `yCalibrated`, and it
consults the limit switches only when both are set. The counters are the source's
32-bit unsigned words, so a decrement would wrap if it happened at zero.

## Main definitions

* `OutputPin`: the level of a pin and the levels it had before.
* `Flags`, `Readings`, `Engine`: what the handler reads and writes.
* `RIT_IRQHandler`, `RIT_begin`, `RIT_wake`, `RIT_start`: the source's functions.
-/

namespace Plotter

/-- An output pin: its level, and the levels it was written before, last first. -/
structure OutputPin where
  level : Bool
  past : List Bool := []
  deriving DecidableEq, Repr

namespace OutputPin

/-- `DigitalIoPin::write`. -/
def write (p : OutputPin) (value : Bool) : OutputPin :=
  { level := value, past := p.level :: p.past }

/-- Low-to-high transitions in a list of levels, last level first. -/
def risesOf : List Bool → ℕ
  | new :: old :: rest => (if new && !old then 1 else 0) + risesOf (old :: rest)
  | _ => 0

/-- The low-to-high transitions the pin has made. -/
def rises (p : OutputPin) : ℕ := risesOf (p.level :: p.past)

@[simp] theorem level_write (p : OutputPin) (v : Bool) : (p.write v).level = v := rfl

@[simp] theorem rises_write (p : OutputPin) (v : Bool) :
    (p.write v).rises = (if v && !p.level then 1 else 0) + p.rises := rfl

end OutputPin

/-- The flags that calibration sets. -/
structure Flags where
  xCalibrated : Bool := false
  yCalibrated : Bool := false
  deriving DecidableEq, Repr

/-- `xCalibrated` or `yCalibrated`. -/
def Flags.on (fl : Flags) : Axis → Bool
  | .x => fl.xCalibrated
  | .y => fl.yCalibrated

/-- What the four limit switches read at one interrupt. -/
structure Readings where
  xStart : Bool := false
  xEnd : Bool := false
  yStart : Bool := false
  yEnd : Bool := false
  deriving DecidableEq, Repr

/-- Whether a switch of axis `a` reads active. -/
def Readings.active (rd : Readings) : Axis → Bool
  | .x => rd.xStart || rd.xEnd
  | .y => rd.yStart || rd.yEnd

/-- The variables the handler and `RIT_start` share, the timer and the step pins. -/
structure Engine where
  xSteps : BitVec 32 := 0
  ySteps : BitVec 32 := 0
  stepTurn : Bool := true
  /-- The timer is running. -/
  timer : Bool := false
  /-- The interrupt is enabled in the interrupt controller. -/
  irq : Bool := false
  /-- The binary semaphore has been given and not yet taken. -/
  sbRIT : Bool := false
  xStep : OutputPin := { level := false }
  yStep : OutputPin := { level := false }
  deriving DecidableEq, Repr

namespace Engine

/-- `xSteps` or `ySteps`. -/
def steps (e : Engine) : Axis → BitVec 32
  | .x => e.xSteps
  | .y => e.ySteps

/-- The step pin of an axis. -/
def stepPin (e : Engine) : Axis → OutputPin
  | .x => e.xStep
  | .y => e.yStep

/-- `stepTurn = !stepTurn; xMotor->driveISR(stepTurn)`. -/
def driveX (e : Engine) : Engine :=
  { e with stepTurn := !e.stepTurn, xStep := e.xStep.write (!e.stepTurn) }

/-- `stepTurn = !stepTurn; yMotor->driveISR(stepTurn)`. -/
def driveY (e : Engine) : Engine :=
  { e with stepTurn := !e.stepTurn, yStep := e.yStep.write (!e.stepTurn) }

/-- The toggle and the write for axis `a`. -/
def drive (e : Engine) : Axis → Engine
  | .x => e.driveX
  | .y => e.driveY

end Engine

/-- The interrupt handler of the repetitive interrupt timer. -/
def RIT_IRQHandler (fl : Flags) (rd : Readings) (e : Engine) : Engine :=
  let e :=
    if !fl.xCalibrated then
      if e.xSteps > 0 then
        let e := { e with xSteps := e.xSteps - 1 }
        e.driveX
      else e
    else e
  let e :=
    if !fl.yCalibrated then
      if e.ySteps > 0 then
        let e := { e with ySteps := e.ySteps - 1 }
        e.driveY
      else e
    -- this `else` belongs to the second `if` alone
    else if fl.xCalibrated && fl.yCalibrated then
      let e :=
        if e.xSteps > 0 then
          let e := { e with xSteps := e.xSteps - 1 }
          if rd.xStart || rd.xEnd then { e with xSteps := 0 } else e.driveX
        else e
      if e.ySteps > 0 then
        let e := { e with ySteps := e.ySteps - 1 }
        if rd.yStart || rd.yEnd then { e with ySteps := 0 } else e.driveY
      else e
    else e
  if e.xSteps ≤ 0 ∧ e.ySteps ≤ 0 then { e with timer := false, sbRIT := true } else e

/-- `RIT_start` up to its wait: load the counters, start the timer, enable the
interrupt. -/
def RIT_begin (xCount yCount : ℤ) (e : Engine) : Engine :=
  { e with
    xSteps := BitVec.ofInt 32 xCount
    ySteps := BitVec.ofInt 32 yCount
    timer := true
    irq := true }

/-- `RIT_start` after its wait: the semaphore is taken, the interrupt is disabled. -/
def RIT_wake (e : Engine) : Engine := { e with sbRIT := false, irq := false }

/-- The interrupts of one wait, at most `fuel` of them; `rd i` is what the switches
read at interrupt `i`. -/
def interrupts (fl : Flags) (rd : ℕ → Readings) : ℕ → ℕ → Engine → Engine
  | 0, _, e => e
  | fuel + 1, i, e =>
    if e.timer && e.irq then interrupts fl rd fuel (i + 1) (RIT_IRQHandler fl (rd i) e) else e

/-- `RIT_start(xCount, yCount, us)` of a caller that has the engine to itself. The interrupts of
the wait are enough for it, see `RIT_start_idle`. -/
def RIT_start (fl : Flags) (rd : ℕ → Readings) (xCount yCount : ℤ) (e : Engine) : Engine :=
  let e := RIT_begin xCount yCount e
  let e := interrupts fl rd (max 1 (max xCount.toNat yCount.toNat)) 0 e
  RIT_wake e

/-! ## The handler, axis by axis -/

namespace Engine

def setSteps (e : Engine) (a : Axis) (n : BitVec 32) : Engine :=
  match a with
  | .x => { e with xSteps := n }
  | .y => { e with ySteps := n }

/-- The handler's work on one axis: a positive counter goes down and the pin is toggled,
unless a switch that is consulted reads active. -/
def countDown (a : Axis) (limited : Bool) (e : Engine) : Engine :=
  if e.steps a > 0 then
    if limited then e.setSteps a 0 else (e.setSteps a (e.steps a - 1)).drive a
  else e

/-- The end of the handler: with both counters at zero the timer is stopped and `sbRIT`
given. -/
def stopIfDone (e : Engine) : Engine :=
  if e.xSteps ≤ 0 ∧ e.ySteps ≤ 0 then { e with timer := false, sbRIT := true } else e

end Engine

/-- The handler by its branches. -/
theorem RIT_IRQHandler_eq (fl : Flags) (rd : Readings) (e : Engine) :
    RIT_IRQHandler fl rd e = Engine.stopIfDone (
      match fl with
      | ⟨false, false⟩ => (e.countDown .x false).countDown .y false
      | ⟨false, true⟩ => e.countDown .x false
      | ⟨true, false⟩ => e.countDown .y false
      | ⟨true, true⟩ => (e.countDown .x (rd.active .x)).countDown .y (rd.active .y)) := by
  obtain ⟨xCalibrated, yCalibrated⟩ := fl
  cases xCalibrated <;> cases yCalibrated <;> rfl

namespace Engine
variable (a : Axis) (limited : Bool) (e : Engine)

theorem steps_countDown : (e.countDown a limited).steps a =
    if e.steps a = 0 then 0 else if limited then 0 else e.steps a - 1 := by
  by_cases h0 : e.steps a = 0
  · simp [countDown, h0]
  · have hpos : e.steps a > 0 := (BitVec.pos_iff_ne_zero _).mpr h0
    rw [countDown, if_pos hpos, if_neg h0]
    cases a <;> cases limited <;> rfl

theorem steps_countDown_of_ne {a b : Axis} (h : a ≠ b) :
    (e.countDown a limited).steps b = e.steps b := by
  unfold countDown
  cases a <;> cases b <;> first | exact absurd rfl h | (split_ifs <;> rfl)

@[simp] theorem timer_countDown : (e.countDown a limited).timer = e.timer := by
  unfold countDown
  cases a <;> split_ifs <;> rfl

@[simp] theorem sbRIT_countDown : (e.countDown a limited).sbRIT = e.sbRIT := by
  unfold countDown
  cases a <;> split_ifs <;> rfl

@[simp] theorem steps_stopIfDone : e.stopIfDone.steps a = e.steps a := by
  unfold stopIfDone
  cases a <;> split_ifs <;> rfl

end Engine

/-- **The counters.** An axis that is calibrated alone keeps its counter; otherwise it
counts down, and a switch that is consulted and reads active empties it. -/
theorem RIT_IRQHandler_steps (fl : Flags) (rd : Readings) (e : Engine) (a : Axis) :
    (RIT_IRQHandler fl rd e).steps a =
      if fl.on a && !fl.on a.other then e.steps a
      else if e.steps a = 0 then 0
      else if fl.on a && rd.active a then 0 else e.steps a - 1 := by
  obtain ⟨xCalibrated, yCalibrated⟩ := fl
  rw [RIT_IRQHandler_eq, Engine.steps_stopIfDone]
  cases a <;> cases xCalibrated <;> cases yCalibrated <;>
    simp [Flags.on, Axis.other, Engine.steps_countDown, Engine.steps_countDown_of_ne]

/-- The handler stops the timer and gives `sbRIT` together, or leaves both alone. -/
theorem RIT_IRQHandler_timer (fl : Flags) (rd : Readings) (e : Engine) :
    (RIT_IRQHandler fl rd e).timer = false ∧ (RIT_IRQHandler fl rd e).sbRIT = true ∨
      (RIT_IRQHandler fl rd e).timer = e.timer ∧ (RIT_IRQHandler fl rd e).sbRIT = e.sbRIT := by
  obtain ⟨xCalibrated, yCalibrated⟩ := fl
  rw [RIT_IRQHandler_eq]
  unfold Engine.stopIfDone
  split_ifs
  · exact .inl ⟨rfl, rfl⟩
  · cases xCalibrated <;> cases yCalibrated <;> simp

/-! ## One full step of one axis -/

/-- Both axes calibrated. -/
def Flags.both : Flags := ⟨true, true⟩

/-- Count arguments of the call for one full step of an axis. -/
def Axis.counts : Axis → ℤ × ℤ
  | .x => (2, 0)
  | .y => (0, 2)

/-- `RIT_start(2, 0)` or `RIT_start(0, 2)` with both axes calibrated. -/
def fullStep (a : Axis) (rd : ℕ → Readings) (e : Engine) : Engine :=
  RIT_start .both rd a.counts.1 a.counts.2 e

namespace Engine

/-- Nobody uses the engine. -/
structure Idle (e : Engine) : Prop where
  xSteps_eq : e.xSteps = 0
  ySteps_eq : e.ySteps = 0
  timer_eq : e.timer = false
  irq_eq : e.irq = false
  sbRIT_eq : e.sbRIT = false

end Engine

/-- **One full step, by cases.** A switch active at the first interrupt suppresses the
step; one that becomes active at the second cuts it after one toggle; otherwise the
pin is toggled twice. The engine is idle again in every case. -/
theorem fullStep_cases (a : Axis) (rd : ℕ → Readings) {e : Engine} (he : e.Idle) :
    fullStep a rd e =
      if (rd 0).active a then e
      else if (rd 1).active a then e.drive a
      else (e.drive a).drive a := by
  obtain ⟨hx, hy, ht, hi, hs⟩ := he
  cases e with
  | mk xSteps ySteps stepTurn timer irq sbRIT xStep yStep =>
    simp only at hx hy ht hi hs
    subst hx hy ht hi hs
    cases a with
    | x =>
        cases h0 : (rd 0).active .x <;> cases h1 : (rd 1).active .x <;>
          simp_all [fullStep, RIT_start, RIT_begin, interrupts, RIT_IRQHandler, RIT_wake,
            Flags.both, Axis.counts, Readings.active, Engine.drive, Engine.driveX]
    | y =>
        cases h0 : (rd 0).active .y <;> cases h1 : (rd 1).active .y <;>
          simp_all [fullStep, RIT_start, RIT_begin, interrupts, RIT_IRQHandler, RIT_wake,
            Flags.both, Axis.counts, Readings.active, Engine.drive, Engine.driveY]

theorem Engine.Idle.drive {e : Engine} (he : e.Idle) (a : Axis) : (e.drive a).Idle := by
  cases a <;> exact ⟨he.xSteps_eq, he.ySteps_eq, he.timer_eq, he.irq_eq, he.sbRIT_eq⟩

theorem Engine.Idle.fullStep {e : Engine} (he : e.Idle) (a : Axis) (rd : ℕ → Readings) :
    (fullStep a rd e).Idle := by
  rw [fullStep_cases a rd he]
  split_ifs
  · exact he
  · exact he.drive a
  · exact (he.drive a).drive a

@[simp] theorem Engine.stepTurn_drive (e : Engine) (a : Axis) :
    (e.drive a).stepTurn = !e.stepTurn := by cases a <;> rfl

@[simp] theorem Engine.stepPin_drive (e : Engine) (a : Axis) :
    (e.drive a).stepPin a = (e.stepPin a).write (!e.stepTurn) := by cases a <;> rfl

@[simp] theorem Engine.stepPin_drive_other (e : Engine) (a : Axis) :
    (e.drive a).stepPin a.other = e.stepPin a.other := by cases a <;> rfl

end Plotter
