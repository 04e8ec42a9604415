import Mathlib.Data.Rat.Defs
import Mathlib.Tactic.Common

/-!
# The data the tasks share

The two axes, the motor calls, the command record and the constants that several
parts of the firmware use. A `double` is read as an exact rational number.

## Main definitions

* `Axis`, `Event`: the axes, and the calls that act on their motors.
* `Command`, `GObject`: `enum command`, and a command as the tasks exchange it.
* `Scale`, `areaXmm`, `areaYmm`: steps per millimetre and the drawing area.
-/

namespace Plotter

/-- The two axes of the plotter. -/
inductive Axis
  | x
  | y
  deriving DecidableEq, Repr

/-- The other axis. -/
def Axis.other : Axis → Axis
  | .x => .y
  | .y => .x

theorem Axis.forall_iff {P : Axis → Prop} : (∀ a, P a) ↔ P .x ∧ P .y := by
  refine ⟨fun h => ⟨h .x, h .y⟩, ?_⟩
  intro ⟨hx, hy⟩ a
  cases a with
  | x => exact hx
  | y => exact hy

instance {P : Axis → Prop} [Decidable (P .x)] [Decidable (P .y)] : Decidable (∀ a, P a) :=
  decidable_of_iff _ Axis.forall_iff.symm

/-- The calls by which a move acts on the motors. -/
inductive Event
  /-- `xMotor->setDirection(d)` or `yMotor->setDirection(d)`. -/
  | setDirection (axis : Axis) (direction : Bool)
  /-- `RIT_start(xCount, yCount, us)`; the timer period `us` is not modelled. -/
  | ritStart (xCount yCount : ℤ)
  deriving DecidableEq, Repr

namespace Event

/-- The full steps of axis `a` that a call asks for. -/
def steps (a : Axis) : Event → ℤ
  | .setDirection _ _ => 0
  | .ritStart xCount yCount =>
    match a with
    | .x => xCount / 2
    | .y => yCount / 2

end Event

/-- `+1` in direction `true`, `-1` in direction `false`. -/
def heading (d : Bool) : ℤ := if d then 1 else -1

/-- `enum command`. -/
inductive Command
  | M10
  | M1
  | G1
  | G28
  deriving DecidableEq, Repr

namespace Command

/-- The numbers of the enumeration, which start at one. -/
def toInt : Command → ℤ
  | M10 => 1
  | M1 => 2
  | G1 => 3
  | G28 => 4

/-- The `case` of a `switch` over a command number; `none` is its `default`. -/
def ofInt? (n : ℤ) : Option Command :=
  if n = 1 then some M10
  else if n = 2 then some M1
  else if n = 3 then some G1
  else if n = 4 then some G28
  else none

@[simp] theorem ofInt?_toInt (c : Command) : ofInt? c.toInt = some c := by cases c <;> rfl

end Command

/-- A command as the two tasks exchange it. -/
structure GObject where
  command : ℤ := 0
  servo : ℤ := 0
  xCoord : ℚ := 0
  yCoord : ℚ := 0
  deriving DecidableEq, Repr

/-- The target of a command on one axis. -/
def GObject.coord (object : GObject) : Axis → ℚ
  | .x => object.xCoord
  | .y => object.yCoord

/-- Steps per millimetre, as calibration leaves them. -/
structure Scale where
  scaledX : ℚ := 0
  scaledY : ℚ := 0
  deriving DecidableEq, Repr

/-- Steps per millimetre on one axis. -/
def Scale.on (sc : Scale) : Axis → ℚ
  | .x => sc.scaledX
  | .y => sc.scaledY

/-- The drawing area in millimetres. -/
def areaXmm : ℤ := 340
def areaYmm : ℤ := 300

end Plotter
