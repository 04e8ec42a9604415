import Mathlib.Data.List.Induction
import Plotter.Carriage

/-!
# Drift over many moves

Every move rounds its leading axis up to whole steps and records the target as
reached exactly. The error carried between moves belongs to the axis that follows,
so nothing takes the rounding back: over `n` moves an axis may be off by almost two
steps for each of them. Moves between whole steps are exact, and so is any sequence
of them.

## Main definitions

* `Drawer.Home`: the globals right after calibration.
* `drift a sc s r`: net steps of the axis against its recorded position.
* `drift_lt_two_mul`: the bound over `n` moves, and no drift over whole steps.
-/

namespace Plotter

open Lib

/-- At the origin, with the initial error and no calls logged. -/
structure Drawer.Home (s : Drawer) : Prop where
  x0_eq : s.x0 = 0
  y0_eq : s.y0 = 0
  error_eq : s.error = 1 / 2
  issued_eq : s.issued = []

theorem Drawer.Home.recorded_eq {s : Drawer} (hs : s.Home) (a : Axis) : s.recorded a = 0 := by
  cases a
  · exact hs.x0_eq
  · exact hs.y0_eq

theorem Drawer.Home.inBand {s : Drawer} (hs : s.Home) : InBand s.error := by
  rw [hs.error_eq]
  exact inBand_half

/-- The net signed steps issued for an axis, whatever its direction was at first. -/
def netSteps (a : Axis) (s : Drawer) : ℤ := (Rail.follow a {} s.issued).pos

/-- The net steps of an axis against its recorded position, in steps. -/
def drift (a : Axis) (sc : Scale) (s : Drawer) : ℚ := netSteps a s - s.recorded a * sc.on a

/-- A move adds its steps, signed by its direction. -/
theorem netSteps_triggerMotors (a : Axis) (sc : Scale) (object : GObject) (s : Drawer) :
    netSteps a (triggerMotors sc object s) = netSteps a s +
      heading (decide (s.recorded a < object.coord a)) * moveSteps a sc object s := by
  rw [netSteps, triggerMotors_issued, Rail.follow_append, follow_moveEvents]
  rfl

/-- A move changes the drift by its own rounding, signed by its direction. -/
theorem drift_triggerMotors {a : Axis} {sc : Scale} (h : 0 ≤ sc.on a) (object : GObject)
    (s : Drawer) : drift a sc (triggerMotors sc object s) = drift a sc s +
      heading (decide (s.recorded a < object.coord a)) *
        (moveSteps a sc object s - travel a sc object s) := by
  have hd := heading_mul_travel h object s
  simp only [drift, netSteps_triggerMotors, recorded_triggerMotors]
  push_cast
  rw [mul_sub, hd, displacement]
  ring

theorem abs_heading (d : Bool) : |(heading d : ℚ)| = 1 := by cases d <;> simp [heading]

theorem drift_home {a : Axis} {sc : Scale} {s : Drawer} (hs : s.Home) : drift a sc s = 0 := by
  simp [drift, netSteps, hs.issued_eq, hs.recorded_eq]

/-- One more move adds less than two steps of drift. -/
theorem abs_drift_triggerMotors_lt {a : Axis} {sc : Scale} (h : 0 ≤ sc.on a)
    (object : GObject) {s : Drawer} (hs : InBand s.error) :
    |drift a sc (triggerMotors sc object s)| < |drift a sc s| + 2 := by
  have hmove := abs_moveSteps_sub_lt a sc object hs
  rw [drift_triggerMotors h]
  refine (abs_add_le _ _).trans_lt ?_
  rw [abs_mul, abs_heading, one_mul]
  linarith

/-- The drift after `n` moves is at most `2 * n` steps. -/
theorem abs_drift_le {a : Axis} {sc : Scale} (h : 0 ≤ sc.on a) {s : Drawer} (hs : s.Home)
    (objects : List GObject) : |drift a sc (triggerAll sc objects s)| ≤ 2 * objects.length := by
  induction objects using List.reverseRecOn with
  | nil => simp [drift_home hs]
  | append_singleton os o ih =>
      have hlt := abs_drift_triggerMotors_lt h o (triggerAll_inBand sc os hs.inBand)
      rw [triggerAll_concat, List.length_append]
      push_cast [List.length_singleton]
      linarith

/-- A position that is a whole number of steps from the origin on both axes. -/
def GObject.OnGrid (object : GObject) (sc : Scale) : Prop :=
  ∀ a, ∃ n : ℤ, object.coord a * sc.on a = n

/-- Between positions on the grid every move is a whole move. -/
theorem GObject.OnGrid.wholeMove {object : GObject} {sc : Scale} (ho : object.OnGrid sc)
    {s : Drawer} (hs : ∀ a, ∃ n : ℤ, s.recorded a * sc.on a = n) : WholeMove sc object s := by
  intro a
  obtain ⟨n, hn⟩ := ho a
  obtain ⟨m, hm⟩ := hs a
  exact ⟨n - m, by rw [displacement, sub_mul, hn, hm, Int.cast_sub]⟩

theorem recorded_triggerAll_onGrid {sc : Scale} {s : Drawer} (hs : s.Home)
    {objects : List GObject} (ho : ∀ o ∈ objects, o.OnGrid sc) (a : Axis) :
    ∃ n : ℤ, (triggerAll sc objects s).recorded a * sc.on a = n := by
  induction objects using List.reverseRecOn with
  | nil => exact ⟨0, by simp [hs.recorded_eq]⟩
  | append_singleton os o ih =>
      rw [triggerAll_concat, recorded_triggerMotors]
      exact ho o (by simp) a

/-- Every move of a sequence over the grid is a whole move. -/
theorem wholeMove_triggerAll {sc : Scale} {s : Drawer} (hs : s.Home) {os : List GObject}
    (hos : ∀ o ∈ os, o.OnGrid sc) {o : GObject} (ho : o.OnGrid sc) :
    WholeMove sc o (triggerAll sc os s) :=
  ho.wholeMove (recorded_triggerAll_onGrid hs hos)

/-- Over the grid an axis stands where the record says, after every move. -/
theorem drift_onGrid {a : Axis} {sc : Scale} (h : 0 ≤ sc.on a) {s : Drawer} (hs : s.Home)
    {objects : List GObject} (ho : ∀ o ∈ objects, o.OnGrid sc) :
    drift a sc (triggerAll sc objects s) = 0 := by
  induction objects using List.reverseRecOn with
  | nil => exact drift_home hs
  | append_singleton os o ih =>
      have hos : ∀ o' ∈ os, o'.OnGrid sc := fun o' ho' => ho o' (by simp [ho'])
      have hw : WholeMove sc o (triggerAll sc os s) :=
        wholeMove_triggerAll hs hos (ho o (by simp))
      rw [triggerAll_concat, drift_triggerMotors h, ih hos,
        moveSteps_of_whole hw (triggerAll_inBand sc os hs.inBand), sub_self, mul_zero, add_zero]

/-- **Drift.** After `n` moves to any targets an axis is off by less than `2 * n` steps;
over targets that lie on whole steps it is not off at all. -/
theorem drift_lt_two_mul {sc : Scale} (hx : 0 < sc.scaledX) (hy : 0 < sc.scaledY) {s : Drawer}
    (hs : s.Home) (objects : List GObject) (hne : objects ≠ []) (a : Axis) :
    |drift a sc (triggerAll sc objects s)| < 2 * objects.length ∧
      ((∀ o ∈ objects, o.OnGrid sc) → drift a sc (triggerAll sc objects s) = 0) := by
  have h : 0 ≤ sc.on a := by cases a <;> simp [Scale.on, hx.le, hy.le]
  refine ⟨?_, drift_onGrid h hs⟩
  obtain ⟨os, o, rfl⟩ := (List.eq_nil_or_concat' objects).resolve_left hne
  have hlt := abs_drift_triggerMotors_lt h o (triggerAll_inBand sc os hs.inBand)
  have hle := abs_drift_le h hs os
  rw [triggerAll_concat, List.length_append]
  push_cast [List.length_singleton]
  linarith

/-- Four moves of half a step each: the X motor makes four steps for a recorded
travel of two. -/
def halfSteps : List GObject :=
  [{ xCoord := 1 / 2 }, { xCoord := 1 }, { xCoord := 3 / 2 }, { xCoord := 2 }]

/-- The bound of two steps does not hold over every sequence of moves. -/
theorem halfSteps_drift : ¬ ∀ (sc : Scale), 0 < sc.scaledX → 0 < sc.scaledY →
    ∀ s : Drawer, s.Home → ∀ (objects : List GObject) (a : Axis),
      |drift a sc (triggerAll sc objects s)| < 2 := by
  intro h
  have hdrift : drift .x ⟨1, 1⟩ (triggerAll ⟨1, 1⟩ halfSteps {}) = 2 := by decide +kernel
  have hlt := h ⟨1, 1⟩ one_pos one_pos {} ⟨rfl, rfl, rfl, rfl⟩ halfSteps .x
  rw [hdrift] at hlt
  norm_num at hlt

theorem drift_lt_two_mul_halfSteps :
    |drift .x ⟨1, 1⟩ (triggerAll ⟨1, 1⟩ halfSteps {})| < 2 * halfSteps.length ∧
      ((∀ o ∈ halfSteps, o.OnGrid ⟨1, 1⟩) →
        drift .x ⟨1, 1⟩ (triggerAll ⟨1, 1⟩ halfSteps {}) = 0) :=
  drift_lt_two_mul one_pos one_pos ⟨rfl, rfl, rfl, rfl⟩ halfSteps (by decide) .x

end Plotter
