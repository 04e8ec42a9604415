import Plotter.Calibrate
import Plotter.Moves.Grid

/-!
# The drawing area and the calibrated travel

Calibration turns the travel of each axis into steps per millimetre by an integer
division: the X travel by `areaYmm` and the Y travel by `areaXmm`. The reply to `M10`
announces `XY 340 300`. On the Y axis the larger divisor leaves room to spare; on the X
axis a coordinate of 340 asks for `340 * (xStepsTaken / 300)` steps.

## Main definitions

* `calibratedScale`: the scale factors for given travels.
* `GObject.InArea`: a target inside the area the reply to `M10` announces.
* `fitsTravel_iff`: for which travels every legal drawing stays on the machine.
-/

namespace Plotter

/-- The scale factors calibration computes from the travels. -/
def calibratedScale (xStepsTaken yStepsTaken : ℕ) : Scale :=
  { scaledX := perMillimetre xStepsTaken areaYmm, scaledY := perMillimetre yStepsTaken areaXmm }

/-- Inside the area that the reply `M10 XY 340 300 ..` announces. -/
def GObject.InArea (object : GObject) : Prop :=
  0 ≤ object.xCoord ∧ object.xCoord ≤ 340 ∧ 0 ≤ object.yCoord ∧ object.yCoord ≤ 300

/-- Every drawing over whole steps inside the area stays within the travel of both
axes, at every point of every move. -/
def FitsTravel (xStepsTaken yStepsTaken : ℕ) : Prop :=
  ∀ s : Drawer, s.Home → ∀ objects : List GObject,
    (∀ o ∈ objects, o.InArea ∧ o.OnGrid (calibratedScale xStepsTaken yStepsTaken)) →
    ∀ pre, pre <+: (triggerAll (calibratedScale xStepsTaken yStepsTaken) objects s).issued →
      (0 ≤ (Rail.follow .x {} pre).pos ∧ (Rail.follow .x {} pre).pos ≤ xStepsTaken) ∧
      (0 ≤ (Rail.follow .y {} pre).pos ∧ (Rail.follow .y {} pre).pos ≤ yStepsTaken)

theorem perMillimetre_natCast (n k : ℕ) : perMillimetre n k = ((n / k : ℕ) : ℚ) := by
  rw [perMillimetre, Int.tdiv_eq_ediv_of_nonneg (Int.natCast_nonneg n)]
  norm_cast

theorem scaledX_calibratedScale (xs ys : ℕ) :
    (calibratedScale xs ys).on .x = ((xs / 300 : ℕ) : ℚ) := perMillimetre_natCast xs 300

theorem scaledY_calibratedScale (xs ys : ℕ) :
    (calibratedScale xs ys).on .y = ((ys / 340 : ℕ) : ℚ) := perMillimetre_natCast ys 340

theorem calibratedScale_nonneg (xs ys : ℕ) (a : Axis) : 0 ≤ (calibratedScale xs ys).on a := by
  cases a
  · rw [scaledX_calibratedScale]; positivity
  · rw [scaledY_calibratedScale]; positivity

/-- A coordinate of at most `m` millimetres at `q` steps per millimetre. -/
theorem coord_mul_scale_le {c : ℚ} {m n q : ℕ} (hc : 0 ≤ c) (hm : c ≤ m) (hfit : m * q ≤ n) :
    ((0 : ℤ) : ℚ) ≤ c * q ∧ c * q ≤ ((n : ℤ) : ℚ) := by
  refine ⟨by positivity, ?_⟩
  calc c * q ≤ m * q := by gcongr
    _ ≤ ((n : ℤ) : ℚ) := by exact_mod_cast hfit

/-- The corner of the area that is farthest along the X axis. -/
def farRight : GObject := { xCoord := 340 }

theorem farRight_legal (xs ys : ℕ) : farRight.InArea ∧ farRight.OnGrid (calibratedScale xs ys) := by
  refine ⟨by norm_num [GObject.InArea, farRight], ?_⟩
  intro a
  cases a with
  | x =>
      rw [scaledX_calibratedScale]
      generalize xs / 300 = q
      exact ⟨340 * q, by simp [GObject.coord, farRight]⟩
  | y => exact ⟨0, by simp [GObject.coord, farRight]⟩

/-- A move to that corner ends `340 * (xs / 300)` steps from home. -/
theorem netSteps_farRight (xs ys : ℕ) : netSteps .x
    (triggerAll (calibratedScale xs ys) [farRight] {}) = ((340 * (xs / 300) : ℕ) : ℤ) := by
  have hgrid : ∀ o ∈ [farRight], o.OnGrid (calibratedScale xs ys) := by
    intro o ho
    rw [List.mem_singleton.mp ho]
    exact (farRight_legal xs ys).2
  have hnet := netSteps_onGrid (calibratedScale_nonneg xs ys .x) (s := {}) ⟨rfl, rfl, rfl, rfl⟩ hgrid
  have hrec : (triggerAll (calibratedScale xs ys) [farRight] {}).recorded .x = 340 :=
    recorded_triggerMotors ..
  rw [scaledX_calibratedScale, hrec] at hnet
  generalize xs / 300 = q at hnet ⊢
  exact_mod_cast hnet

theorem FitsTravel.far_le {xs ys : ℕ} (h : FitsTravel xs ys) : 340 * (xs / 300) ≤ xs := by
  have hlegal := farRight_legal xs ys
  have hpath := h {} ⟨rfl, rfl, rfl, rfl⟩ [farRight]
    (fun o ho => by rw [List.mem_singleton.mp ho]; exact hlegal) _ (List.prefix_refl _)
  have hle : netSteps .x (triggerAll (calibratedScale xs ys) [farRight] {}) ≤ xs := hpath.1.2
  rw [netSteps_farRight] at hle
  exact Int.ofNat_le.mp hle

/-- **The area fits the travel** if and only if 340 millimetres do on the X axis; on the
Y axis they always do. -/
theorem fitsTravel_iff (xStepsTaken yStepsTaken : ℕ) :
    FitsTravel xStepsTaken yStepsTaken ↔ 340 * (xStepsTaken / 300) ≤ xStepsTaken := by
  refine ⟨FitsTravel.far_le, ?_⟩
  intro hx s hs objects ho pre hpre
  have hgrid := fun o h => (ho o h).2
  have hy : 300 * (yStepsTaken / 340) ≤ yStepsTaken := by omega
  constructor
  · refine follow_prefix_mem_box (calibratedScale_nonneg ..) hs le_rfl (by omega) hgrid ?_ hpre
    intro o hmem
    obtain ⟨h0, hle, -, -⟩ := (ho o hmem).1
    rw [scaledX_calibratedScale]
    exact coord_mul_scale_le h0 (by exact_mod_cast hle) hx
  · refine follow_prefix_mem_box (calibratedScale_nonneg ..) hs le_rfl (by omega) hgrid ?_ hpre
    intro o hmem
    obtain ⟨-, -, h0, hle⟩ := (ho o hmem).1
    rw [scaledY_calibratedScale]
    exact coord_mul_scale_le h0 (by exact_mod_cast hle) hy

/-- A travel of 3000 steps gives ten steps per millimetre on the X axis, and 3400 steps
for its far end. -/
theorem farRight_overruns : ¬ ∀ xStepsTaken yStepsTaken : ℕ, FitsTravel xStepsTaken yStepsTaken := by
  intro h
  have := (h 3000 3400).far_le
  omega

end Plotter
