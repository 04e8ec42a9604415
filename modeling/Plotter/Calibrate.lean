import Mathlib.Algebra.Order.Floor.Ring
import Mathlib.Data.Rat.Floor
import Mathlib.Tactic.Linarith
import Mathlib.Tactic.Ring
import Plotter.Basic
import Plotter.Lib.Loop

/-!
# Calibration

`vCalibrate` drives both axes towards their start switches, turns each one round
there, counts the steps to the end switch and backs off by two per cent of the count.
The count that is left is the travel of the axis.

The two axes are handled by two copies of the same code, which share nothing; an
`AxisState` holds the globals of one axis and `axisPart` is that copy. The source
multiplies by the doubles `0.02` and `0.98`, read here as exact rationals.

## Main definitions

* `AxisState`: the motor direction, `StepsTaken`, `scaled` and `Calibrated` of an axis.
* `Track`, `Bench`: the switches of an axis, and an axis with its carriage.
* `xPart`, `yPart`, `vCalibrate`: the task.
* `vCalibrate_measures_iff`: from which starting places calibration is right.
-/

namespace Plotter

open Lib

/-- The globals of one axis that calibration reads and writes. -/
structure AxisState where
  dir : Bool := false
  stepsTaken : ℤ := 0
  scaled : ℚ := 0
  calibrated : Bool := false
  deriving DecidableEq, Repr

/-- Conversion of a `double` to `int`: the fraction is cut off. -/
def truncate (q : ℚ) : ℤ := q.num.tdiv q.den

/-- Steps per millimetre: the `int` division of `vCalibrate`. -/
def perMillimetre (stepsTaken area : ℤ) : ℚ := (stepsTaken.tdiv area : ℤ)

namespace AxisState

/-- `StepsTaken++`, before the step is made. -/
def count (s : AxisState) : AxisState := { s with stepsTaken := s.stepsTaken + 1 }

/-- The start switch was read active: turn round and count from here. -/
def turnRound (s : AxisState) : AxisState := { s with dir := false, stepsTaken := 0 }

/-- The guard of the back-off loop in its round `i`. -/
def BackingOff (i : ℕ) (s : AxisState) : Prop := (i : ℚ) < s.stepsTaken * (2 / 100)

instance (i : ℕ) (s : AxisState) : Decidable (BackingOff i s) :=
  inferInstanceAs (Decidable (_ < _))

/-- After the back-off: the travel that is left, and the steps per millimetre. -/
def finish (area : ℤ) (s : AxisState) : AxisState :=
  let s := { s with stepsTaken := truncate (s.stepsTaken * (98 / 100)) }
  let s := { s with scaled := perMillimetre s.stepsTaken area }
  { s with calibrated := true }

end AxisState

/-- The switches of an axis: the end switch is active at `a` and below, the start
switch at `b` and above. -/
structure Track where
  a : ℤ
  b : ℤ
  lt : a < b

/-- An axis with the position of its carriage. -/
structure Bench where
  axis : AxisState
  pos : ℤ
  deriving DecidableEq, Repr

namespace Bench

/-- `RIT_start` for one full step, in the direction the motor is set to. -/
def step (s : Bench) : Bench := { s with pos := s.pos + heading s.axis.dir }

def limitStart (t : Track) (s : Bench) : Prop := t.b ≤ s.pos

def limitEnd (t : Track) (s : Bench) : Prop := s.pos ≤ t.a

instance (t : Track) (s : Bench) : Decidable (limitStart t s) := inferInstanceAs (Decidable (_ ≤ _))

instance (t : Track) (s : Bench) : Decidable (limitEnd t s) := inferInstanceAs (Decidable (_ ≤ _))

/-- One round of the back-off loop. -/
def backOffRound (s : ℕ × Bench) : ℕ × Bench :=
  (s.1 + 1, step { s.2 with axis := { s.2.axis with dir := true } })

/-- `for (int i = 0; i < (StepsTaken * 0.02); i++)`; the loop leaves `StepsTaken` alone,
so its bound is enough fuel. -/
def backOff (s : Bench) : Bench :=
  (whileLoop (fun p => AxisState.BackingOff p.1 p.2.axis) backOffRound
    ⌈(s.axis.stepsTaken : ℚ) * (2 / 100)⌉₊ (0, s)).2

end Bench

/-- The part of one axis in a round of the calibration loop. -/
def axisPart (t : Track) (area : ℤ) (s : Bench) : Bench :=
  let s := { s with axis := s.axis.count }
  let s := s.step
  if s.limitStart t then { s with axis := s.axis.turnRound }
  else if s.limitEnd t then
    let s := s.backOff
    { s with axis := s.axis.finish area }
  else s

/-- `if (!xCalibrated) { .. }` -/
def xPart (t : Track) (s : Bench) : Bench :=
  if !s.axis.calibrated then axisPart t areaYmm s else s

/-- `if (!yCalibrated) { .. }` -/
def yPart (t : Track) (s : Bench) : Bench :=
  if !s.axis.calibrated then axisPart t areaXmm s else s

/-- The whole machine on the bench. -/
structure Benches where
  x : Bench
  y : Bench
  deriving DecidableEq, Repr

/-- One round of `while (!xCalibrated || !yCalibrated)`. -/
def calibrateRound (tx ty : Track) (s : Benches) : Benches :=
  let s := { s with x := xPart tx s.x }
  { s with y := yPart ty s.y }

/-- The guard of the calibration loop. -/
def Uncalibrated (s : Benches) : Prop := !s.x.axis.calibrated || !s.y.axis.calibrated

instance (s : Benches) : Decidable (Uncalibrated s) := inferInstanceAs (Decidable (_ = true))

/-- The task, with at most `fuel` rounds, from the carriages at `sx` and `sy`. -/
def vCalibrate (tx ty : Track) (fuel : ℕ) (s : Benches) : Benches :=
  let s := { s with x := { s.x with axis := { s.x.axis with dir := true } } }
  let s := { s with y := { s.y with axis := { s.y.axis with dir := true } } }
  whileLoop Uncalibrated (calibrateRound tx ty) fuel s

/-- The machine before calibration. -/
def powerUp (sx sy : ℤ) : Benches := { x := ⟨{}, sx⟩, y := ⟨{}, sy⟩ }

/-! ## The back-off -/

/-- The back-off rounds and the travel that is left share out the count. -/
theorem ceil_add_floor (n : ℤ) :
    ⌈(n : ℚ) * (2 / 100)⌉ + ⌊(n : ℚ) * (98 / 100)⌋ = n := by
  have h : (n : ℚ) * (98 / 100) = -(n * (2 / 100)) + n := by ring
  rw [h, Int.floor_add_intCast, Int.floor_neg]
  ring

theorem truncate_of_nonneg {q : ℚ} (h : 0 ≤ q) : truncate q = ⌊q⌋ := by
  rw [truncate, Rat.floor_def', Int.tdiv_eq_ediv_of_nonneg (Rat.num_nonneg.mpr h)]

namespace Bench

/-- A step towards the start switch, whatever the direction was. -/
def stepUp (s : Bench) : Bench := step { s with axis := { s.axis with dir := true } }

theorem iterate_stepUp (n : ℕ) (s : Bench) :
    stepUp^[n + 1] s = { axis := { s.axis with dir := true }, pos := s.pos + (n + 1) } := by
  induction n generalizing s with
  | zero => simp [stepUp, step, heading]
  | succ n ih =>
      rw [Function.iterate_succ_apply, ih]
      simp only [stepUp, step, heading, if_true, Bench.mk.injEq, true_and]
      push_cast
      ring

/-- The back-off makes `⌈0.02 * StepsTaken⌉` steps towards the start switch. -/
theorem backOff_eq (s : Bench) (h : 0 < s.axis.stepsTaken) :
    s.backOff = { axis := { s.axis with dir := true }
                  pos := s.pos + ⌈(s.axis.stepsTaken : ℚ) * (2 / 100)⌉ } := by
  have hpos : (0 : ℚ) < s.axis.stepsTaken * (2 / 100) := by
    have : (0 : ℚ) < s.axis.stepsTaken := by exact_mod_cast h
    positivity
  have hloop : s.backOff = stepUp^[⌈(s.axis.stepsTaken : ℚ) * (2 / 100)⌉₊] s :=
    whileLoop_count (fun s : Bench => (s.axis.stepsTaken : ℚ) * (2 / 100)) stepUp
      (fun _ _ => Iff.rfl) (fun _ => rfl) s
  obtain ⟨n, hn⟩ := Nat.exists_eq_succ_of_ne_zero (Nat.ceil_pos.mpr hpos).ne'
  have hceil : ⌈(s.axis.stepsTaken : ℚ) * (2 / 100)⌉ = n + 1 := by
    rw [← Int.natCast_ceil_eq_ceil hpos.le, hn]
    rfl
  rw [hloop, hn, iterate_stepUp, hceil]

end Bench

/-! ## One axis

The carriage goes up to the start switch, turns round and comes down to the end
switch. `Leads` follows it over any number of rounds. -/

/-- The rounds of one axis: its part of the loop body until it is calibrated. -/
def benchRound (t : Track) (area : ℤ) (s : Bench) : Bench :=
  if !s.axis.calibrated then axisPart t area s else s

/-- Some number of rounds leads from one state of the axis to the other. -/
def Leads (t : Track) (area : ℤ) (s s' : Bench) : Prop := ∃ n, (benchRound t area)^[n] s = s'

theorem Leads.refl (t : Track) (area : ℤ) (s : Bench) : Leads t area s s := ⟨0, rfl⟩

/-- One more round in front. -/
theorem Leads.head {t : Track} {area : ℤ} {s s' s'' : Bench} (h : benchRound t area s = s')
    (h' : Leads t area s' s'') : Leads t area s s'' := by
  obtain ⟨n, hn⟩ := h'
  exact ⟨n + 1, by rw [Function.iterate_succ_apply, h, hn]⟩

/-- An axis that is not calibrated, with its motor set to `dir`. -/
def onTrack (dir : Bool) (stepsTaken pos : ℤ) : Bench :=
  { axis := { dir := dir, stepsTaken := stepsTaken }, pos := pos }

/-- An axis whose count has reached `n` at the end switch at `pos`, backed off. -/
def backedOff (area n pos : ℤ) : Bench :=
  { axis := { dir := true, stepsTaken := ⌊(n : ℚ) * (98 / 100)⌋
              scaled := perMillimetre ⌊(n : ℚ) * (98 / 100)⌋ area, calibrated := true }
    pos := pos + ⌈(n : ℚ) * (2 / 100)⌉ }

section Rounds
variable {t : Track} {area : ℤ} {dir : Bool} {n pos : ℤ}

theorem round_free (ha : t.a < pos + heading dir) (hb : pos + heading dir < t.b) :
    benchRound t area (onTrack dir n pos) = onTrack dir (n + 1) (pos + heading dir) := by
  have hstart : ¬ t.b ≤ pos + heading dir := not_le.mpr hb
  have hend : ¬ pos + heading dir ≤ t.a := not_le.mpr ha
  simp [benchRound, axisPart, onTrack, AxisState.count, Bench.step, Bench.limitStart,
    Bench.limitEnd, hstart, hend]

theorem round_start (hb : t.b ≤ pos + heading dir) :
    benchRound t area (onTrack dir n pos) = onTrack false 0 (pos + heading dir) := by
  simp [benchRound, axisPart, onTrack, AxisState.count, Bench.step, Bench.limitStart,
    AxisState.turnRound, hb]

theorem round_end (hn : 0 ≤ n) (ha : pos + heading dir ≤ t.a) :
    benchRound t area (onTrack dir n pos) = backedOff area (n + 1) (pos + heading dir) := by
  have hstart : ¬ t.b ≤ pos + heading dir := not_le.mpr (lt_of_le_of_lt ha t.lt)
  have hcount : 0 < n + 1 := by omega
  have hnonneg : (0 : ℚ) ≤ ((n + 1 : ℤ) : ℚ) * (98 / 100) := by
    have : (0 : ℚ) ≤ ((n + 1 : ℤ) : ℚ) := by exact_mod_cast hcount.le
    positivity
  simp only [benchRound, axisPart, onTrack, AxisState.count, Bench.step, Bench.limitStart,
    Bench.limitEnd, hstart, ha, Bool.not_false, if_true, if_false]
  rw [Bench.backOff_eq _ hcount]
  simp only [AxisState.finish, truncate_of_nonneg hnonneg, backedOff]

end Rounds

/-- Coming down from the start switch: the count at the end switch is the distance
left plus what was counted so far. -/
theorem leads_down (t : Track) (area : ℤ) (k : ℕ) {n pos : ℤ} (hn : 0 ≤ n)
    (hk : pos = t.a + k + 1) (hb : pos ≤ t.b) :
    Leads t area (onTrack false n pos) (backedOff area (n + k + 1) t.a) := by
  induction k generalizing n pos with
  | zero =>
      have hpos : pos + heading false = t.a := by simp [heading]; omega
      refine Leads.head (round_end hn hpos.le) ?_
      rw [hpos]
      simpa using Leads.refl t area _
  | succ k ih =>
      push_cast at hk
      have hpos : pos + heading false = t.a + k + 1 := by simp [heading]; omega
      refine Leads.head (round_free (by omega) (by omega)) ?_
      have := ih (n := n + 1) (by omega) hpos (by omega)
      push_cast
      rwa [show n + (k + 1) + 1 = n + 1 + k + 1 by ring]

/-- From anywhere at or above the start switch, going down: the count restarts in
every round until the switch is left. -/
theorem leads_from_top (t : Track) (area : ℤ) (k : ℕ) {pos : ℤ} (hk : pos = t.b + k) :
    Leads t area (onTrack false 0 pos) (backedOff area (t.b - t.a) t.a) := by
  induction k generalizing pos with
  | zero =>
      obtain ⟨m, hm⟩ := Int.eq_ofNat_of_zero_le (by have := t.lt; omega : 0 ≤ t.b - t.a - 1)
      have : Leads t area (onTrack false 0 pos) (backedOff area (0 + m + 1) t.a) :=
        leads_down t area m le_rfl (by omega) (by omega)
      rwa [show (0 : ℤ) + m + 1 = t.b - t.a by omega] at this
  | succ k ih =>
      push_cast at hk
      have hpos : pos + heading false = t.b + k := by simp [heading]; omega
      refine Leads.head (round_start (by omega)) ?_
      exact ih hpos

/-- The round that reaches the start switch, and all that follow it. -/
theorem leads_turn (t : Track) (area : ℤ) {n pos : ℤ} (hb : t.b ≤ pos + 1) :
    Leads t area (onTrack true n pos) (backedOff area (t.b - t.a) t.a) := by
  have hup : pos + heading true = pos + 1 := by simp [heading]
  obtain ⟨m, hm⟩ := Int.eq_ofNat_of_zero_le (by omega : 0 ≤ pos + 1 - t.b)
  refine Leads.head (round_start (by omega)) ?_
  exact leads_from_top t area m (by omega)

/-- Going up from the end switch or above, to the start switch and back down. -/
theorem leads_up (t : Track) (area : ℤ) (k : ℕ) {n pos : ℤ} (ha : t.a ≤ pos)
    (hk : t.b ≤ pos + k + 1) :
    Leads t area (onTrack true n pos) (backedOff area (t.b - t.a) t.a) := by
  induction k generalizing n pos with
  | zero => exact leads_turn t area (by simpa using hk)
  | succ k ih =>
      push_cast at hk
      by_cases hb : t.b ≤ pos + 1
      · exact leads_turn t area hb
      · have hup : pos + heading true = pos + 1 := by simp [heading]
        refine Leads.head (round_free (by omega) (by omega)) ?_
        exact ih (by omega) (by omega)

/-- Where one axis ends up. Below the end switch the very first step meets that switch
before the start switch was ever seen, and the count is one. -/
def axisResult (t : Track) (area pos : ℤ) : Bench :=
  if t.a ≤ pos then backedOff area (t.b - t.a) t.a else backedOff area 1 (pos + 1)

theorem leads_axisResult (t : Track) (area pos : ℤ) :
    Leads t area (onTrack true 0 pos) (axisResult t area pos) := by
  by_cases ha : t.a ≤ pos
  · rw [axisResult, if_pos ha]
    obtain ⟨k, hk⟩ := Int.eq_ofNat_of_zero_le (by have := t.lt; omega : 0 ≤ t.b - t.a)
    exact leads_up t area k ha (by omega)
  · have hup : pos + heading true = pos + 1 := by simp [heading]
    rw [axisResult, if_neg ha]
    refine Leads.head (round_end le_rfl (by omega)) ?_
    rw [hup]
    exact Leads.refl t area _

theorem axisResult_calibrated (t : Track) (area pos : ℤ) :
    (axisResult t area pos).axis.calibrated = true := by
  by_cases ha : t.a ≤ pos <;> simp [axisResult, ha, backedOff]

/-! ## The task -/

theorem benchRound_of_calibrated {t : Track} {area : ℤ} {s : Bench}
    (h : s.axis.calibrated = true) : benchRound t area s = s := by simp [benchRound, h]

theorem Leads.iterate_eq {t : Track} {area : ℤ} {s s' : Bench} (hc : s'.axis.calibrated = true)
    (h : Leads t area s s') : ∃ n, ∀ m ≥ n, (benchRound t area)^[m] s = s' := by
  obtain ⟨n, hn⟩ := h
  refine ⟨n, fun m hm => ?_⟩
  obtain ⟨k, rfl⟩ := Nat.exists_eq_add_of_le hm
  rw [add_comm, Function.iterate_add_apply, hn]
  exact Function.iterate_fixed (benchRound_of_calibrated hc) k

/-- The axes share nothing: the rounds of the loop are the rounds of each axis. -/
theorem iterate_calibrateRound (tx ty : Track) (n : ℕ) (s : Benches) :
    (calibrateRound tx ty)^[n] s =
      { x := (benchRound tx areaYmm)^[n] s.x, y := (benchRound ty areaXmm)^[n] s.y } := by
  induction n generalizing s with
  | zero => rfl
  | succ n ih =>
      simp only [Function.iterate_succ_apply]
      exact ih _

theorem calibrateRound_of_exit {tx ty : Track} {s : Benches} (h : ¬ Uncalibrated s) :
    calibrateRound tx ty s = s := by
  simp only [Uncalibrated, Bool.or_eq_true, Bool.not_eq_true', not_or, Bool.not_eq_false] at h
  simp [calibrateRound, xPart, yPart, h.1, h.2]

/-- **The task finishes**, with each axis where its own rounds lead. -/
theorem vCalibrate_eq (tx ty : Track) (sx sy : ℤ) :
    ∃ fuel, vCalibrate tx ty fuel (powerUp sx sy) =
      { x := axisResult tx areaYmm sx, y := axisResult ty areaXmm sy } := by
  obtain ⟨nx, hx⟩ := (leads_axisResult tx areaYmm sx).iterate_eq (axisResult_calibrated ..)
  obtain ⟨ny, hy⟩ := (leads_axisResult ty areaXmm sy).iterate_eq (axisResult_calibrated ..)
  refine ⟨max nx ny, ?_⟩
  rw [vCalibrate, whileLoop_eq_iterate_of_fixed fun s h => calibrateRound_of_exit h,
    iterate_calibrateRound]
  simp only [Benches.mk.injEq]
  exact ⟨hx _ (le_max_left ..), hy _ (le_max_right ..)⟩

/-- What calibration promises for one axis: its flag is set, the count is 98 per cent
of the travel, and the carriage stands that many steps short of the start switch. -/
structure MeasuresTravel (t : Track) (s : Bench) : Prop where
  calibrated : s.axis.calibrated = true
  stepsTaken : s.axis.stepsTaken = ⌊((t.b - t.a : ℤ) : ℚ) * (98 / 100)⌋
  stands : t.b - s.pos = s.axis.stepsTaken

/-- The task ends with the travel of both axes measured. -/
def CalibratesFrom (tx ty : Track) (sx sy : ℤ) : Prop :=
  ∃ fuel, MeasuresTravel tx (vCalibrate tx ty fuel (powerUp sx sy)).x ∧
    MeasuresTravel ty (vCalibrate tx ty fuel (powerUp sx sy)).y

/-- Runs that set both flags agree, whatever their fuel. -/
theorem calibratesFrom_iff (tx ty : Track) (sx sy : ℤ) : CalibratesFrom tx ty sx sy ↔
    MeasuresTravel tx (axisResult tx areaYmm sx) ∧ MeasuresTravel ty (axisResult ty areaXmm sy) := by
  obtain ⟨n, hn⟩ := vCalibrate_eq tx ty sx sy
  constructor
  · rintro ⟨fuel, hx, hy⟩
    have hexit : ¬ Uncalibrated (vCalibrate tx ty fuel (powerUp sx sy)) := by
      simp [Uncalibrated, hx.calibrated, hy.calibrated]
    have hexit' : ¬ Uncalibrated (vCalibrate tx ty n (powerUp sx sy)) := by
      simp [hn, Uncalibrated, axisResult_calibrated]
    have heq : vCalibrate tx ty fuel (powerUp sx sy) = vCalibrate tx ty n (powerUp sx sy) :=
      whileLoop_exit_unique hexit hexit'
    rw [heq, hn] at hx hy
    exact ⟨hx, hy⟩
  · intro h
    exact ⟨n, by rwa [hn]⟩

/-- The starting places from which an axis is measured: not below the end switch, or
one step below it on a track of length one, where the count of one happens to be right. -/
def StartsRight (t : Track) (pos : ℤ) : Prop :=
  t.a ≤ pos ∨ (pos = t.a - 1 ∧ t.b = t.a + 1)

theorem floor_travel_pos {n : ℤ} (h : 2 ≤ n) : 0 < ⌊(n : ℚ) * (98 / 100)⌋ := by
  have : (2 : ℚ) ≤ n := by exact_mod_cast h
  rw [Int.floor_pos]
  linarith

theorem backedOff_one (area pos : ℤ) :
    (backedOff area 1 pos).axis.stepsTaken = 0 ∧ (backedOff area 1 pos).pos = pos + 1 := by
  constructor
  · simp only [backedOff]
    norm_num
  · simp only [backedOff]
    norm_num

theorem measuresTravel_axisResult_iff (t : Track) (area pos : ℤ) :
    MeasuresTravel t (axisResult t area pos) ↔ StartsRight t pos := by
  by_cases ha : t.a ≤ pos
  · refine iff_of_true ⟨axisResult_calibrated .., ?_, ?_⟩ (.inl ha)
    · simp only [axisResult, if_pos ha, backedOff]
    · have := ceil_add_floor (t.b - t.a)
      simp only [axisResult, if_pos ha, backedOff]
      omega
  · obtain ⟨hcount, hpos⟩ := backedOff_one area (pos + 1)
    have hlt := t.lt
    rw [StartsRight, or_iff_right ha]
    constructor
    · rintro ⟨-, hsteps, hstands⟩
      rw [axisResult, if_neg ha, hcount] at hsteps hstands
      rw [hpos] at hstands
      have hone : ¬ 2 ≤ t.b - t.a := fun h => by have := floor_travel_pos h; omega
      omega
    · rintro ⟨hp, hb⟩
      refine ⟨axisResult_calibrated .., ?_, ?_⟩
      · rw [axisResult, if_neg ha, hcount, hb, add_sub_cancel_left]
        norm_num
      · rw [axisResult, if_neg ha, hcount, hpos]
        omega

/-- **Calibration measures the travel** exactly from the starting places that are not
below an end switch, up to the coincidence on tracks of length one. -/
theorem vCalibrate_measures_iff (tx ty : Track) (sx sy : ℤ) :
    CalibratesFrom tx ty sx sy ↔ StartsRight tx sx ∧ StartsRight ty sy := by
  rw [calibratesFrom_iff, measuresTravel_axisResult_iff, measuresTravel_axisResult_iff]

/-- An X carriage three steps below its end switch, on a track of ten steps. -/
theorem vCalibrate_below_end : ¬ ∀ (tx ty : Track) (sx sy : ℤ), CalibratesFrom tx ty sx sy := by
  intro h
  have hx := ((calibratesFrom_iff _ _ _ _).mp (h ⟨0, 10, by norm_num⟩ ⟨0, 10, by norm_num⟩ (-3) 5)).1
  rw [measuresTravel_axisResult_iff, StartsRight] at hx
  norm_num at hx

end Plotter
