import Plotter.Calibrate
import Plotter.StepEngine

/-!
# The calibration of one motor

`Motor::calibrate` is the calibration loop in the class of one motor; nothing in the firmware
calls it. It looks at the switches before the step and not after it, so its rounds are those
of the loop in `vCalibrate` cut at another place. Its last round is not left behind the
back-off: one more step is counted and made after the count was set to the travel that is
left.

## Main definitions

* `Motor`, `MotorBench`: the class, and a motor with its carriage.
* `MotorBench.calibrate`: `Motor::calibrate`.
* `calibrateAxis`: the loop of `vCalibrate` with one axis alone.
* `calibrate_overcounts`: both loops from the same start, side by side.
-/

namespace Plotter

open Lib

/-- The members of class `Motor`, with the values its constructor and its declaration give
them. The limit switches are those of the track. -/
structure Motor where
  dir : OutputPin
  step : OutputPin
  steps : ℤ := 1500
  calibrated : Bool := false
  direction : Bool := true
  deriving DecidableEq, Repr

namespace Motor

def getSteps (m : Motor) : ℤ := m.steps

/-- `Motor::drive`; its delays are not modelled. -/
def drive (m : Motor) (direction : Bool) : Motor :=
  let m := { m with dir := m.dir.write direction }
  let m := { m with step := m.step.write true }
  { m with step := m.step.write false }

end Motor

/-- A motor with the position of its carriage. -/
structure MotorBench where
  motor : Motor
  pos : ℤ
  deriving DecidableEq, Repr

namespace MotorBench

/-- `drive(direction)`, which moves the carriage by one. -/
def drive (s : MotorBench) (direction : Bool) : MotorBench :=
  { motor := s.motor.drive direction, pos := s.pos + heading direction }

def limitStart (t : Track) (s : MotorBench) : Prop := t.b ≤ s.pos

def limitEnd (t : Track) (s : MotorBench) : Prop := s.pos ≤ t.a

instance (t : Track) (s : MotorBench) : Decidable (limitStart t s) :=
  inferInstanceAs (Decidable (_ ≤ _))

instance (t : Track) (s : MotorBench) : Decidable (limitEnd t s) :=
  inferInstanceAs (Decidable (_ ≤ _))

/-- `for (int i = 0; i < (steps * 0.02); i++) drive(direction);` -/
def backOff (s : MotorBench) : MotorBench :=
  (whileLoop (fun p : ℕ × MotorBench => (p.1 : ℚ) < p.2.motor.steps * (2 / 100))
    (fun p => (p.1 + 1, p.2.drive p.2.motor.direction))
    ⌈(s.motor.steps : ℚ) * (2 / 100)⌉₊ (0, s)).2

/-- The first half of a round: the switches are looked at. -/
def check (t : Track) (s : MotorBench) : MotorBench :=
  if s.limitStart t then
    let s := { s with motor := { s.motor with direction := false } }
    { s with motor := { s.motor with steps := 0 } }
  else if s.limitEnd t then
    let s := { s with motor := { s.motor with direction := true } }
    let s := s.backOff
    let s := { s with motor := { s.motor with steps := truncate (s.motor.steps * (98 / 100)) } }
    { s with motor := { s.motor with calibrated := true } }
  else s

/-- The second half: `steps++; drive(direction);`. -/
def advance (s : MotorBench) : MotorBench :=
  let s := { s with motor := { s.motor with steps := s.motor.steps + 1 } }
  s.drive s.motor.direction

/-- `Motor::calibrate`: `while (!calibrated) { .. }`, with at most `fuel` rounds. -/
def calibrate (t : Track) (fuel : ℕ) (s : MotorBench) : MotorBench :=
  whileLoop (fun s => s.motor.calibrated = false) (fun s => (s.check t).advance) fuel s

end MotorBench

/-- The loop of `vCalibrate` with one axis alone: the direction is set, then the part of the
axis is repeated until it is calibrated. -/
def calibrateAxis (t : Track) (area : ℤ) (fuel : ℕ) (s : Bench) : Bench :=
  let s := { s with axis := { s.axis with dir := true } }
  whileLoop (fun s => s.axis.calibrated = false) (benchRound t area) fuel s

/-! ## The back-off -/

namespace MotorBench

/-- A step in the direction the motor keeps. -/
def stepOn (s : MotorBench) : MotorBench := s.drive s.motor.direction

/-- Steps move the carriage and write the pins, and leave the other members alone. -/
theorem iterate_stepOn (n : ℕ) (s : MotorBench) :
    (stepOn^[n] s).motor.steps = s.motor.steps ∧
      (stepOn^[n] s).motor.direction = s.motor.direction ∧
      (stepOn^[n] s).motor.calibrated = s.motor.calibrated ∧
      (stepOn^[n] s).pos = s.pos + n * heading s.motor.direction := by
  induction n generalizing s with
  | zero => simp
  | succ n ih =>
      rw [Function.iterate_succ_apply]
      obtain ⟨hsteps, hdirection, hcalibrated, hpos⟩ := ih s.stepOn
      refine ⟨hsteps, hdirection, hcalibrated, hpos.trans ?_⟩
      simp only [stepOn, drive, Motor.drive]
      push_cast
      ring

/-- The back-off makes `⌈0.02 * steps⌉` steps and leaves the members alone. -/
theorem backOff_spec (s : MotorBench) (h : 0 ≤ s.motor.steps) :
    s.backOff.motor.steps = s.motor.steps ∧
      s.backOff.motor.direction = s.motor.direction ∧
      s.backOff.motor.calibrated = s.motor.calibrated ∧
      s.backOff.pos =
        s.pos + ⌈(s.motor.steps : ℚ) * (2 / 100)⌉ * heading s.motor.direction := by
  have hloop : s.backOff = stepOn^[⌈(s.motor.steps : ℚ) * (2 / 100)⌉₊] s :=
    whileLoop_count (fun s : MotorBench => (s.motor.steps : ℚ) * (2 / 100)) stepOn
      (fun _ _ => Iff.rfl) (fun _ => rfl) s
  have hnonneg : (0 : ℚ) ≤ s.motor.steps * (2 / 100) := by
    have : (0 : ℚ) ≤ s.motor.steps := by exact_mod_cast h
    positivity
  rw [hloop, ← Int.natCast_ceil_eq_ceil hnonneg]
  exact iterate_stepOn _ s

end MotorBench

/-! ## The two loops, side by side

A round of `Motor::calibrate` looks at the switches and then makes the step, a round of
`vCalibrate` makes the step and then looks. Between the halves of its round the motor is
where the axis is between two rounds. -/

/-- The second half of a round of `vCalibrate`: the switches are looked at. -/
def axisCheck (t : Track) (area : ℤ) (s : Bench) : Bench :=
  if s.limitStart t then { s with axis := s.axis.turnRound }
  else if s.limitEnd t then
    let s := s.backOff
    { s with axis := s.axis.finish area }
  else s

/-- The motor `r` and the axis `s` agree, with a count that is not negative. -/
structure Agrees (r : MotorBench) (s : Bench) : Prop where
  steps_eq : r.motor.steps = s.axis.stepsTaken
  direction_eq : r.motor.direction = s.axis.dir
  calibrated_eq : r.motor.calibrated = s.axis.calibrated
  pos_eq : r.pos = s.pos
  nonneg : 0 ≤ s.axis.stepsTaken

namespace Agrees
variable {t : Track} {area : ℤ} {r : MotorBench} {s : Bench}

/-- The halves that make the step. -/
theorem advance (h : Agrees r s) :
    Agrees r.advance (Bench.step { s with axis := s.axis.count }) ∧
      0 < (Bench.step { s with axis := s.axis.count }).axis.stepsTaken := by
  have hcount : 0 < s.axis.stepsTaken + 1 := by
    have := h.nonneg
    omega
  refine ⟨⟨congrArg (· + 1) h.steps_eq, h.direction_eq, h.calibrated_eq, ?_, hcount.le⟩, hcount⟩
  simp only [MotorBench.advance, MotorBench.drive, Bench.step, AxisState.count, h.pos_eq,
    h.direction_eq]

/-- At the end switch: the back-off, and the travel that is left. -/
theorem finish (area : ℤ) (hsteps : r.motor.steps = s.axis.stepsTaken)
    (hdirection : r.motor.direction = true) (hpos : r.pos = s.pos)
    (hcount : 0 < s.axis.stepsTaken) :
    Agrees
      { r.backOff with
        motor := { r.backOff.motor with
          steps := truncate (r.backOff.motor.steps * (98 / 100)), calibrated := true } }
      { s.backOff with axis := s.backOff.axis.finish area } := by
  have hnonneg : 0 ≤ r.motor.steps := by omega
  obtain ⟨hsteps', hdirection', -, hpos'⟩ := MotorBench.backOff_spec r hnonneg
  have htravel : (0 : ℚ) ≤ s.axis.stepsTaken * (98 / 100) := by
    have : (0 : ℚ) ≤ s.axis.stepsTaken := by exact_mod_cast hcount.le
    positivity
  rw [Bench.backOff_eq s hcount]
  refine ⟨?_, hdirection'.trans hdirection, rfl, ?_, ?_⟩
  · simp only [hsteps', hsteps, AxisState.finish]
  · simp only [hpos', hsteps, hpos, hdirection, heading, if_true, mul_one]
  · simp only [AxisState.finish, truncate_of_nonneg htravel]
    exact Int.floor_nonneg.mpr htravel

/-- The halves that look at the switches. -/
theorem check (h : Agrees r s) (hcount : 0 < s.axis.stepsTaken) :
    Agrees (r.check t) (axisCheck t area s) := by
  have hstart : r.limitStart t ↔ s.limitStart t := by
    rw [MotorBench.limitStart, Bench.limitStart, h.pos_eq]
  have hend : r.limitEnd t ↔ s.limitEnd t := by
    rw [MotorBench.limitEnd, Bench.limitEnd, h.pos_eq]
  by_cases hs : s.limitStart t
  · rw [MotorBench.check, if_pos (hstart.mpr hs), axisCheck, if_pos hs]
    exact ⟨rfl, rfl, h.calibrated_eq, h.pos_eq, le_rfl⟩
  · by_cases he : s.limitEnd t
    · rw [MotorBench.check, if_neg (mt hstart.mp hs), if_pos (hend.mpr he), axisCheck, if_neg hs,
        if_pos he]
      exact finish area h.steps_eq rfl h.pos_eq hcount
    · rw [MotorBench.check, if_neg (mt hstart.mp hs), if_neg (mt hend.mp he), axisCheck,
        if_neg hs, if_neg he]
      exact h

/-- A round of the axis, against the motor from the middle of one round to the next. -/
theorem round (h : Agrees r s) (hs : s.axis.calibrated = false) :
    Agrees (r.advance.check t) (benchRound t area s) := by
  have hround : benchRound t area s =
      axisCheck t area (Bench.step { s with axis := s.axis.count }) := by
    rw [benchRound, hs]
    rfl
  rw [hround]
  exact h.advance.1.check h.advance.2

end Agrees

/-- One round of the loop of the motor. -/
theorem calibrate_succ {m : MotorBench} (hm : m.motor.calibrated = false) (t : Track) (fuel : ℕ) :
    m.calibrate t (fuel + 1) = (m.check t).advance.calibrate t fuel :=
  whileLoop_succ_of (c := fun s : MotorBench => s.motor.calibrated = false) hm fuel

/-- **The loops agree up to one step.** Where the rounds of the axis lead, the loop of the
motor passes, one step and one count further on. -/
theorem calibrate_of_agrees {t : Track} {area : ℤ} {m : MotorBench} {s s' : Bench}
    (hm : m.motor.calibrated = false) (h : Agrees (m.check t) s) (hlead : Leads t area s s') :
    ∃ fuel r, m.calibrate t fuel = r.advance ∧ Agrees r s' := by
  obtain ⟨n, hn⟩ := hlead
  induction n generalizing m s with
  | zero =>
      refine ⟨1, m.check t, calibrate_succ hm t 0, ?_⟩
      rwa [← hn]
  | succ n ih =>
      cases hcal : s.axis.calibrated with
      | true =>
          have hsame : s = s' := by
            rw [← hn, Function.iterate_fixed (benchRound_of_calibrated hcal)]
          exact ⟨1, m.check t, calibrate_succ hm t 0, hsame ▸ h⟩
      | false =>
          have hm' : (m.check t).advance.motor.calibrated = false := by
            rw [← hcal, ← h.calibrated_eq]
            rfl
          rw [Function.iterate_succ_apply] at hn
          obtain ⟨fuel, r, hr, hagree⟩ := ih hm' (h.round hcal) hn
          exact ⟨fuel + 1, r, (calibrate_succ hm t fuel).trans hr, hagree⟩

/-! ## Calibration from power up -/

/-- A motor with its carriage at `pos`, as the constructor leaves it. -/
def motorUp (dir step : OutputPin) (pos : ℤ) : MotorBench := ⟨{ dir := dir, step := step }, pos⟩

/-- Between the switches the first round finds neither active. -/
theorem check_motorUp (dir step : OutputPin) {t : Track} {pos : ℤ} (ha : t.a < pos)
    (hb : pos < t.b) : (motorUp dir step pos).check t = motorUp dir step pos := by
  have hstart : ¬ (motorUp dir step pos).limitStart t := not_le.mpr hb
  have hend : ¬ (motorUp dir step pos).limitEnd t := not_le.mpr ha
  rw [MotorBench.check, if_neg hstart, if_neg hend]

/-- What calibration should leave: a count of 98 per cent of the travel, the carriage that
many steps short of the start switch, and both as `vCalibrate` leaves them in `r`. -/
structure RecordsTravel (t : Track) (s : MotorBench) (r : Bench) : Prop where
  calibrated : s.motor.calibrated = true
  count : s.motor.getSteps = ⌊((t.b - t.a : ℤ) : ℚ) * (98 / 100)⌋
  stands : t.b - s.pos = s.motor.getSteps
  sibling : r.axis.calibrated = true
  same_count : s.motor.getSteps = r.axis.stepsTaken
  same_pos : s.pos = r.pos

/-- Both loops, started at `pos`, end with the travel recorded. -/
def Calibrates (t : Track) (area : ℤ) (dir step : OutputPin) (pos : ℤ) : Prop :=
  ∃ fuel fuel', RecordsTravel t ((motorUp dir step pos).calibrate t fuel)
    (calibrateAxis t area fuel' ⟨{}, pos⟩)

/-- What the loops leave instead. -/
structure Overcounts (t : Track) (s : MotorBench) (r : Bench) : Prop where
  calibrated : s.motor.calibrated = true
  sibling : r.axis.calibrated = true
  sibling_count : r.axis.stepsTaken = ⌊((t.b - t.a : ℤ) : ℚ) * (98 / 100)⌋
  sibling_stands : t.b - r.pos = r.axis.stepsTaken
  count : s.motor.getSteps = r.axis.stepsTaken + 1
  pos_eq : s.pos = r.pos + 1

section Strictly
variable (dir step : OutputPin) (area : ℤ) {t : Track} {pos : ℤ}

/-- The loop of the motor, which starts from a count of 1500: the count is lost at the
start switch. -/
theorem calibrate_motorUp (ha : t.a < pos) (hb : pos < t.b) :
    ∃ fuel r, (motorUp dir step pos).calibrate t fuel = r.advance ∧
      Agrees r (backedOff area (t.b - t.a) t.a) := by
  obtain ⟨k, hk⟩ := Int.eq_ofNat_of_zero_le (by omega : 0 ≤ t.b - pos)
  have hlead : Leads t area (onTrack true 1500 pos) (backedOff area (t.b - t.a) t.a) :=
    leads_up t area k ha.le (by omega)
  refine calibrate_of_agrees rfl ?_ hlead
  rw [check_motorUp dir step ha hb]
  exact ⟨rfl, rfl, rfl, rfl, by simp [onTrack]⟩

/-- The loop of the axis. -/
theorem calibrateAxis_eq (ha : t.a ≤ pos) :
    ∃ fuel, calibrateAxis t area fuel ⟨{}, pos⟩ = backedOff area (t.b - t.a) t.a := by
  obtain ⟨fuel, hfuel⟩ := (leads_axisResult t area pos).iterate_eq (axisResult_calibrated ..)
  have hfix : ∀ s : Bench, ¬ s.axis.calibrated = false → benchRound t area s = s := by
    intro s hs
    exact benchRound_of_calibrated (Bool.of_not_eq_false hs)
  refine ⟨fuel, (whileLoop_eq_iterate_of_fixed hfix fuel _).trans ?_⟩
  refine (hfuel fuel le_rfl).trans ?_
  rw [axisResult, if_pos ha]

theorem overcounts (ha : t.a < pos) (hb : pos < t.b) :
    ∃ fuel fuel', Overcounts t ((motorUp dir step pos).calibrate t fuel)
      (calibrateAxis t area fuel' ⟨{}, pos⟩) := by
  obtain ⟨fuel, r, hr, hagree⟩ := calibrate_motorUp dir step area ha hb
  obtain ⟨fuel', haxis⟩ := calibrateAxis_eq area ha.le
  refine ⟨fuel, fuel', ?_⟩
  rw [hr, haxis]
  have hshare := ceil_add_floor (t.b - t.a)
  refine ⟨hagree.calibrated_eq, rfl, rfl, ?_, congrArg (· + 1) hagree.steps_eq, ?_⟩
  · simp only [backedOff]
    omega
  · change r.pos + heading r.motor.direction = _
    rw [hagree.pos_eq, hagree.direction_eq]
    rfl

/-- Runs of the loop that end agree, whatever their fuel; the count is one too high. -/
theorem not_calibrates (ha : t.a < pos) (hb : pos < t.b) : ¬ Calibrates t area dir step pos := by
  rintro ⟨fuel, fuel', h⟩
  obtain ⟨last, last', hover⟩ := overcounts dir step area ha hb
  have hsame : (motorUp dir step pos).calibrate t fuel = (motorUp dir step pos).calibrate t last :=
    whileLoop_exit_unique (by rw [← MotorBench.calibrate, h.calibrated]; exact Bool.noConfusion)
      (by rw [← MotorBench.calibrate, hover.calibrated]; exact Bool.noConfusion)
  have hcount := hover.count
  rw [← hsame, h.count, hover.sibling_count] at hcount
  omega

/-- **The count comes out one too high.** From every start between the switches the loop of
`vCalibrate` records the travel that is left; the loop of `Motor::calibrate` ends with one
more and with the carriage one step nearer to the start switch, so it never records it. -/
theorem calibrate_overcounts (ha : t.a < pos) (hb : pos < t.b) :
    (∃ fuel fuel', Overcounts t ((motorUp dir step pos).calibrate t fuel)
      (calibrateAxis t area fuel' ⟨{}, pos⟩)) ∧ ¬ Calibrates t area dir step pos :=
  ⟨overcounts dir step area ha hb, not_calibrates dir step area ha hb⟩

end Strictly

/-- A track of a hundred steps, with the carriage in the middle. -/
def hundred : Track := ⟨0, 100, by omega⟩

theorem calibrate_overcounts_hundred :
    (∃ fuel fuel', Overcounts hundred
      ((motorUp { level := false } { level := false } 50).calibrate hundred fuel)
      (calibrateAxis hundred areaYmm fuel' ⟨{}, 50⟩)) ∧
    ¬ Calibrates hundred areaYmm { level := false } { level := false } 50 := by
  have ha : hundred.a < 50 := by decide
  have hb : 50 < hundred.b := by decide
  exact calibrate_overcounts { level := false } { level := false } areaYmm ha hb

/-- The travel that is left is 98 steps there; the motor records 99. -/
theorem calibrate_records_too_much : ¬ ∀ (t : Track) (area : ℤ) (dir step : OutputPin) (pos : ℤ),
    t.a < pos → pos < t.b → Calibrates t area dir step pos := by
  intro h
  have hmiddle := h hundred areaYmm { level := false } { level := false } 50 (by decide) (by decide)
  exact not_calibrates _ _ _ (by decide) (by decide) hmiddle

end Plotter
