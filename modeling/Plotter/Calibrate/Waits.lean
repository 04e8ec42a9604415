import Mathlib.Logic.Relation
import Plotter.Motors

/-!
# Calibration from wait to wait

`calibrateResume` is `vCalibrate` cut at the calls of `RIT_start`, as it shares the
motors with the other tasks. Here it is left alone with the step engine: the interrupt
handler serves every wait, and a carriage moves by one for every pulse on its step pin.
It makes the rounds of the task as a whole and comes to the same end.

## Main definitions

* `Rig`: the motors with the carriages of both axes.
* `Rig.next`: the wait in `RIT_start`, and `vCalibrate` up to its next wait.
* `Rig.await_start`: a wait for an axis that is not calibrated is one step of it.
* `Rig.reaches_part`: the part of one axis, wait by wait, is its part of the loop body.
* `Rig.reaches_vCalibrate`: the cut-up task comes to the end of the whole one.
-/

namespace Plotter

open Lib Relation

/-! ## One step of an axis that is not calibrated -/

/-- The engine between two calls of `vCalibrate`: idle, and the toggle not flipped. -/
structure Engine.Resting (e : Engine) : Prop extends e.Idle where
  stepTurn_eq : e.stepTurn = true

/-- The pulses on the step pin of axis `a` from one state of the engine to another. -/
def Engine.pulses (a : Axis) (e e' : Engine) : ℤ := (e'.stepPin a).rises - (e.stepPin a).rises

/-- Without the flag of its axis a call toggles the pin twice, whatever the switches
read: they are not consulted. -/
theorem RIT_start_uncalibrated {fl : Flags} {a : Axis} (hfl : fl.on a = false)
    (rd : ℕ → Readings) {e : Engine} (he : e.Idle) :
    RIT_start fl rd a.counts.1 a.counts.2 e = (e.drive a).drive a := by
  obtain ⟨hx, hy, ht, hi, hs⟩ := he
  obtain ⟨xCalibrated, yCalibrated⟩ := fl
  cases e with
  | mk xSteps ySteps stepTurn timer irq sbRIT xStep yStep =>
    simp only at hx hy ht hi hs
    subst hx hy ht hi hs
    cases a with
    | x =>
        obtain rfl : xCalibrated = false := hfl
        cases yCalibrated <;>
          simp [RIT_start, RIT_begin, interrupts, RIT_IRQHandler, RIT_wake, Axis.counts,
            Engine.drive, Engine.driveX]
    | y =>
        obtain rfl : yCalibrated = false := hfl
        cases xCalibrated <;>
          simp [RIT_start, RIT_begin, interrupts, RIT_IRQHandler, RIT_wake, Axis.counts,
            Engine.drive, Engine.driveY]

namespace Engine.Resting
variable {e : Engine}

theorem drive_drive (he : e.Resting) (a : Axis) : ((e.drive a).drive a).Resting where
  toIdle := (he.toIdle.drive a).drive a
  stepTurn_eq := by simp [he.stepTurn_eq]

/-- The two toggles are one pulse. -/
theorem pulses_drive_drive (he : e.Resting) (a : Axis) : pulses a e ((e.drive a).drive a) = 1 := by
  simp [pulses, he.stepTurn_eq]

theorem pulses_drive_drive_other (e : Engine) (a : Axis) :
    pulses a.other e ((e.drive a).drive a) = 0 := by simp [pulses]

end Engine.Resting

/-! ## The motors with their carriages -/

/-- The motors, with their carriages at `x` and `y`. -/
structure Rig where
  motors : Motors := {}
  x : ℤ
  y : ℤ
  deriving DecidableEq, Repr

namespace Rig

/-- An axis with its carriage. -/
def bench (r : Rig) : Axis → Bench
  | .x => ⟨r.motors.x, r.x⟩
  | .y => ⟨r.motors.y, r.y⟩

/-- The machine as the task as a whole sees it. -/
def benches (r : Rig) : Benches := { x := r.bench .x, y := r.bench .y }

/-- What the switches read. -/
def readings (t : Axis → Track) (r : Rig) : Readings where
  xStart := (r.bench .x).limitStart (t .x)
  xEnd := (r.bench .x).limitEnd (t .x)
  yStart := (r.bench .y).limitStart (t .y)
  yEnd := (r.bench .y).limitEnd (t .y)

/-- The wait in `RIT_start` for one step, and its end; each carriage moves by one for
every pulse, in the direction its motor is set to. -/
def await (t : Axis → Track) (r : Rig) : Rig :=
  let e := RIT_wake (interrupts r.motors.flags (fun _ => r.readings t) 2 0 r.motors.engine)
  { motors := { r.motors with engine := e }
    x := r.x + heading r.motors.x.dir * Engine.pulses .x r.motors.engine e
    y := r.y + heading r.motors.y.dir * Engine.pulses .y r.motors.engine e }

/-- `vCalibrate` has run on the motors up to a wait. -/
def goOn (r : Rig) (p : Motors × CalibratePc) : Rig × CalibratePc := ({ r with motors := p.1 }, p.2)

/-- The wait is served, and `vCalibrate` runs to its next wait. -/
def next (t : Axis → Track) : Rig × CalibratePc → Rig × CalibratePc
  | (r, pc) =>
    let r := if pc.waitsFor.isSome then r.await t else r
    r.goOn (calibrateResume (r.readings t) pc r.motors)

/-- The task comes from one state to the other. -/
def Reaches (t : Axis → Track) : Rig × CalibratePc → Rig × CalibratePc → Prop :=
  ReflTransGen fun p q => next t p = q

/-- The task at the test `if (!Calibrated)` of axis `a`. -/
def atPart (a : Axis) (r : Rig) : Rig × CalibratePc := r.goOn (calibrateFrom a r.motors)

/-- The task at the test of round `i` of the back-off loop of axis `a`. -/
def atBackOff (a : Axis) (i : ℕ) (r : Rig) : Rig × CalibratePc :=
  r.goOn (calibrateBackOff a i r.motors)

/-- New values for the globals of axis `a`. -/
def set (r : Rig) (a : Axis) (s : AxisState) : Rig := { r with motors := r.motors.setAxis a s }

/-- `RIT_start` for a step of axis `a`, up to its wait. -/
def start (r : Rig) (a : Axis) : Rig :=
  { r with motors := r.motors.start a.counts.1 a.counts.2 }

/-- A step of axis `a` has been made. -/
def stepped (r : Rig) (a : Axis) : Rig :=
  { motors := { r.motors with engine := (r.motors.engine.drive a).drive a }
    x := if a = .x then (r.bench .x).step.pos else r.x
    y := if a = .y then (r.bench .y).step.pos else r.y }

section Frame
variable (r : Rig) (a : Axis) (s : AxisState)

@[simp] theorem axis_bench : (r.bench a).axis = r.motors.axis a := by cases a <;> rfl

@[simp] theorem bench_set : (r.set a s).bench a = { r.bench a with axis := s } := by
  cases a <;> rfl

@[simp] theorem bench_set_other : (r.set a s).bench a.other = r.bench a.other := by
  cases a <;> rfl

@[simp] theorem bench_stepped : (r.stepped a).bench a = (r.bench a).step := by
  cases a <;> rfl

@[simp] theorem bench_stepped_other : (r.stepped a).bench a.other = r.bench a.other := by
  cases a <;> rfl

@[simp] theorem engine_set : (r.set a s).motors.engine = r.motors.engine :=
  r.motors.engine_setAxis a s

theorem limitStart_readings (t : Axis → Track) :
    (r.readings t).limitStart a = decide ((r.bench a).limitStart (t a)) := by cases a <;> rfl

theorem limitEnd_readings (t : Axis → Track) :
    (r.readings t).limitEnd a = decide ((r.bench a).limitEnd (t a)) := by cases a <;> rfl

end Frame

/-- **One wait, one step.** The wait for an axis that is not calibrated moves its
carriage by one and the other carriage not at all. -/
theorem await_start (t : Axis → Track) {r : Rig} (hr : r.motors.engine.Resting) {a : Axis}
    (hflag : (r.bench a).axis.calibrated = false) : (r.start a).await t = r.stepped a := by
  have hfl : r.motors.flags.on a = false := by rw [Motors.flags_on, ← axis_bench, hflag]
  have hengine : RIT_wake (interrupts (r.start a).motors.flags
      (fun _ => (r.start a).readings t) 2 0 (r.start a).motors.engine) =
      (r.motors.engine.drive a).drive a := by
    have h := RIT_start_uncalibrated hfl (fun _ => (r.start a).readings t) hr.toIdle
    cases a <;> exact h
  -- loading the counters leaves the pins alone
  have hpins : ∀ b e', Engine.pulses b (r.start a).motors.engine e' =
      Engine.pulses b r.motors.engine e' := by
    intro b e'
    cases b <;> rfl
  have hone := hr.pulses_drive_drive a
  have hnone := Engine.Resting.pulses_drive_drive_other r.motors.engine a
  rw [await, hengine, hpins, hpins]
  cases a with
  | x =>
      rw [show Axis.other .x = .y from rfl] at hnone
      rw [hone, hnone, mul_one, mul_zero, add_zero]
      rfl
  | y =>
      rw [show Axis.other .y = .x from rfl] at hnone
      rw [hone, hnone, mul_one, mul_zero, add_zero]
      rfl

/-! ## The task, test by test -/

theorem resting_stepped {r : Rig} (hr : r.motors.engine.Resting) (a : Axis) :
    (r.stepped a).motors.engine.Resting := hr.drive_drive a

/-- The wait for a step of an axis that is not calibrated, and what follows it. -/
theorem next_start (t : Axis → Track) {r : Rig} (hr : r.motors.engine.Resting) {a : Axis}
    (hflag : (r.bench a).axis.calibrated = false) (pc : CalibratePc)
    (hpc : pc.waitsFor = some a) : next t (r.start a, pc) =
      (r.stepped a).goOn (calibrateResume ((r.stepped a).readings t) pc (r.stepped a).motors) := by
  rw [next, hpc]
  simp only [Option.isSome_some, if_true, await_start t hr hflag]

/-- A calibrated axis is passed over. -/
theorem atPart_of_calibrated {a : Axis} {r : Rig} (h : (r.bench a).axis.calibrated = true) :
    r.atPart a = r.atPart a.other := by
  rw [axis_bench] at h
  simp only [atPart, calibrateFrom]
  cases a <;> cases hother : (r.motors.axis _).calibrated <;> simp_all [Axis.other]

/-- An axis that is not calibrated is counted and stepped. -/
theorem atPart_of_uncalibrated {a : Axis} {r : Rig} (h : (r.bench a).axis.calibrated = false) :
    r.atPart a = ((r.set a (r.bench a).axis.count).start a, .step a) := by
  rw [axis_bench] at h ⊢
  rw [atPart, calibrateFrom, h]
  rfl

theorem atBackOff_of_backingOff {a : Axis} {i : ℕ} {r : Rig}
    (h : AxisState.BackingOff i (r.bench a).axis) : r.atBackOff a i =
      ((r.set a { (r.bench a).axis with dir := true }).start a, .backOff a i) := by
  rw [axis_bench] at h ⊢
  rw [atBackOff, calibrateBackOff, if_pos h]
  rfl

theorem atBackOff_of_exit {a : Axis} {i : ℕ} {r : Rig}
    (h : ¬ AxisState.BackingOff i (r.bench a).axis) : r.atBackOff a i =
      (r.set a ((r.bench a).axis.finish a.divisor)).atPart a.other := by
  rw [axis_bench] at h ⊢
  rw [atBackOff, calibrateBackOff, if_neg h]
  rfl

/-- What is left of the part of axis `a` in round `i` of its back-off loop. -/
def backedOffFrom (fuel i : ℕ) (a : Axis) (s : Bench) : Bench :=
  let s := (whileLoop (fun p => AxisState.BackingOff p.1 p.2.axis) Bench.backOffRound
    fuel (i, s)).2
  { s with axis := s.axis.finish a.divisor }

theorem backedOffFrom_of_exit {fuel i : ℕ} {a : Axis} {s : Bench}
    (h : ¬ AxisState.BackingOff i s.axis) :
    backedOffFrom fuel i a s = { s with axis := s.axis.finish a.divisor } := by
  have hloop := whileLoop_of_not (c := fun p : ℕ × Bench => AxisState.BackingOff p.1 p.2.axis)
    (f := Bench.backOffRound) (s := (i, s)) h fuel
  rw [backedOffFrom, hloop]

theorem backedOffFrom_succ {fuel i : ℕ} {a : Axis} {s : Bench}
    (h : AxisState.BackingOff i s.axis) : backedOffFrom (fuel + 1) i a s =
      backedOffFrom fuel (i + 1) a { s with axis := { s.axis with dir := true } }.step := by
  have hloop := whileLoop_succ_of (c := fun p : ℕ × Bench => AxisState.BackingOff p.1 p.2.axis)
    (f := Bench.backOffRound) (s := (i, s)) h fuel
  rw [backedOffFrom, hloop]
  rfl

/-- The back-off loop is left for the other axis. -/
theorem reaches_backOff_of_exit (t : Axis → Track) (a : Axis) (fuel : ℕ) {i : ℕ} {r : Rig}
    (hr : r.motors.engine.Resting) (h : ¬ AxisState.BackingOff i (r.bench a).axis) :
    ∃ r' : Rig, Reaches t (r.atBackOff a i) (r'.atPart a.other) ∧ r'.motors.engine.Resting ∧
      r'.bench a = backedOffFrom fuel i a (r.bench a) ∧ r'.bench a.other = r.bench a.other := by
  refine ⟨r.set a ((r.bench a).axis.finish a.divisor), ?_, by simpa using hr, ?_, by simp⟩
  · rw [atBackOff_of_exit h]
    exact .refl
  · rw [backedOffFrom_of_exit h, bench_set]

/-- Calibration of axis `a` makes the rounds of its back-off loop that are left, and goes
on with the other axis. -/
theorem reaches_backOff (t : Axis → Track) (a : Axis) (fuel i : ℕ) {r : Rig}
    (hr : r.motors.engine.Resting) (hflag : (r.bench a).axis.calibrated = false)
    (hfuel : ((r.bench a).axis.stepsTaken : ℚ) * (2 / 100) ≤ (i + fuel : ℕ)) :
    ∃ r' : Rig, Reaches t (r.atBackOff a i) (r'.atPart a.other) ∧ r'.motors.engine.Resting ∧
      r'.bench a = backedOffFrom fuel i a (r.bench a) ∧ r'.bench a.other = r.bench a.other := by
  induction fuel generalizing i r with
  | zero =>
      exact reaches_backOff_of_exit t a 0 hr (not_lt.mpr hfuel)
  | succ fuel ih =>
      by_cases h : AxisState.BackingOff i (r.bench a).axis
      · have hr₁ : (r.set a { (r.bench a).axis with dir := true }).motors.engine.Resting := by
          simpa using hr
        have hnext := next_start t hr₁ (a := a) (by simpa using hflag) (.backOff a i) rfl
        obtain ⟨r', hreach, hr', hbench, hother⟩ := ih (i + 1) (resting_stepped hr₁ a)
          (by simpa [Bench.step] using hflag)
          (by simpa [Bench.step, add_right_comm, ← add_assoc] using hfuel)
        refine ⟨r', ?_, hr', ?_, by rw [hother, bench_stepped_other, bench_set_other]⟩
        · rw [atBackOff_of_backingOff h]
          exact .head hnext hreach
        · rw [hbench, backedOffFrom_succ h, bench_stepped, bench_set]
      · exact reaches_backOff_of_exit t a (fuel + 1) hr h

/-- **The part of one axis**, from its test to the test of the other axis. -/
theorem reaches_part (t : Axis → Track) (a : Axis) {r : Rig} (hr : r.motors.engine.Resting) :
    ∃ r' : Rig, Reaches t (r.atPart a) (r'.atPart a.other) ∧ r'.motors.engine.Resting ∧
      r'.bench a = benchRound (t a) a.divisor (r.bench a) ∧ r'.bench a.other = r.bench a.other := by
  cases hflag : (r.bench a).axis.calibrated with
  | true =>
      refine ⟨r, ?_, hr, (benchRound_of_calibrated hflag).symm, rfl⟩
      rw [atPart_of_calibrated hflag]
      exact .refl
  | false =>
      -- the count and the step come first; the switches are read where the carriage then is
      have hr₁ : (r.set a (r.bench a).axis.count).motors.engine.Resting := by simpa using hr
      have hflag₁ : ((r.set a (r.bench a).axis.count).bench a).axis.calibrated = false := by
        rw [bench_set]
        exact hflag
      have hnext := next_start t hr₁ hflag₁ (.step a) rfl
      have hround : benchRound (t a) a.divisor (r.bench a) = axisPart (t a) a.divisor (r.bench a) := by
        simp only [benchRound, hflag, Bool.not_false, if_true]
      set r₁ := (r.set a (r.bench a).axis.count).stepped a with hstepped
      have hr₂ : r₁.motors.engine.Resting := resting_stepped hr₁ a
      have hbench : r₁.bench a = { r.bench a with axis := (r.bench a).axis.count }.step := by
        rw [hstepped, bench_stepped, bench_set]
      have hother : r₁.bench a.other = r.bench a.other := by
        rw [hstepped, bench_stepped_other, bench_set_other]
      rw [hround, axisPart, ← hbench, ← hother, atPart_of_uncalibrated hflag]
      rw [calibrateResume, limitStart_readings, limitEnd_readings] at hnext
      by_cases hstart : (r₁.bench a).limitStart (t a)
      · rw [if_pos (by simpa using hstart)] at hnext
        refine ⟨r₁.set a (r₁.bench a).axis.turnRound, .single ?_, by simpa using hr₂, ?_, by simp⟩
        · rw [hnext, axis_bench]
          rfl
        · rw [if_pos hstart, bench_set]
      · rw [if_neg (by simpa using hstart)] at hnext
        rw [if_neg hstart]
        by_cases hend : (r₁.bench a).limitEnd (t a)
        · rw [if_pos (by simpa using hend)] at hnext
          rw [if_pos hend]
          obtain ⟨r', hreach, hr', hbench', hother'⟩ := reaches_backOff t a
            ⌈((r₁.bench a).axis.stepsTaken : ℚ) * (2 / 100)⌉₊ 0 hr₂
            (by rw [hbench]; exact hflag) (by rw [zero_add]; exact Nat.le_ceil _)
          exact ⟨r', .head hnext hreach, hr', hbench', hother'⟩
        · rw [if_neg (by simpa using hend)] at hnext
          rw [if_neg hend]
          exact ⟨r₁, .single hnext, hr₂, rfl, rfl⟩

/-- **One round of the calibration loop.** -/
theorem reaches_round (t : Axis → Track) {r : Rig} (hr : r.motors.engine.Resting) :
    ∃ r' : Rig, Reaches t (r.atPart .x) (r'.atPart .x) ∧ r'.motors.engine.Resting ∧
      r'.benches = calibrateRound (t .x) (t .y) r.benches := by
  obtain ⟨r₁, hreach₁, hr₁, hx₁, hy₁⟩ := reaches_part t .x hr
  obtain ⟨r₂, hreach₂, hr₂, hy₂, hx₂⟩ := reaches_part t .y hr₁
  refine ⟨r₂, hreach₁.trans hreach₂, hr₂, ?_⟩
  have hx : r₂.bench .x = r₁.bench .x := hx₂
  have hy : r₁.bench .y = r.bench .y := hy₁
  rw [benches, hx, hy₂, hx₁, hy]
  rfl

theorem atPart_of_exit {r : Rig} (h : ¬ Uncalibrated r.benches) : r.atPart .x = (r, .done) := by
  simp only [Uncalibrated, Bool.or_eq_true, Bool.not_eq_true', not_or, Bool.not_eq_false] at h
  have hx : (r.motors.axis .x).calibrated = true := h.1
  have hy : (r.motors.axis .y).calibrated = true := h.2
  simp [atPart, calibrateFrom, hx, hy, Axis.other, goOn]

/-- The rounds of the loop, up to its exit. -/
theorem reaches_rounds (t : Axis → Track) {fuel : ℕ} {r : Rig} (hr : r.motors.engine.Resting)
    (hexit : ¬ Uncalibrated (whileLoop Uncalibrated (calibrateRound (t .x) (t .y)) fuel r.benches)) :
    ∃ r' : Rig, Reaches t (r.atPart .x) (r', .done) ∧ r'.motors.engine.Resting ∧
      r'.benches = whileLoop Uncalibrated (calibrateRound (t .x) (t .y)) fuel r.benches := by
  induction fuel generalizing r with
  | zero =>
      refine ⟨r, ?_, hr, rfl⟩
      rw [atPart_of_exit hexit]
      exact .refl
  | succ fuel ih =>
      by_cases h : Uncalibrated r.benches
      · obtain ⟨r₁, hreach₁, hr₁, hround⟩ := reaches_round t hr
        rw [whileLoop_succ_of h, ← hround] at hexit ⊢
        obtain ⟨r', hreach, hr', hbenches⟩ := ih hr₁ hexit
        exact ⟨r', hreach₁.trans hreach, hr', hbenches⟩
      · rw [whileLoop_of_not h]
        refine ⟨r, ?_, hr, rfl⟩
        rw [atPart_of_exit h]
        exact .refl

/-- **The cut-up task comes to the end of the whole one.** Served by the interrupt handler
at every wait, it ends with the globals and the carriages that `vCalibrate` ends with. -/
theorem reaches_vCalibrate (t : Axis → Track) {fuel : ℕ} {r : Rig}
    (hr : r.motors.engine.Resting)
    (hexit : ¬ Uncalibrated (vCalibrate (t .x) (t .y) fuel r.benches)) :
    ∃ r' : Rig, Reaches t (r, .ready) (r', .done) ∧ r'.motors.engine.Resting ∧
      r'.benches = vCalibrate (t .x) (t .y) fuel r.benches := by
  set r₁ : Rig := { r with motors := (r.motors.setDirection .x true).setDirection .y true }
  obtain ⟨r', hreach, hr', hbenches⟩ := reaches_rounds t (r := r₁) hr hexit
  exact ⟨r', .head rfl hreach, hr', hbenches⟩

/-- From power-up the task comes to its end, whatever the tracks and the carriages. -/
theorem reaches_done (t : Axis → Track) (x y : ℤ) : ∃ r' : Rig,
    Reaches t ({ x := x, y := y }, .ready) (r', .done) ∧ r'.motors.engine.Resting ∧
      r'.benches = { x := axisResult (t .x) areaYmm x, y := axisResult (t .y) areaXmm y } := by
  obtain ⟨fuel, hend⟩ := vCalibrate_eq (t .x) (t .y) x y
  have hresting : ({ x := x, y := y } : Rig).motors.engine.Resting := ⟨⟨rfl, rfl, rfl, rfl, rfl⟩, rfl⟩
  have hexit : ¬ Uncalibrated (vCalibrate (t .x) (t .y) fuel ({ x := x, y := y } : Rig).benches) := by
    rw [show ({ x := x, y := y } : Rig).benches = powerUp x y from rfl, hend]
    simp [Uncalibrated, axisResult_calibrated]
  obtain ⟨r', hreach, hr', hbenches⟩ := reaches_vCalibrate t hresting hexit
  exact ⟨r', hreach, hr', hbenches.trans hend⟩

end Rig

end Plotter
