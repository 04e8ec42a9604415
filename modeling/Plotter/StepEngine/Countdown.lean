import Mathlib.Order.Nat
import Plotter.StepEngine

/-!
# The step counters run out

`RIT_start` waits until the handler has counted both counters down. An axis that is
calibrated while the other one is not keeps its counter, so a wait for it would not end;
where its count is zero, every interrupt takes one off every counter that is not yet zero,
or all of it at a limit switch, and the interrupt that finds both at zero stops the timer.

## Main definitions

* `Engine.left`, `Engine.driven`: the steps left of an axis, and its calls of `driveISR`.
* `Gives`: the handler gives `sbRIT`.
* `Startable`: the flags and counts with which a wait ends.
* `RIT_start_idle`: `RIT_start` returns.
* `step_counter_runs_out`: a wait, interrupt by interrupt.
-/

namespace Plotter

namespace Engine

/-- The steps left of an axis: its unsigned counter. -/
def left (e : Engine) (a : Axis) : ℕ := (e.steps a).toNat

/-- The calls of `driveISR` made for an axis: the writes to its step pin. -/
def driven (e : Engine) (a : Axis) : ℕ := (e.stepPin a).past.length

/-- Both counters are zero. -/
def Done (e : Engine) : Prop := ∀ a, e.left a = 0

theorem done_iff (e : Engine) : e.Done ↔ e.xSteps ≤ 0 ∧ e.ySteps ≤ 0 := by
  have hzero : ∀ v : BitVec 32, v.toNat = 0 ↔ v ≤ 0 := by
    intro v
    rw [BitVec.le_def]
    simp
  rw [← hzero, ← hzero]
  constructor
  · intro h
    exact ⟨h .x, h .y⟩
  · intro h a
    cases a with
    | x => exact h.1
    | y => exact h.2

instance (e : Engine) : Decidable e.Done := decidable_of_iff _ e.done_iff.symm

theorem left_eq_zero (e : Engine) (a : Axis) : e.left a = 0 ↔ e.steps a = 0 := by
  rw [left, ← BitVec.toNat_inj]
  simp

section CountDown
variable (a : Axis) (limited : Bool) (e : Engine)

theorem driven_countDown : (e.countDown a limited).driven a =
    e.driven a + if e.steps a = 0 ∨ limited then 0 else 1 := by
  by_cases h0 : e.steps a = 0
  · simp [countDown, h0]
  · have hpos : e.steps a > 0 := (BitVec.pos_iff_ne_zero _).mpr h0
    rw [countDown, if_pos hpos]
    cases limited with
    | false =>
        have hfree : ¬ (e.steps a = 0 ∨ false = true) := by simpa using h0
        rw [if_neg hfree]
        cases a <;> rfl
    | true =>
        have hheld : e.steps a = 0 ∨ true = true := Or.inr rfl
        rw [if_pos hheld]
        cases a <;> rfl

theorem driven_countDown_of_ne {a b : Axis} (h : a ≠ b) :
    (e.countDown a limited).driven b = e.driven b := by
  unfold countDown
  cases a <;> cases b <;> first | exact absurd rfl h | (split_ifs <;> rfl)

@[simp] theorem driven_stopIfDone : e.stopIfDone.driven a = e.driven a := by
  unfold stopIfDone
  cases a <;> split_ifs <;> rfl

@[simp] theorem irq_countDown : (e.countDown a limited).irq = e.irq := by
  unfold countDown
  cases a <;> split_ifs <;> rfl

theorem stopIfDone_eq : e.stopIfDone =
    { e with timer := e.timer && !decide e.Done, sbRIT := e.sbRIT || decide e.Done } := by
  by_cases h : e.Done
  · rw [stopIfDone, if_pos (e.done_iff.mp h), decide_eq_true h]
    simp
  · rw [stopIfDone, if_neg (mt e.done_iff.mpr h), decide_eq_false h]
    simp

@[simp] theorem done_stopIfDone : e.stopIfDone.Done ↔ e.Done := by
  simp only [Done, left, steps_stopIfDone]

end CountDown

end Engine

/-! ## One interrupt -/

/-- **The calls of `driveISR`.** An axis whose counter goes down by one is driven once. -/
theorem RIT_IRQHandler_driven (fl : Flags) (rd : Readings) (e : Engine) (a : Axis) :
    (RIT_IRQHandler fl rd e).driven a = e.driven a +
      if fl.on a && !fl.on a.other then 0
      else if e.steps a = 0 ∨ fl.on a && rd.active a then 0 else 1 := by
  obtain ⟨xCalibrated, yCalibrated⟩ := fl
  rw [RIT_IRQHandler_eq, Engine.driven_stopIfDone]
  cases a <;> cases xCalibrated <;> cases yCalibrated <;>
    simp [Flags.on, Axis.other, Engine.driven_countDown, Engine.driven_countDown_of_ne,
      Engine.steps_countDown_of_ne]

/-- The handler stops the timer and gives `sbRIT` when it leaves both counters at zero. -/
theorem RIT_IRQHandler_stops (fl : Flags) (rd : Readings) (e : Engine) :
    (RIT_IRQHandler fl rd e).timer = (e.timer && !decide (RIT_IRQHandler fl rd e).Done) ∧
      (RIT_IRQHandler fl rd e).sbRIT = (e.sbRIT || decide (RIT_IRQHandler fl rd e).Done) ∧
      (RIT_IRQHandler fl rd e).irq = e.irq := by
  have hstop : ∀ e' : Engine, e'.timer = e.timer → e'.sbRIT = e.sbRIT → e'.irq = e.irq →
      e'.stopIfDone.timer = (e.timer && !decide e'.stopIfDone.Done) ∧
      e'.stopIfDone.sbRIT = (e.sbRIT || decide e'.stopIfDone.Done) ∧
      e'.stopIfDone.irq = e.irq := by
    intro e' ht hs hi
    simp only [Engine.done_stopIfDone]
    rw [e'.stopIfDone_eq, ← ht, ← hs, ← hi]
    exact ⟨rfl, rfl, rfl⟩
  obtain ⟨xCalibrated, yCalibrated⟩ := fl
  rw [RIT_IRQHandler_eq]
  apply hstop
  · cases xCalibrated <;> cases yCalibrated <;> simp
  · cases xCalibrated <;> cases yCalibrated <;> simp
  · cases xCalibrated <;> cases yCalibrated <;> simp

/-- The handler gives `sbRIT`: the semaphore is there even if it was not before. -/
def Gives (fl : Flags) (rd : Readings) (e : Engine) : Prop :=
  (RIT_IRQHandler fl rd { e with sbRIT := false }).sbRIT = true

theorem gives_iff (fl : Flags) (rd : Readings) (e : Engine) :
    Gives fl rd e ↔ (RIT_IRQHandler fl rd e).Done := by
  have hleft : ∀ a, (RIT_IRQHandler fl rd { e with sbRIT := false }).left a =
      (RIT_IRQHandler fl rd e).left a := by
    intro a
    rw [Engine.left, Engine.left, RIT_IRQHandler_steps, RIT_IRQHandler_steps]
    cases a <;> rfl
  rw [Gives, (RIT_IRQHandler_stops ..).2.1, Bool.false_or, decide_eq_true_eq]
  simp only [Engine.Done, hleft]

/-- The counter of axis `a` is not held above zero: an axis that is calibrated alone keeps its
counter. -/
def Engine.Unheld (fl : Flags) (e : Engine) (a : Axis) : Prop :=
  fl.on a = true → fl.on a.other = false → e.left a = 0

/-- **One interrupt on one axis.** The counter goes down unless it is zero, and a call of
`driveISR` is paid with one step of it; a limit switch that is consulted takes the rest. -/
theorem RIT_IRQHandler_left {fl : Flags} {rd : Readings} {e : Engine} {a : Axis}
    (hunheld : e.Unheld fl a) :
    (RIT_IRQHandler fl rd e).left a ≤ e.left a - 1 ∧
      (RIT_IRQHandler fl rd e).driven a + (RIT_IRQHandler fl rd e).left a ≤
        e.driven a + e.left a ∧
      ((fl.on a = true → fl.on a.other = true → e.left a ≠ 0 → rd.active a = false) →
        (RIT_IRQHandler fl rd e).driven a + (RIT_IRQHandler fl rd e).left a =
          e.driven a + e.left a) := by
  rw [Engine.left, RIT_IRQHandler_steps, RIT_IRQHandler_driven]
  by_cases hheld : (fl.on a && !fl.on a.other) = true
  · have hzero : (e.steps a).toNat = 0 := by
      simp only [Bool.and_eq_true, Bool.not_eq_true'] at hheld
      exact hunheld hheld.1 hheld.2
    simp [hheld, Engine.left, hzero]
  · rw [if_neg hheld, if_neg hheld]
    by_cases hzero : e.steps a = 0
    · simp [hzero, Engine.left]
    · have hpos : 0 < (e.steps a).toNat :=
        Nat.pos_of_ne_zero fun h => hzero ((e.left_eq_zero a).mp h)
      by_cases hlimit : (fl.on a && rd.active a) = true
      · refine ⟨by simp [hlimit], by simp [hlimit], fun hquiet => ?_⟩
        simp only [Bool.and_eq_true, Bool.not_eq_true', not_and, Bool.not_eq_false] at hheld hlimit
        rw [hquiet hlimit.1 (hheld hlimit.1) hpos.ne'] at hlimit
        exact absurd hlimit.2 Bool.false_ne_true
      · -- the counter is positive and no switch stops it: one call, one step
        have hdec : (e.steps a - 1).toNat = (e.steps a).toNat - 1 := by bv_omega
        have hgo : ¬ (e.steps a = 0 ∨ (fl.on a && rd.active a) = true) := by
          intro h
          exact h.elim hzero hlimit
        rw [if_neg hzero, if_neg hlimit, if_neg hgo, hdec, Engine.left]
        omega

theorem Flags.eq_both {fl : Flags} {a : Axis} (hon : fl.on a = true)
    (hother : fl.on a.other = true) : fl = .both := by
  obtain ⟨xCalibrated, yCalibrated⟩ := fl
  cases a with
  | x =>
      obtain rfl : xCalibrated = true := hon
      obtain rfl : yCalibrated = true := hother
      rfl
  | y =>
      obtain rfl : yCalibrated = true := hon
      obtain rfl : xCalibrated = true := hother
      rfl

/-! ## The interrupts of a wait -/

/-- One more interrupt is served if the timer was not stopped before. -/
theorem interrupts_succ (fl : Flags) (rd : ℕ → Readings) (k i : ℕ) (e : Engine) :
    interrupts fl rd (k + 1) i e =
      if (interrupts fl rd k i e).timer && (interrupts fl rd k i e).irq then
        RIT_IRQHandler fl (rd (i + k)) (interrupts fl rd k i e)
      else interrupts fl rd k i e := by
  induction k generalizing i e with
  | zero => rfl
  | succ k ih =>
      by_cases h : (e.timer && e.irq) = true
      · have hfirst : ∀ j, interrupts fl rd (j + 1) i e =
            interrupts fl rd j (i + 1) (RIT_IRQHandler fl (rd i) e) := by
          intro j
          rw [interrupts, if_pos h]
        rw [hfirst, hfirst, ih, Nat.add_right_comm, Nat.add_assoc i k 1]
      · have hnone : ∀ j, interrupts fl rd j i e = e := by
          intro j
          cases j with
          | zero => rfl
          | succ j => rw [interrupts, if_neg h]
        rw [hnone, hnone, if_neg h]

/-- The count that `RIT_start` is called with for an axis. -/
def asked (xCount yCount : ℤ) : Axis → ℕ
  | .x => xCount.toNat
  | .y => yCount.toNat

/-- The flags and counts with which a wait ends: both axes are calibrated, or none, or the
one that is calibrated alone is not to move. -/
def Startable (fl : Flags) (xCount yCount : ℤ) : Prop :=
  fl.xCalibrated = fl.yCalibrated ∨
  (fl.xCalibrated = false ∧ fl.yCalibrated = true ∧ yCount = 0) ∨
  (fl.xCalibrated = true ∧ fl.yCalibrated = false ∧ xCount = 0)

/-- The axis that is calibrated alone is asked for no step. -/
theorem Startable.asked_eq_zero {fl : Flags} {n m : ℤ} (h : Startable fl n m) {a : Axis}
    (hon : fl.on a = true) (hother : fl.on a.other = false) : asked n m a = 0 := by
  obtain ⟨xCalibrated, yCalibrated⟩ := fl
  cases a with
  | x =>
      obtain rfl : xCalibrated = true := hon
      obtain rfl : yCalibrated = false := hother
      have hn : n = 0 := by simpa [Startable] using h
      simp [asked, hn]
  | y =>
      obtain rfl : yCalibrated = true := hon
      obtain rfl : xCalibrated = false := hother
      have hm : m = 0 := by simpa [Startable] using h
      simp [asked, hm]

/-- After `k` interrupts of a wait on the engine `e₀` that was asked for `c` steps: an axis has
lost one step of its counter by every interrupt, and paid its calls of `driveISR` from it. -/
structure CountedDown (c : Axis → ℕ) (e₀ : Engine) (k : ℕ) (e : Engine) : Prop where
  irq_eq : e.irq = true
  done : e.timer = false → e.Done
  left_le : ∀ a, e.left a ≤ c a - k
  driven_le : ∀ a, e.driven a + e.left a ≤ e₀.driven a + c a

theorem left_begin {n m : ℤ} (hn : 0 ≤ n ∧ n < 2147483648) (hm : 0 ≤ m ∧ m < 2147483648)
    (e : Engine) (a : Axis) : (RIT_begin n m e).left a = asked n m a := by
  have hfit : ∀ i : ℤ, 0 ≤ i ∧ i < 2147483648 → (BitVec.ofInt 32 i).toNat = i.toNat := by
    intro i hi
    rw [BitVec.toNat_ofInt]
    omega
  cases a with
  | x => exact hfit n hn
  | y => exact hfit m hm

theorem driven_begin (n m : ℤ) (e : Engine) (a : Axis) :
    (RIT_begin n m e).driven a = e.driven a := by cases a <;> rfl

namespace CountedDown
variable {fl : Flags} {rd : Readings} {c : Axis → ℕ} {e₀ e : Engine} {k : ℕ}

/-- One interrupt more. -/
theorem interrupt (h : CountedDown c e₀ k e) (hunheld : ∀ a, e.Unheld fl a)
    (hrun : e.timer = true) : CountedDown c e₀ (k + 1) (RIT_IRQHandler fl rd e) where
  irq_eq := by rw [(RIT_IRQHandler_stops fl rd e).2.2, h.irq_eq]
  done := by
    intro hstop
    rw [(RIT_IRQHandler_stops fl rd e).1, hrun] at hstop
    simpa using hstop
  left_le := by
    intro a
    have hleft := h.left_le a
    have hstep := (@RIT_IRQHandler_left fl rd e a (hunheld a)).1
    omega
  driven_le := by
    intro a
    exact (RIT_IRQHandler_left (hunheld a)).2.1.trans (h.driven_le a)

/-- A stopped timer makes no interrupt, and there is nothing left to count. -/
theorem rest (h : CountedDown c e₀ k e) (hstop : e.timer = false) :
    CountedDown c e₀ (k + 1) e where
  irq_eq := h.irq_eq
  done := h.done
  left_le := by
    intro a
    rw [h.done hstop a]
    exact Nat.zero_le _
  driven_le := h.driven_le

/-- An axis that keeps its counter was asked for no step. -/
theorem unheld {n m : ℤ} (h : CountedDown (asked n m) e₀ k e) (hfl : Startable fl n m) (a : Axis) :
    e.Unheld fl a := by
  intro hon hother
  have hleft := h.left_le a
  rw [hfl.asked_eq_zero hon hother] at hleft
  omega

end CountedDown

section Wait
variable {fl : Flags} {rd : ℕ → Readings} {n m : ℤ} {e : Engine}

/-- The engine after `k` interrupts of the wait of `RIT_start(n, m, us)`. -/
def waited (fl : Flags) (rd : ℕ → Readings) (n m : ℤ) (e : Engine) (k : ℕ) : Engine :=
  interrupts fl rd k 0 (RIT_begin n m e)

/-- While the timer runs, the next interrupt is a run of the handler. -/
theorem waited_succ {k : ℕ} (hrun : (waited fl rd n m e k).timer = true)
    (hirq : (waited fl rd n m e k).irq = true) :
    waited fl rd n m e (k + 1) = RIT_IRQHandler fl (rd k) (waited fl rd n m e k) := by
  rw [waited] at hrun hirq
  rw [waited, interrupts_succ, hrun, hirq, Nat.zero_add]
  rfl

/-- A stopped timer makes no interrupt. -/
theorem waited_of_stopped {k : ℕ} (hstop : (waited fl rd n m e k).timer = false) :
    waited fl rd n m e (k + 1) = waited fl rd n m e k := by
  rw [waited] at hstop
  rw [waited, interrupts_succ, hstop]
  rfl

/-- Nothing happens after the timer was stopped. -/
theorem waited_of_le {K k : ℕ} (hstop : (waited fl rd n m e K).timer = false) (hk : K ≤ k) :
    waited fl rd n m e k = waited fl rd n m e K := by
  induction k, hk using Nat.le_induction with
  | base => rfl
  | succ k hk ih => rw [waited_of_stopped (by rw [ih, hstop]), ih]

/-- No switch of axis `a` is read active in the first `k` interrupts: the switches are
consulted only with both axes calibrated, and for a counter that is not zero. -/
def Quiet (fl : Flags) (rd : ℕ → Readings) (n m : ℤ) (e : Engine) (a : Axis) (k : ℕ) : Prop :=
  ∀ j < k, fl = .both → (waited fl rd n m e j).left a ≠ 0 → (rd j).active a = false

section Counts
variable (hn : 0 ≤ n ∧ n < 2147483648) (hm : 0 ≤ m ∧ m < 2147483648) (hfl : Startable fl n m)
include hn hm hfl

theorem countedDown_waited (k : ℕ) : CountedDown (asked n m) e k (waited fl rd n m e k) := by
  induction k with
  | zero =>
      refine ⟨rfl, fun h => ?_, fun a => ?_, fun a => ?_⟩
      · cases h
      · exact (left_begin hn hm e a).le
      · rw [waited, interrupts, left_begin hn hm, driven_begin]
  | succ k ih =>
      cases hrun : (waited fl rd n m e k).timer with
      | true =>
          rw [waited_succ hrun ih.irq_eq]
          exact ih.interrupt (ih.unheld hfl) hrun
      | false =>
          rw [waited_of_stopped hrun]
          exact ih.rest hrun

/-- After an interrupt the timer is stopped just if both counters are zero. -/
theorem stopped_iff_done (k : ℕ) :
    (waited fl rd n m e (k + 1)).timer = false ↔ (waited fl rd n m e (k + 1)).Done := by
  have hcount := @countedDown_waited fl rd n m e hn hm hfl
  constructor
  · exact (hcount (k + 1)).done
  · intro hdone
    cases hrun : (waited fl rd n m e k).timer with
    | true =>
        rw [waited_succ hrun (hcount k).irq_eq] at hdone ⊢
        rw [(RIT_IRQHandler_stops ..).1, decide_eq_true hdone, Bool.not_true, Bool.and_false]
    | false => rw [waited_of_stopped hrun, hrun]

/-- The timer is stopped after as many interrupts as there are steps to make, or one. -/
theorem stopped_waited : (waited fl rd n m e (max 1 (max n.toNat m.toNat))).timer = false := by
  have hsucc : max 1 (max n.toNat m.toNat) = max 1 (max n.toNat m.toNat) - 1 + 1 := by omega
  rw [hsucc, stopped_iff_done hn hm hfl, ← hsucc]
  intro a
  have hcount := @countedDown_waited fl rd n m e hn hm hfl (max 1 (max n.toNat m.toNat))
  have hleft := hcount.left_le a
  cases a with
  | x =>
      simp only [asked] at hleft
      omega
  | y =>
      simp only [asked] at hleft
      omega

/-- The interrupt that stops the timer. -/
theorem exists_last : ∃ K, 0 < K ∧ K ≤ max 1 (max n.toNat m.toNat) ∧
    (waited fl rd n m e K).timer = false ∧ ∀ k < K, (waited fl rd n m e k).timer = true := by
  have hends : ∃ k, (waited fl rd n m e k).timer = false := ⟨_, stopped_waited hn hm hfl⟩
  refine ⟨Nat.find hends, ?_, ?_, Nat.find_spec hends, ?_⟩
  · rw [Nat.find_pos]
    exact Bool.noConfusion
  · exact Nat.find_min' hends (stopped_waited hn hm hfl)
  · intro k hk
    exact Bool.of_not_eq_false (Nat.find_min hends hk)

/-- What an interrupt does while the timer runs: no counter goes up, and the handler gives
`sbRIT` just if it stops the timer. -/
theorem waited_interrupt {k : ℕ} (hrun : (waited fl rd n m e k).timer = true) :
    waited fl rd n m e (k + 1) = RIT_IRQHandler fl (rd k) (waited fl rd n m e k) ∧
      (∀ a, (waited fl rd n m e (k + 1)).left a ≤ (waited fl rd n m e k).left a) ∧
      (Gives fl (rd k) (waited fl rd n m e k) ↔ (waited fl rd n m e (k + 1)).timer = false) := by
  have hcount := @countedDown_waited fl rd n m e hn hm hfl k
  have hnext := waited_succ hrun hcount.irq_eq
  refine ⟨hnext, fun a => ?_, ?_⟩
  · rw [hnext]
    exact (RIT_IRQHandler_left (hcount.unheld hfl a)).1.trans (Nat.sub_le _ 1)
  · rw [gives_iff, ← hnext, stopped_iff_done hn hm hfl]

/-- Without a switch every step that left the counter is a call of `driveISR`. -/
theorem driven_of_quiet {a : Axis} {k : ℕ} (hquiet : Quiet fl rd n m e a k) :
    (waited fl rd n m e k).driven a + (waited fl rd n m e k).left a =
      e.driven a + asked n m a := by
  induction k with
  | zero => rw [waited, interrupts, left_begin hn hm, driven_begin]
  | succ k ih =>
      have hbefore := ih fun j hj => hquiet j (Nat.lt_succ_of_lt hj)
      have hcount := @countedDown_waited fl rd n m e hn hm hfl k
      cases hrun : (waited fl rd n m e k).timer with
      | true =>
          rw [waited_succ hrun hcount.irq_eq, ← hbefore]
          apply (RIT_IRQHandler_left (hcount.unheld hfl a)).2.2
          intro hon hother
          exact hquiet k (Nat.lt_succ_self k) (Flags.eq_both hon hother)
      | false => rw [waited_of_stopped hrun, hbefore]

/-- `RIT_start` returns with the engine idle: the interrupts it is given are enough. -/
theorem RIT_start_idle : (RIT_start fl rd n m e).Idle := by
  have hstop := @stopped_waited fl rd n m e hn hm hfl
  have hdone := (countedDown_waited hn hm hfl _).done hstop
  exact ⟨(Engine.left_eq_zero _ .x).mp (hdone .x), (Engine.left_eq_zero _ .y).mp (hdone .y),
    hstop, rfl, rfl⟩

end Counts

/-- **The step counters run out.** With counts that fit an `int`, and unless an axis that keeps
its counter is asked to move, a wait takes at most as many interrupts as there are steps to
make, or one. Its last interrupt gives `sbRIT` and stops the timer, no other one gives it,
no counter ever goes up, and an axis is driven once for every step unless a switch cuts it. -/
theorem step_counter_runs_out (hn : 0 ≤ n ∧ n < 2147483648) (hm : 0 ≤ m ∧ m < 2147483648)
    (hfl : Startable fl n m) :
    let after := waited fl rd n m e
    ∃ K : ℕ, 0 < K ∧ K ≤ max 1 (max n m) ∧
      (after K).xSteps = 0 ∧ (after K).ySteps = 0 ∧
      (∀ k < K, (after k).timer = true ∧ after (k + 1) = RIT_IRQHandler fl (rd k) (after k) ∧
        (∀ a, ((after (k + 1)).steps a).toNat ≤ ((after k).steps a).toNat) ∧
        (Gives fl (rd k) (after k) ↔ k + 1 = K)) ∧
      (∀ k ≥ K, (after k).timer = false ∧ after k = after K) ∧
      (∀ a, (after K).driven a ≤ e.driven a + asked n m a) ∧
      (∀ a, Quiet fl rd n m e a K → (after K).driven a = e.driven a + asked n m a) := by
  intro after
  obtain ⟨K, hfirst, hle, hstop, hrun⟩ := @exists_last fl rd n m e hn hm hfl
  have hcount : CountedDown (asked n m) e K (after K) := countedDown_waited hn hm hfl K
  have hdone : (after K).Done := hcount.done hstop
  refine ⟨K, hfirst, by omega, ?_, ?_, ?_, ?_, ?_, ?_⟩
  · exact ((after K).left_eq_zero .x).mp (hdone .x)
  · exact ((after K).left_eq_zero .y).mp (hdone .y)
  · intro k hk
    obtain ⟨hnext, hleft, hgives⟩ := waited_interrupt hn hm hfl (hrun k hk)
    refine ⟨hrun k hk, hnext, hleft, hgives.trans ?_⟩
    constructor
    · intro hstopped
      by_contra hne
      have hrunning := hrun (k + 1) (by omega)
      rw [hstopped] at hrunning
      exact Bool.false_ne_true hrunning
    · intro hlast
      rw [hlast]
      exact hstop
  · intro k hk
    have hsame : after k = after K := waited_of_le hstop hk
    rw [hsame]
    exact ⟨hstop, rfl⟩
  · intro a
    exact (Nat.le_add_right _ _).trans (hcount.driven_le a)
  · intro a hquiet
    have hpaid := driven_of_quiet hn hm hfl hquiet
    rwa [hdone a, Nat.add_zero] at hpaid

end Wait

/-- Three steps of X and one of Y, with no switch active. -/
theorem step_counter_runs_out_three : ∃ K : ℕ, K ≤ 3 ∧
    (waited .both (fun _ => {}) 3 1 {} K).timer = false ∧
    (waited .both (fun _ => {}) 3 1 {} K).driven .x = 3 ∧
    (waited .both (fun _ => {}) 3 1 {} K).driven .y = 1 := by
  obtain ⟨K, -, hK, -, -, -, hrest, -, hexact⟩ :=
    @step_counter_runs_out .both (fun _ => {}) 3 1 {} (by omega) (by omega) (Or.inl rfl)
  have hquiet : ∀ a, Quiet .both (fun _ => {}) 3 1 {} a K := by
    intro a j hj hboth hleft
    cases a <;> rfl
  have hle : K ≤ 3 := by omega
  exact ⟨K, hle, (hrest K le_rfl).1, hexact .x (hquiet .x), hexact .y (hquiet .y)⟩

end Plotter
