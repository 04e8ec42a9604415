import Mathlib.Algebra.Order.Field.Basic
import Mathlib.Tactic.Linarith
import Mathlib.Tactic.Ring
import Mathlib.Tactic.NormNum

/-!
# Digital differential analysers

A digital differential analyser adds a fixed slope `δ` to an accumulated error at
every tick; when the error exceeds one half it emits and pays the emission with
one whole unit of error. Over `k` ticks it emits `k * δ` times, up to the change
of the error, and the error never leaves the half-open interval `(-1/2, 1/2]`.

The field is arbitrary; a program instantiates it at the numbers it computes with.

## Main definitions

* `dda δ k e`: the emissions of `k` ticks from the error `e`, and the final error.
* `InBand e`: the interval the error stays in.
* `dda_add`: runs compose.
* `dda_conservation`: error after = error before + `k * δ` − emissions.
* `dda_whole`: a whole number `k * δ` of units leaves the error as it was.
-/

namespace Lib

variable {K : Type*} [Field K] [LinearOrder K]

/-- The error after one tick, and whether the tick emitted. -/
def ddaTick (δ e : K) : Bool × K :=
  if 1 / 2 < e + δ then (true, e + δ - 1) else (false, e + δ)

/-- `k` ticks in a row: the emissions in order, and the error left behind. -/
def dda (δ : K) : ℕ → K → List Bool × K
  | 0, e => ([], e)
  | k + 1, e =>
    let tick := ddaTick δ e
    let rest := dda δ k tick.2
    (tick.1 :: rest.1, rest.2)

/-- The interval an analyser with a slope in `[0, 1]` keeps its error in. -/
def InBand (e : K) : Prop := -(1 / 2) < e ∧ e ≤ 1 / 2

/-- How often the ticks emitted. -/
def emissions (bs : List Bool) : ℕ := bs.count true

@[simp] theorem emissions_nil : emissions [] = 0 := rfl

theorem emissions_append (bs cs : List Bool) :
    emissions (bs ++ cs) = emissions bs + emissions cs := List.count_append

@[simp] theorem dda_zero (δ e : K) : dda δ 0 e = ([], e) := rfl

theorem dda_succ (δ : K) (k : ℕ) (e : K) :
    dda δ (k + 1) e =
      ((ddaTick δ e).1 :: (dda δ k (ddaTick δ e).2).1, (dda δ k (ddaTick δ e).2).2) := rfl

@[simp] theorem length_dda (δ : K) (k : ℕ) (e : K) : (dda δ k e).1.length = k := by
  induction k generalizing e with
  | zero => rfl
  | succ k ih => simp [dda_succ, ih]

/-- A run is a shorter run, and one that goes on from the error left behind. -/
theorem dda_add (δ : K) (k j : ℕ) (e : K) :
    dda δ (k + j) e =
      ((dda δ k e).1 ++ (dda δ j (dda δ k e).2).1, (dda δ j (dda δ k e).2).2) := by
  induction k generalizing e with
  | zero => simp
  | succ k ih => rw [Nat.add_right_comm, dda_succ, dda_succ, ih, List.cons_append]

theorem ddaTick_conservation (δ e : K) :
    (ddaTick δ e).2 = e + δ - emissions [(ddaTick δ e).1] := by
  by_cases h : 1 / 2 < e + δ
  · simp only [ddaTick, if_pos h]
    simp [emissions]
  · simp only [ddaTick, if_neg h]
    simp [emissions]

/-- **Conservation.** What the ticks add and do not emit stays in the error. -/
theorem dda_conservation (δ : K) (k : ℕ) (e : K) :
    (dda δ k e).2 = e + k * δ - emissions (dda δ k e).1 := by
  induction k generalizing e with
  | zero => simp
  | succ k ih =>
      have hsplit : emissions (dda δ (k + 1) e).1 =
          emissions [(ddaTick δ e).1] + emissions (dda δ k (ddaTick δ e).2).1 := by
        rw [dda_succ, ← emissions_append]; rfl
      rw [hsplit]
      simp only [dda_succ]
      rw [ih, ddaTick_conservation]
      push_cast
      ring

variable [IsStrictOrderedRing K] {δ : K}

theorem ddaTick_inBand (h0 : 0 ≤ δ) (h1 : δ ≤ 1) {e : K} (he : InBand e) :
    InBand (ddaTick δ e).2 := by
  obtain ⟨hlo, hhi⟩ := he
  by_cases h : 1 / 2 < e + δ
  · simp only [ddaTick, if_pos h]
    exact ⟨by linarith, by linarith⟩
  · simp only [ddaTick, if_neg h]
    exact ⟨by linarith, by linarith⟩

/-- **The band.** A slope in `[0, 1]` never drives the error out of `(-1/2, 1/2]`. -/
theorem dda_inBand (h0 : 0 ≤ δ) (h1 : δ ≤ 1) (k : ℕ) {e : K} (he : InBand e) :
    InBand (dda δ k e).2 := by
  induction k generalizing e with
  | zero => exact he
  | succ k ih => exact ih (ddaTick_inBand h0 h1 he)

theorem inBand_half : InBand (1 / 2 : K) := ⟨by linarith [one_half_pos (α := K)], le_rfl⟩

/-- Two errors in the band differ by less than one. -/
theorem InBand.abs_sub_lt {e e' : K} (he : InBand e) (he' : InBand e') : |e - e'| < 1 := by
  obtain ⟨hlo, hhi⟩ := he
  obtain ⟨hlo', hhi'⟩ := he'
  rw [abs_lt]
  constructor <;> linarith

/-- The number of emissions is within one of the ideal `k * δ`. -/
theorem abs_emissions_sub_lt (h0 : 0 ≤ δ) (h1 : δ ≤ 1) (k : ℕ) {e : K} (he : InBand e) :
    |(emissions (dda δ k e).1 : K) - k * δ| < 1 := by
  have hcons := dda_conservation δ k e
  have hband := he.abs_sub_lt (dda_inBand h0 h1 k he)
  have hdiff : (emissions (dda δ k e).1 : K) - k * δ = e - (dda δ k e).2 := by
    rw [hcons]; ring
  rwa [hdiff]

/-- **Whole displacements are exact.** Where the slope adds up to a whole number of
units over the run, exactly these are emitted and the error is what it was. -/
theorem dda_whole (h0 : 0 ≤ δ) (h1 : δ ≤ 1) {k n : ℕ} (hn : (k : K) * δ = n) {e : K}
    (he : InBand e) : emissions (dda δ k e).1 = n ∧ (dda δ k e).2 = e := by
  have hlt := abs_emissions_sub_lt h0 h1 k he
  rw [hn] at hlt
  have hem : emissions (dda δ k e).1 = n := by
    have hint : |((emissions (dda δ k e).1 : ℤ) - (n : ℤ) : ℤ)| < 1 := by
      have hcast : (((|((emissions (dda δ k e).1 : ℤ) - (n : ℤ))| : ℤ) : K)) < ((1 : ℤ) : K) := by
        push_cast
        exact hlt
      exact_mod_cast hcast
    have := Int.abs_lt_one_iff.mp hint
    omega
  refine ⟨hem, ?_⟩
  rw [dda_conservation, hem, hn]
  ring

end Lib
