import Mathlib.Algebra.Order.Floor.Semiring
import Mathlib.Logic.Function.Iterate
import Mathlib.Tactic.Common

/-!
# Loops with fuel

`whileLoop c f fuel s` is `while (c) f`, cut off after `fuel` rounds. A loop whose
guard is false in the state it returns was not cut off: every larger amount of
fuel gives the same state, so that state is *the* result of the loop.

## Main definitions

* `whileLoop c f fuel s`: at most `fuel` rounds of the body `f` while `c` holds.
* `whileLoop_eq_iterate_of_exit`: the loop as a number of iterations of its body.
* `whileLoop_stable`, `whileLoop_exit_unique`: past the exit fuel does not matter.
* `whileLoop_count`: a loop that counts up to a fixed bound.
-/

namespace Lib

variable {σ : Type*} (c : σ → Prop) [DecidablePred c] (f : σ → σ)

/-- `while (c s) s = f s`, cut off after `fuel` rounds. -/
def whileLoop : ℕ → σ → σ
  | 0, s => s
  | fuel + 1, s => if c s then whileLoop fuel (f s) else s

variable {c f}

theorem whileLoop_of_not {s : σ} (h : ¬ c s) (fuel : ℕ) : whileLoop c f fuel s = s := by
  cases fuel <;> simp [whileLoop, h]

theorem whileLoop_succ_of {s : σ} (h : c s) (fuel : ℕ) :
    whileLoop c f (fuel + 1) s = whileLoop c f fuel (f s) := by
  simp [whileLoop, h]

/-- Rounds compose: running on from where a shorter run was cut off. -/
theorem whileLoop_add (m n : ℕ) (s : σ) :
    whileLoop c f (m + n) s = whileLoop c f n (whileLoop c f m s) := by
  induction m generalizing s with
  | zero => simp [whileLoop]
  | succ m ih =>
      by_cases hc : c s
      · rw [Nat.add_right_comm, whileLoop_succ_of hc, whileLoop_succ_of hc, ih]
      · simp only [whileLoop_of_not hc]

/-- Once the guard is false, more fuel changes nothing. -/
theorem whileLoop_stable {m n : ℕ} {s : σ} (h : ¬ c (whileLoop c f m s)) (hmn : m ≤ n) :
    whileLoop c f n s = whileLoop c f m s := by
  obtain ⟨k, rfl⟩ := Nat.exists_eq_add_of_le hmn
  rw [whileLoop_add, whileLoop_of_not h]

/-- Two runs that both reach the exit reach the same state. -/
theorem whileLoop_exit_unique {m n : ℕ} {s : σ} (hm : ¬ c (whileLoop c f m s))
    (hn : ¬ c (whileLoop c f n s)) : whileLoop c f m s = whileLoop c f n s := by
  rcases Nat.le_total m n with h | h
  · exact (whileLoop_stable hm h).symm
  · exact whileLoop_stable hn h

/-- While the guard stays true the loop is plain iteration of its body. -/
theorem whileLoop_eq_iterate {n : ℕ} {s : σ} (h : ∀ i < n, c (f^[i] s)) :
    whileLoop c f n s = f^[n] s := by
  induction n generalizing s with
  | zero => rfl
  | succ n ih =>
      have h0 : c s := h 0 n.succ_pos
      rw [whileLoop_succ_of h0, Function.iterate_succ_apply]
      refine ih fun i hi => ?_
      simpa [Function.iterate_succ_apply] using h (i + 1) (by omega)

/-- A loop left after exactly `n` rounds has iterated its body `n` times, however
much fuel beyond `n` it was given. -/
theorem whileLoop_eq_iterate_of_exit {n fuel : ℕ} {s : σ} (h : ∀ i < n, c (f^[i] s))
    (hexit : ¬ c (f^[n] s)) (hfuel : n ≤ fuel) : whileLoop c f fuel s = f^[n] s := by
  rw [← whileLoop_eq_iterate h] at hexit ⊢
  exact whileLoop_stable hexit hfuel

/-- A body that leaves exit states alone may be iterated past the exit. -/
theorem whileLoop_eq_iterate_of_fixed (hfix : ∀ t, ¬ c t → f t = t) (n : ℕ) (s : σ) :
    whileLoop c f n s = f^[n] s := by
  induction n generalizing s with
  | zero => rfl
  | succ n ih =>
      by_cases hc : c s
      · rw [whileLoop_succ_of hc, ih, Function.iterate_succ_apply]
      · rw [whileLoop_of_not hc, Function.iterate_fixed (hfix s hc)]

/-! ## Loops that count -/

/-- `for (i = 0; i < bound s; i++) s = body s`, where the body leaves the bound alone: the
loop makes `⌈bound s⌉₊` rounds. -/
theorem whileLoop_count {K : Type*} [Semiring K] [LinearOrder K] [FloorSemiring K]
    (bound : σ → K) (body : σ → σ) {g : ℕ × σ → Prop} [DecidablePred g]
    (hg : ∀ i s, g (i, s) ↔ (i : K) < bound s) (hb : ∀ s, bound (body s) = bound s) (s : σ) :
    (whileLoop g (fun p => (p.1 + 1, body p.2)) ⌈bound s⌉₊ (0, s)).2 = body^[⌈bound s⌉₊] s := by
  have hiter : ∀ i, (fun p : ℕ × σ => (p.1 + 1, body p.2))^[i] (0, s) = (i, body^[i] s) := by
    intro i
    induction i with
    | zero => rfl
    | succ i ih => rw [Function.iterate_succ_apply', ih, Function.iterate_succ_apply']
  have hbound : ∀ i, bound (body^[i] s) = bound s := by
    intro i
    induction i with
    | zero => rfl
    | succ i ih => rw [Function.iterate_succ_apply', hb, ih]
  rw [whileLoop_eq_iterate_of_exit (n := ⌈bound s⌉₊) ?_ ?_ le_rfl, hiter]
  · intro i hi
    rw [hiter, hg, hbound]
    exact Nat.lt_ceil.mp hi
  · rw [hiter, hg, hbound]
    exact not_lt.mpr (Nat.le_ceil _)

end Lib
