import Mathlib.Data.Fintype.List
import Mathlib.Data.Fintype.Card
import Mathlib.Tactic.Common

/-!
# Ownership

Resources that are handed from one place to another. `holds k` lists the resources of place
`k`; there may be any number of places. If each resource is in one place to begin with, it
is in one place however they are handed on, and a place with a resource elsewhere has
room for it.

## Main definitions

* `Owned holds`: each resource is in exactly one place, and once there.
* `Owned.move`: the oldest resource of a place becomes the newest of another.
* `Owned.length_lt_card`: room for a resource that is elsewhere.
-/

namespace Lib

variable {ι κ : Type*}

/-- Each resource is in exactly one place, once. -/
structure Owned (holds : κ → List ι) : Prop where
  nodup : ∀ k, (holds k).Nodup
  unique : ∀ i k k', i ∈ holds k → i ∈ holds k' → k = k'
  somewhere : ∀ i, ∃ k, i ∈ holds k

namespace Owned

variable {holds holds' : κ → List ι}

theorem existsUnique (h : Owned holds) (i : ι) : ∃! k, i ∈ holds k := by
  obtain ⟨k, hk⟩ := h.somewhere i
  exact ⟨k, hk, fun k' hk' => h.unique i k' k hk' hk⟩

/-- The owner of a resource is the only one. -/
theorem not_mem_of_ne (h : Owned holds) {i : ι} {k k' : κ} (hk : i ∈ holds k) (hne : k' ≠ k) :
    i ∉ holds k' := fun hk' => hne (h.unique i k' k hk' hk)

/-- A place that lacks a resource holds less than all of them. -/
theorem length_lt_card [Fintype ι] (h : Owned holds) {i : ι} {k : κ} (hi : i ∉ holds k) :
    (holds k).length < Fintype.card ι := by
  have hnodup : (i :: holds k).Nodup := List.nodup_cons.mpr ⟨hi, h.nodup k⟩
  have hle := hnodup.length_le_card
  rw [List.length_cons] at hle
  omega

/-- Nothing is handed on. -/
theorem congr (h : Owned holds) (heq : ∀ k, holds' k = holds k) : Owned holds' := by
  rwa [funext heq]

/-- **Handing on.** The oldest resource of `src` becomes the newest of `dst`. -/
theorem move (h : Owned holds) (src dst : κ) (i : ι) (hne : src ≠ dst)
    (hsrc : holds src = i :: holds' src) (hdst : holds' dst = holds dst ++ [i])
    (hframe : ∀ k, k ≠ src → k ≠ dst → holds' k = holds k) : Owned holds' := by
  have hi : i ∈ holds src := by
    rw [hsrc]
    exact List.mem_cons_self
  have hnodup := h.nodup src
  rw [hsrc, List.nodup_cons] at hnodup
  have hother : ∀ k, k ≠ src → i ∉ holds k := fun k hk => h.not_mem_of_ne hi hk
  -- who holds `j` afterwards
  have hmem : ∀ j k, j ∈ holds' k ↔ (j = i ∧ k = dst) ∨ (j ≠ i ∧ j ∈ holds k) := by
    intro j k
    by_cases hks : k = src
    · subst hks
      rw [hsrc, List.mem_cons]
      have hji : j ∈ holds' k → j ≠ i := fun hj heq => hnodup.1 (heq ▸ hj)
      have := @hne
      tauto
    by_cases hkd : k = dst
    · subst hkd
      rw [hdst, List.mem_append, List.mem_singleton]
      have hji : j ∈ holds k → j ≠ i := fun hj heq => hother k hks (heq ▸ hj)
      tauto
    · rw [hframe k hks hkd]
      have hji : j ∈ holds k → j ≠ i := fun hj heq => hother k hks (heq ▸ hj)
      tauto
  refine ⟨fun k => ?_, fun j k k' hk hk' => ?_, fun j => ?_⟩
  · by_cases hks : k = src
    · rw [hks]
      exact hnodup.2
    by_cases hkd : k = dst
    · rw [hkd, hdst, List.nodup_append]
      refine ⟨h.nodup dst, List.nodup_singleton i, fun a ha b hb => ?_⟩
      rintro rfl
      exact hother dst hne.symm (List.mem_singleton.mp hb ▸ ha)
    · rw [hframe k hks hkd]
      exact h.nodup k
  · rw [hmem] at hk hk'
    rcases hk with ⟨rfl, rfl⟩ | ⟨hji, hk⟩
    · rcases hk' with ⟨-, rfl⟩ | ⟨hji, -⟩
      · rfl
      · exact absurd rfl hji
    · rcases hk' with ⟨rfl, -⟩ | ⟨-, hk'⟩
      · exact absurd rfl hji
      · exact h.unique j k k' hk hk'
  · by_cases hji : j = i
    · exact ⟨dst, (hmem j dst).mpr (.inl ⟨hji, rfl⟩)⟩
    · obtain ⟨k, hk⟩ := h.somewhere j
      exact ⟨k, (hmem j k).mpr (.inr ⟨hji, hk⟩)⟩

end Owned

end Lib
