import Mathlib.Data.List.Basic
import Mathlib.Tactic.Common

/-!
# Lines of a stream that arrives in chunks

A stream is cut into chunks at arbitrary places. `terminated sep` are the pieces of the
stream that a separator ends, in order. `chunkHeads sep` is what a reader sees that looks
at every chunk by itself: the part before the first separator of each chunk that has one.
The two agree only when the chunks are cut at the separators.

## Main definitions

* `terminated sep s`: the separator-terminated pieces of `s`.
* `chunkHeads sep chunks`: the first pieces of the chunks that contain a separator.
* `OneLineEach sep chunks`: every chunk that matters is one whole line.
* `chunkHeads_eq_terminated_iff`: the chunk-wise reader is right on exactly these.
-/

namespace Lib

variable {α : Type*} [DecidableEq α] (sep : α)

/-- The pieces of the stream that a separator ends. -/
def terminated (s : List α) : List (List α) := (s.splitOn sep).dropLast

/-- The first piece of every chunk that contains a separator. -/
def chunkHeads (chunks : List (List α)) : List (List α) :=
  (chunks.filter (sep ∈ ·)).map (List.takeWhile (· ≠ sep))

/-- No chunk has two separators, and a chunk with separators still to come after it ends
in one. -/
def OneLineEach (chunks : List (List α)) : Prop :=
  ∀ before c after, chunks = before ++ c :: after →
    c.count sep ≤ 1 ∧ (sep ∈ after.flatten → c.getLast? = some sep)

variable {sep}

theorem terminated_of_not_mem {s : List α} (h : sep ∉ s) : terminated sep s = [] := by
  rw [terminated, List.splitOn_eq_singleton h]
  rfl

theorem terminated_append_cons {l s : List α} (h : sep ∉ l) :
    terminated sep (l ++ sep :: s) = l :: terminated sep s := by
  rw [terminated, List.splitOn_append_cons_self_of_not_mem h,
    List.dropLast_cons_of_ne_nil (List.splitOn_ne_nil sep s)]
  rfl

/-- Pieces that are each ended by a separator are split again. -/
theorem terminated_flatMap {ls : List (List α)} (h : ∀ l ∈ ls, sep ∉ l) (t : List α) :
    terminated sep (ls.flatMap (· ++ [sep]) ++ t) = ls ++ terminated sep t := by
  induction ls with
  | nil => rfl
  | cons l ls ih =>
      rw [List.flatMap_cons, List.append_assoc, List.append_assoc, List.singleton_append,
        terminated_append_cons (h l List.mem_cons_self),
        ih fun l' hl' => h l' (List.mem_cons_of_mem l hl')]
      rfl

/-- What has arrived of a stream yields the first of its pieces. -/
theorem terminated_prefix {s t : List α} (h : s <+: t) : terminated sep s <+: terminated sep t := by
  induction hn : s.length using Nat.strongRecOn generalizing s t with
  | ind n ih =>
      by_cases hs : sep ∈ s
      · obtain ⟨l, r, rfl, hl⟩ := List.eq_append_cons_of_mem hs
        obtain ⟨u, rfl⟩ := h
        rw [List.append_assoc, List.cons_append, terminated_append_cons hl,
          terminated_append_cons hl]
        rw [List.length_append, List.length_cons] at hn
        have hrest := ih r.length (by omega) (List.prefix_append r u) rfl
        exact List.prefix_cons_inj l |>.mpr hrest
      · rw [terminated_of_not_mem hs]
        exact List.nil_prefix

theorem takeWhile_append_of_not_mem {l : List α} (h : sep ∉ l) (s : List α) :
    (l ++ s).takeWhile (· ≠ sep) = l ++ s.takeWhile (· ≠ sep) := by
  apply List.takeWhile_append_of_pos
  intro a ha
  simp only [ne_eq, decide_not, Bool.not_eq_true', decide_eq_false_iff_not]
  intro heq
  exact h (heq ▸ ha)

theorem takeWhile_append_cons {l s : List α} (h : sep ∉ l) :
    (l ++ sep :: s).takeWhile (· ≠ sep) = l := by
  rw [takeWhile_append_of_not_mem h]
  simp

theorem length_terminated (s : List α) : (terminated sep s).length = s.count sep := by
  induction hk : s.count sep generalizing s with
  | zero => rw [terminated_of_not_mem (List.count_eq_zero.mp hk), List.length_nil]
  | succ k ih =>
      have hmem : sep ∈ s := List.count_pos_iff.mp (by omega)
      obtain ⟨l, t, rfl, hl⟩ := List.eq_append_cons_of_mem hmem
      rw [List.count_append, List.count_cons_self, List.count_eq_zero_of_not_mem hl] at hk
      rw [terminated_append_cons hl, List.length_cons, ih t (by omega)]

theorem chunkHeads_cons_of_not_mem {c : List α} (h : sep ∉ c) (cs : List (List α)) :
    chunkHeads sep (c :: cs) = chunkHeads sep cs := by
  simp [chunkHeads, h]

theorem chunkHeads_cons {l t : List α} (h : sep ∉ l) (cs : List (List α)) :
    chunkHeads sep ((l ++ sep :: t) :: cs) = l :: chunkHeads sep cs := by
  rw [chunkHeads, List.filter_cons_of_pos (by simp), List.map_cons,
    takeWhile_append_cons h]
  rfl

theorem chunkHeads_of_not_mem {cs : List (List α)} (h : sep ∉ cs.flatten) :
    chunkHeads sep cs = [] := by
  induction cs with
  | nil => rfl
  | cons c cs ih =>
      rw [List.flatten_cons, List.mem_append, not_or] at h
      rw [chunkHeads_cons_of_not_mem h.1, ih h.2]

theorem length_chunkHeads_le (cs : List (List α)) :
    (chunkHeads sep cs).length ≤ cs.flatten.count sep := by
  induction cs with
  | nil => simp [chunkHeads]
  | cons c cs ih =>
      rw [List.flatten_cons, List.count_append]
      by_cases h : sep ∈ c
      · obtain ⟨l, t, rfl, hl⟩ := List.eq_append_cons_of_mem h
        rw [chunkHeads_cons hl, List.length_cons, List.count_append, List.count_cons_self]
        omega
      · rw [chunkHeads_cons_of_not_mem h]
        omega

/-- The first line that the chunk-wise reader sees is never longer than the stream up to
its first separator. -/
theorem length_head_chunkHeads_le {cs : List (List α)} {h : List α} {t : List (List α)}
    (heq : chunkHeads sep cs = h :: t) :
    h.length ≤ (cs.flatten.takeWhile (· ≠ sep)).length := by
  induction cs with
  | nil => simp [chunkHeads] at heq
  | cons c cs ih =>
      rw [List.flatten_cons]
      by_cases hc : sep ∈ c
      · obtain ⟨l, u, rfl, hl⟩ := List.eq_append_cons_of_mem hc
        rw [chunkHeads_cons hl, List.cons.injEq] at heq
        apply Nat.le_of_eq
        rw [List.append_assoc, List.cons_append, takeWhile_append_cons hl, heq.1]
      · rw [chunkHeads_cons_of_not_mem hc] at heq
        have hle := ih heq
        rw [takeWhile_append_of_not_mem hc, List.length_append]
        omega

/-- Bytes that precede the next chunk on the same line are missed: the reader is right
only if no line ends any more. -/
theorem chunkHeads_eq_terminated_append_iff {c : List α} (hne : c ≠ []) (hc : sep ∉ c)
    (cs : List (List α)) :
    chunkHeads sep cs = terminated sep (c ++ cs.flatten) ↔ sep ∉ cs.flatten := by
  constructor
  · intro heq hmem
    obtain ⟨l, t, hs, hl⟩ := List.eq_append_cons_of_mem hmem
    have hcl : sep ∉ c ++ l := by simp [hc, hl]
    rw [hs, ← List.append_assoc, terminated_append_cons hcl] at heq
    have hle := length_head_chunkHeads_le heq
    rw [hs, takeWhile_append_cons hl, List.length_append] at hle
    have := List.length_pos_of_ne_nil hne
    omega
  · intro hmem
    rw [chunkHeads_of_not_mem hmem, terminated_of_not_mem (by simp [hc, hmem])]

theorem oneLineEach_cons {c : List α} {cs : List (List α)} : OneLineEach sep (c :: cs) ↔
    (c.count sep ≤ 1 ∧ (sep ∈ cs.flatten → c.getLast? = some sep)) ∧ OneLineEach sep cs := by
  constructor
  · intro h
    refine ⟨h [] c cs rfl, fun before d after heq => h (c :: before) d after (by rw [heq]; rfl)⟩
  · rintro ⟨hc, hcs⟩ before d after heq
    cases before with
    | nil =>
        obtain ⟨rfl, rfl⟩ := List.cons.inj heq
        exact hc
    | cons b before => exact hcs before d after (List.cons.inj heq).2

theorem oneLineEach_of_not_mem {cs : List (List α)} (h : sep ∉ cs.flatten) :
    OneLineEach sep cs := by
  rintro before c after rfl
  rw [List.flatten_append, List.flatten_cons, List.mem_append, List.mem_append] at h
  rw [not_or, not_or] at h
  exact ⟨by rw [List.count_eq_zero_of_not_mem h.2.1]; omega, fun hmem => absurd hmem h.2.2⟩

/-- After the first line of a chunk the reader goes on with the next chunk. It is right
about what follows if the chunk ends there, or if nothing more is terminated. -/
theorem rest_eq_terminated_iff {l t : List α} {cs : List (List α)}
    (hcs : chunkHeads sep cs = terminated sep cs.flatten ↔ OneLineEach sep cs) :
    chunkHeads sep cs = terminated sep (t ++ cs.flatten) ↔
      (0 + (t.count sep + 1) ≤ 1 ∧
        (sep ∈ cs.flatten → (l ++ sep :: t).getLast? = some sep)) ∧ OneLineEach sep cs := by
  by_cases ht : sep ∈ t
  · -- a second line in the chunk is one line too many for the chunks that follow
    have hpos : 0 < t.count sep := List.count_pos_iff.mpr ht
    constructor
    · intro heq
      have hle : (chunkHeads sep cs).length ≤ cs.flatten.count sep := length_chunkHeads_le cs
      rw [heq, length_terminated, List.count_append] at hle
      omega
    · rintro ⟨⟨hone, -⟩, -⟩
      omega
  · rw [List.count_eq_zero_of_not_mem ht]
    cases t with
    | nil => simp [hcs]
    | cons a t =>
        rw [chunkHeads_eq_terminated_append_iff (List.cons_ne_nil a t) ht]
        constructor
        · intro hrest
          exact ⟨⟨by omega, fun hmem => absurd hmem hrest⟩, oneLineEach_of_not_mem hrest⟩
        · rintro ⟨⟨-, hlast⟩, -⟩ hmem
          have hin := hlast hmem
          rw [List.getLast?_append, List.getLast?_cons_cons] at hin
          exact ht (List.mem_of_getLast? (by simpa using hin))

/-- **The chunk-wise reader is right** on a stream of nonempty chunks if and only if the
chunks are cut one to a line. -/
theorem chunkHeads_eq_terminated_iff {chunks : List (List α)} (hne : ∀ c ∈ chunks, c ≠ []) :
    chunkHeads sep chunks = terminated sep chunks.flatten ↔ OneLineEach sep chunks := by
  induction chunks with
  | nil => simp [chunkHeads, terminated, OneLineEach]
  | cons c cs ih =>
      have hcs := ih fun d hd => hne d (List.mem_cons_of_mem c hd)
      rw [List.flatten_cons, oneLineEach_cons]
      by_cases hc : sep ∈ c
      · obtain ⟨l, t, rfl, hl⟩ := List.eq_append_cons_of_mem hc
        rw [chunkHeads_cons hl, List.append_assoc, List.cons_append, terminated_append_cons hl,
          List.cons_inj_right, List.count_append, List.count_cons_self,
          List.count_eq_zero_of_not_mem hl, ← rest_eq_terminated_iff (l := l) hcs]
      · rw [chunkHeads_cons_of_not_mem hc,
          chunkHeads_eq_terminated_append_iff (hne c List.mem_cons_self) hc,
          List.count_eq_zero_of_not_mem hc]
        constructor
        · intro hrest
          exact ⟨⟨by omega, fun hmem => absurd hmem hrest⟩, oneLineEach_of_not_mem hrest⟩
        · rintro ⟨⟨-, hlast⟩, -⟩ hmem
          exact hc (List.mem_of_getLast? (hlast hmem))

end Lib
