import Plotter.GCodeParser

/-!
# When the parser stays inside its arrays

The copy loops of `parseCoords` look for white space, but the last word of a line is
followed by its NUL: from there they read on behind the line. Words that are copied are
not closed with a NUL either, so that `strlen` needs one that was in `temp` before. The
X words of a line are copied one behind the other. `parseAngle` has room for four
characters.

## Main definitions

* `WordsEnd`: every X and every Y of a line has white space behind it.
* `xTotal`, `yLongest`: how much of `temp` the words of a line cover.
* `CoordsInside`: the lines on which `parseCoords` stays inside.
* `CopiesFit`: the bytes on which `parseCoords` stays inside its arrays.
* `read_inside_iff`: the lines on which the parser stays inside its arrays and the line.
-/

namespace Plotter

open Lib

/-- Every X and every Y of the line has white space behind it in the line. -/
def WordsEnd (line : List UInt8) : Prop :=
  ∀ before b after, line = before ++ b :: after → b = letterX ∨ b = letterY → after.any isSpace

/-- The characters that are copied for the X words of a line, all together. -/
def xTotal : List UInt8 → ℕ
  | [] => 0
  | b :: rest => (if b = letterX then (firstWord rest).length else 0) + xTotal rest

/-- The characters that are copied for the longest Y word of a line. -/
def yLongest : List UInt8 → ℕ
  | [] => 0
  | b :: rest => max (if b = letterY then (firstWord rest).length else 0) (yLongest rest)

/-- The words of the line end in the line, and if there are any, `temp` holds a NUL behind
all that is copied for them. -/
def CoordsInside (line : List UInt8) (temp : Buffer 8) : Prop :=
  WordsEnd line ∧ (letterX ∈ line ∨ letterY ∈ line →
    ∃ q, temp.bytes[q]? = some 0 ∧ xTotal line ≤ q ∧ yLongest line ≤ q)

/-- The words of the bytes up to the NUL can be copied into `temp`, which was written up to `k`
for the X words before them: each ends, fits, and leaves a NUL in `temp`. -/
def CopiesFit : List UInt8 → ℕ → Buffer 8 → Prop
  | [], _, _ => False
  | b :: rest, k, temp =>
    if b = 0 then True
    else if b = letterX ∨ b = letterY then
      rest.any isSpace ∧ ∃ temp',
        temp.overwrite (if b = letterX then k else 0) (firstWord rest) = some temp' ∧
          0 ∈ temp'.bytes ∧
          CopiesFit rest (k + if b = letterX then (firstWord rest).length else 0) temp'
    else CopiesFit rest k temp

/-! ## Words in a line -/

theorem wordsEnd_nil : WordsEnd [] := by
  intro before b after h
  simp at h

theorem wordsEnd_cons {b : UInt8} {rest : List UInt8} :
    WordsEnd (b :: rest) ↔ (b = letterX ∨ b = letterY → rest.any isSpace) ∧ WordsEnd rest := by
  constructor
  · intro h
    refine ⟨h [] b rest rfl, fun before c after heq => ?_⟩
    exact h (b :: before) c after (by rw [heq]; rfl)
  · rintro ⟨hb, hrest⟩ before c after heq
    cases before with
    | nil =>
        obtain ⟨rfl, rfl⟩ := List.cons_eq_cons.mp heq
        exact hb
    | cons d before =>
        obtain ⟨-, htail⟩ := List.cons_eq_cons.mp heq
        exact hrest before c after htail

/-- Without X and Y nothing is copied. -/
theorem xTotal_of_not_mem {line : List UInt8} (h : letterX ∉ line) : xTotal line = 0 := by
  induction line with
  | nil => rfl
  | cons b rest ih =>
      rw [List.mem_cons, not_or] at h
      rw [xTotal, if_neg (Ne.symm h.1), ih h.2]

theorem yLongest_of_not_mem {line : List UInt8} (h : letterY ∉ line) : yLongest line = 0 := by
  induction line with
  | nil => rfl
  | cons b rest ih =>
      rw [List.mem_cons, not_or] at h
      rw [yLongest, if_neg (Ne.symm h.1), ih h.2, max_self]

theorem firstWord_append_of_any {s : List UInt8} (h : s.any isSpace) (t : List UInt8) :
    firstWord (s ++ t) = firstWord s ∧ (firstWord s).length < s.length := by
  induction s with
  | nil => cases h
  | cons b s ih =>
      by_cases hspace : isSpace b
      · constructor
        · simp [firstWord, hspace]
        · simp [firstWord, hspace]
      · rw [List.any_cons, Bool.eq_false_iff.mpr hspace, Bool.false_or] at h
        obtain ⟨heq, hlt⟩ := ih h
        rw [firstWord] at heq hlt ⊢
        rw [firstWord] at heq
        rw [List.cons_append, List.takeWhile_cons_of_pos (by simpa using hspace), firstWord,
          List.takeWhile_cons_of_pos (by simpa using hspace), heq]
        exact ⟨rfl, Nat.succ_lt_succ hlt⟩

/-- Without white space the whole of the line belongs to the word, and what is behind it. -/
theorem firstWord_append_of_not_any {s : List UInt8} (h : s.any isSpace = false)
    (t : List UInt8) : firstWord (s ++ t) = s ++ firstWord t := by
  rw [firstWord, List.takeWhile_append_of_pos, firstWord]
  intro b hb
  rw [List.any_eq_false] at h
  simpa using h b hb

/-! ## What is left of the array -/

/-- The bytes of an array after a word was written over them. -/
theorem getElem?_overwrite {n : ℕ} {b b' : Buffer n} {i : ℕ} {w : List UInt8}
    (h : b.overwrite i w = some b') (q : ℕ) :
    b'.bytes[q]? = if q < i then b.bytes[q]? else if q < i + w.length then w[q - i]?
      else b.bytes[q]? := by
  obtain ⟨hfits, hbytes⟩ := Buffer.overwrite_eq_some.mp h
  have hlen : (b.bytes.take i).length = i := by
    rw [List.length_take, b.size]
    omega
  rw [hbytes, List.append_assoc]
  split_ifs with hlt hin
  · rw [List.getElem?_append_left (by omega), List.getElem?_take_of_lt hlt]
  · rw [List.getElem?_append_right (by omega), hlen, List.getElem?_append_left (by omega)]
  · rw [List.getElem?_append_right (by omega), hlen, List.getElem?_append_right (by omega),
      List.getElem?_drop]
    congr 1
    omega

/-- The array has been written up to `m`, without a NUL, and holds the old bytes behind. -/
structure Written (old temp : Buffer 8) (m : ℕ) : Prop where
  le : m ≤ 8
  below : ∀ q < m, temp.bytes[q]? ≠ some 0
  above : ∀ q, m ≤ q → temp.bytes[q]? = old.bytes[q]?

namespace Written
variable {old temp : Buffer 8} {m : ℕ}

theorem init (old : Buffer 8) : Written old old 0 :=
  ⟨Nat.zero_le 8, fun _ h => absurd h (Nat.not_lt_zero _), fun _ _ => rfl⟩

/-- A NUL in the array is an old one. -/
theorem mem_iff (h : Written old temp m) :
    0 ∈ temp.bytes ↔ ∃ q, old.bytes[q]? = some 0 ∧ m ≤ q := by
  rw [List.mem_iff_getElem?]
  constructor
  · rintro ⟨q, hq⟩
    have hm : m ≤ q := not_lt.mp fun hlt => h.below q hlt hq
    exact ⟨q, h.above q hm ▸ hq, hm⟩
  · rintro ⟨q, hq, hm⟩
    exact ⟨q, (h.above q hm).trans hq⟩

theorem overwrite (h : Written old temp m) {i : ℕ} (hi : i ≤ m) {w : List UInt8}
    (hw : (0 : UInt8) ∉ w) {temp' : Buffer 8} (hov : temp.overwrite i w = some temp') :
    Written old temp' (max m (i + w.length)) := by
  obtain ⟨hfits, -⟩ := Buffer.overwrite_eq_some.mp hov
  refine ⟨max_le h.le hfits, fun q hq => ?_, fun q hq => ?_⟩
  · rw [getElem?_overwrite hov]
    split_ifs with hlt hin
    · exact h.below q (by omega)
    · intro hzero
      exact hw (List.mem_of_getElem? hzero)
    · exact h.below q (by omega)
  · rw [getElem?_overwrite hov, if_neg (by omega), if_neg (by omega)]
    exact h.above q (by omega)

end Written

/-! ## One word -/

/-- Where in `temp` the word behind an X or a Y is copied to. -/
def wordStart (b : UInt8) (s : Scratch) : ℕ := if b = letterX then s.tempIndex else 0

/-- What the body of the loop leaves at an X or a Y. -/
structure Copied (b : UInt8) (rest : List UInt8) (i : ℕ) (s s' : Scratch) : Prop where
  ends : rest.any isSpace
  written : s.temp.overwrite (wordStart b s) (firstWord rest) = some s'.temp
  closed : 0 ∈ s'.temp.bytes
  index : s'.tempIndex = s.tempIndex + if b = letterX then (firstWord rest).length else 0
  reads : s'.furthest = max s.furthest (i + 1 + (firstWord rest).length)

/-- **The body at a word.** It is defined if and only if the word ends, fits, and finds a
NUL in the array. -/
theorem coordsBody_word_iff {b : UInt8} (hb : b = letterX ∨ b = letterY) (rest : List UInt8)
    (i : ℕ) {s s' : Scratch} (p : GCodeParser) (hs : s.tempIndex ≤ 8) :
    (∃ p', GCodeParser.coordsBody b rest i s p = some (s', p')) ↔ Copied b rest i s s' := by
  have hYX : letterY ≠ letterX := by decide
  constructor
  · rintro ⟨p', h⟩
    rcases hb with rfl | rfl
    · rw [GCodeParser.coordsBody_x rest i p hs] at h
      split_ifs at h with hends
      obtain ⟨temp, htemp, hrest⟩ := Option.bind_eq_some_iff.mp h
      split_ifs at hrest with hmem
      obtain ⟨rfl, -⟩ := Prod.mk.inj (Option.some_inj.mp hrest)
      exact ⟨hends, by rw [wordStart, if_pos rfl, htemp], hmem, by rw [if_pos rfl], rfl⟩
    · rw [GCodeParser.coordsBody_y rest i s p] at h
      split_ifs at h with hends
      obtain ⟨temp, htemp, hrest⟩ := Option.bind_eq_some_iff.mp h
      split_ifs at hrest with hmem
      obtain ⟨rfl, -⟩ := Prod.mk.inj (Option.some_inj.mp hrest)
      exact ⟨hends, by rw [wordStart, if_neg hYX, htemp], hmem, by rw [if_neg hYX]; rfl, rfl⟩
  · rintro ⟨hends, hwritten, hclosed, hindex, hreads⟩
    have hs' : s' = ⟨s'.temp, s'.tempIndex, s'.furthest⟩ := rfl
    rw [hs', hindex, hreads]
    rcases hb with rfl | rfl
    · rw [wordStart, if_pos rfl] at hwritten
      rw [GCodeParser.coordsBody_x rest i p hs, if_pos hends, hwritten, if_pos rfl,
        Option.bind_some, if_pos hclosed]
      exact ⟨_, rfl⟩
    · rw [wordStart, if_neg hYX] at hwritten
      rw [GCodeParser.coordsBody_y rest i s p, if_pos hends, hwritten, if_neg hYX,
        Option.bind_some, if_pos hclosed]
      exact ⟨_, rfl⟩

namespace Copied
variable {b : UInt8} {rest : List UInt8} {i : ℕ} {s s' : Scratch}

theorem tempIndex_le (h : Copied b rest i s s') (hs : s.tempIndex ≤ 8) : s'.tempIndex ≤ 8 := by
  obtain ⟨hfits, -⟩ := Buffer.overwrite_eq_some.mp h.written
  rw [h.index]
  rw [wordStart] at hfits
  split_ifs at hfits ⊢
  · exact hfits
  · exact hs

theorem furthest_le (h : Copied b rest i s s') : s.furthest ≤ s'.furthest := by
  rw [h.reads]
  exact le_max_left ..

end Copied

/-- **The loop over the bytes of an array** is defined if and only if the words can be copied. -/
theorem coordsLoop_isSome_iff {bytes : List UInt8} {i : ℕ} {s : Scratch} (p : GCodeParser)
    (hs : s.tempIndex ≤ 8) :
    (GCodeParser.coordsLoop bytes i s p).isSome ↔ CopiesFit bytes s.tempIndex s.temp := by
  induction bytes generalizing i s p with
  | nil => exact iff_of_false (by simp [GCodeParser.coordsLoop]) not_false
  | cons b rest ih =>
      by_cases hnul : b = 0
      · rw [CopiesFit, if_pos hnul, GCodeParser.coordsLoop, if_pos hnul]
        exact iff_of_true rfl trivial
      rw [CopiesFit, if_neg hnul, GCodeParser.coordsLoop_cons hnul]
      by_cases hword : b = letterX ∨ b = letterY
      · rw [if_pos hword]
        constructor
        · intro hsome
          obtain ⟨r, hr⟩ := Option.isSome_iff_exists.mp hsome
          obtain ⟨⟨s₁, p₁⟩, hbody, hloop⟩ := Option.bind_eq_some_iff.mp hr
          have hc := (coordsBody_word_iff hword rest i p hs).mp ⟨p₁, hbody⟩
          have hrest := (ih p₁ (hc.tempIndex_le hs)).mp (by rw [hloop]; rfl)
          rw [hc.index] at hrest
          exact ⟨hc.ends, s₁.temp, hc.written, hc.closed, hrest⟩
        · rintro ⟨hends, temp, hwritten, hclosed, hrest⟩
          have hc : Copied b rest i s ⟨temp, _, _⟩ := ⟨hends, hwritten, hclosed, rfl, rfl⟩
          obtain ⟨p₁, hbody⟩ := (coordsBody_word_iff hword rest i p hs).mpr hc
          rw [hbody, Option.bind_some]
          exact (ih p₁ (hc.tempIndex_le hs)).mpr hrest
      · rw [if_neg hword]
        rw [not_or] at hword
        rw [GCodeParser.coordsBody_of_ne hword.1 hword.2, Option.bind_some]
        exact ih p hs

/-- The loop reads further and further. -/
theorem furthest_le_coordsLoop {bytes : List UInt8} {i : ℕ} {s s' : Scratch} {p p' : GCodeParser}
    (hs : s.tempIndex ≤ 8) (h : GCodeParser.coordsLoop bytes i s p = some (s', p')) :
    s.furthest ≤ s'.furthest := by
  induction bytes generalizing i s p with
  | nil => cases h
  | cons b rest ih =>
      by_cases hnul : b = 0
      · rw [GCodeParser.coordsLoop, if_pos hnul, Option.some_inj, Prod.mk.injEq] at h
        rw [h.1]
      rw [GCodeParser.coordsLoop_cons hnul] at h
      by_cases hword : b = letterX ∨ b = letterY
      · obtain ⟨⟨s₁, p₁⟩, hbody, hloop⟩ := Option.bind_eq_some_iff.mp h
        have hcopied := (coordsBody_word_iff hword rest i p hs).mp ⟨p₁, hbody⟩
        exact hcopied.furthest_le.trans (ih (hcopied.tempIndex_le hs) hloop)
      · rw [not_or] at hword
        rw [GCodeParser.coordsBody_of_ne hword.1 hword.2, Option.bind_some] at h
        exact ih hs h

/-! ## The whole line -/

/-- There is an old NUL behind the first `m` bytes and behind all that the line still has
copied, its X words from index `k` on. -/
def NulBehind (old : Buffer 8) (m k : ℕ) (line : List UInt8) : Prop :=
  ∃ q, old.bytes[q]? = some 0 ∧ m ≤ q ∧ k + xTotal line ≤ q ∧ yLongest line ≤ q

theorem nulBehind_cons {old : Buffer 8} {m : ℕ} {b : UInt8} (hb : b = letterX ∨ b = letterY)
    (s : Scratch) (line : List UInt8) : NulBehind old m s.tempIndex (b :: line) ↔
      NulBehind old (max m (wordStart b s + (firstWord line).length))
        (s.tempIndex + if b = letterX then (firstWord line).length else 0) line := by
  have hYX : letterY ≠ letterX := by decide
  refine exists_congr fun q => and_congr_right fun _ => ?_
  rcases hb with rfl | rfl
  · simp only [xTotal, yLongest, wordStart, if_true, if_neg hYX.symm, max_le_iff]
    omega
  · simp only [xTotal, yLongest, wordStart, if_true, if_neg hYX, max_le_iff]
    omega

theorem nulBehind_of_not_mem {old : Buffer 8} {m k q : ℕ} {line : List UInt8} (hkm : k ≤ m)
    (hno : ¬ (letterX ∈ line ∨ letterY ∈ line)) (hq : old.bytes[q]? = some 0) (hm : m ≤ q) :
    NulBehind old m k line := by
  rw [not_or] at hno
  rw [NulBehind, xTotal_of_not_mem hno.1, yLongest_of_not_mem hno.2]
  exact ⟨q, hq, hm, by omega, Nat.zero_le q⟩

/-- A word that does not end in the line is read past the NUL. -/
theorem Copied.past_line {b : UInt8} {line behind : List UInt8} {i : ℕ} {s s' : Scratch}
    (h : Copied b (line ++ 0 :: behind) i s s') (hline : line.any isSpace = false) :
    i + 1 + line.length < s'.furthest := by
  have hword : firstWord (line ++ 0 :: behind) = line ++ 0 :: firstWord behind := by
    rw [firstWord_append_of_not_any hline]
    rfl
  rw [h.reads, hword, List.length_append, List.length_cons]
  exact lt_of_lt_of_le (by omega) (le_max_right ..)

theorem wordStart_le (b : UInt8) {s : Scratch} {m : ℕ} (hk : s.tempIndex ≤ m) :
    wordStart b s ≤ m := by
  rw [wordStart]
  split_ifs
  · exact hk
  · exact Nat.zero_le m

/-- With an old NUL behind all that it covers, a word that ends in the line is copied. -/
theorem exists_copied {old : Buffer 8} (b : UInt8) {line : List UInt8} (behind : List UInt8)
    (i : ℕ) {m q : ℕ} {s : Scratch} (hends : line.any isSpace) (hnul : (0 : UInt8) ∉ line)
    (hw : Written old s.temp m) (hk : s.tempIndex ≤ m) (hq : old.bytes[q]? = some 0)
    (hm : max m (wordStart b s + (firstWord line).length) ≤ q) :
    ∃ s', Copied b (line ++ 0 :: behind) i s s' := by
  have hlt : q < 8 := by
    rw [← old.size]
    exact (List.getElem?_eq_some_iff.mp hq).1
  have hfits : wordStart b s + (firstWord line).length ≤ 8 :=
    (le_max_right ..).trans (hm.trans hlt.le)
  have hword := (firstWord_append_of_any hends (0 :: behind)).1
  have hnone : (0 : UInt8) ∉ firstWord line := fun hmem => hnul (List.takeWhile_subset _ hmem)
  obtain ⟨temp, htemp⟩ : ∃ temp, s.temp.overwrite (wordStart b s) (firstWord line) = some temp :=
    ⟨_, dif_pos hfits⟩
  have hclosed := (hw.overwrite (wordStart_le b hk) hnone htemp).mem_iff.mpr ⟨q, hq, hm⟩
  exact ⟨⟨temp, _, _⟩, by rw [List.any_append, hends]; rfl, by rw [hword]; exact htemp, hclosed,
    rfl, rfl⟩

/-- Behind a word that ends in the line the array has been written that much further. -/
theorem Copied.inside {old : Buffer 8} {b : UInt8} {line behind : List UInt8} {i m : ℕ}
    {s s' : Scratch} (h : Copied b (line ++ 0 :: behind) i s s') (hends : line.any isSpace)
    (hnul : (0 : UInt8) ∉ line) (hw : Written old s.temp m) (hk : s.tempIndex ≤ m)
    (hf : s.furthest ≤ i + 1 + line.length) :
    Written old s'.temp (max m (wordStart b s + (firstWord line).length)) ∧
      s'.tempIndex = s.tempIndex + (if b = letterX then (firstWord line).length else 0) ∧
      s'.tempIndex ≤ max m (wordStart b s + (firstWord line).length) ∧
      s'.furthest ≤ i + 1 + line.length := by
  obtain ⟨hword, hlt⟩ := firstWord_append_of_any hends (0 :: behind)
  have hwritten := h.written
  have hindex := h.index
  have hreads := h.reads
  rw [hword] at hwritten hindex hreads
  have hnone : (0 : UInt8) ∉ firstWord line := fun hmem => hnul (List.takeWhile_subset _ hmem)
  have hstart := wordStart_le b hk
  refine ⟨hw.overwrite hstart hnone hwritten, hindex, ?_, ?_⟩
  · rw [hindex, wordStart]
    split_ifs
    · exact le_max_right ..
    · exact hk.trans (le_max_left ..)
  · rw [hreads]
    exact max_le hf (by omega)

/-- **The loop over a line**, from index `i` on with `line` still to come: it is defined and
stays in the line if and only if the words end in the line and there is a NUL behind what
they cover. The array has been written up to `m`. -/
theorem coordsLoop_inside_iff {old : Buffer 8} (behind : List UInt8) {line : List UInt8}
    (hnul : (0 : UInt8) ∉ line) {i m : ℕ} {s : Scratch} (p : GCodeParser)
    (hw : Written old s.temp m) (hk : s.tempIndex ≤ m) (hf : s.furthest ≤ i + line.length) :
    (∃ s' p', GCodeParser.coordsLoop (line ++ 0 :: behind) i s p = some (s', p') ∧
        s'.furthest ≤ i + line.length) ↔
      WordsEnd line ∧ (letterX ∈ line ∨ letterY ∈ line → NulBehind old m s.tempIndex line) := by
  induction line generalizing i m s p with
  | nil => simpa [GCodeParser.coordsLoop, wordsEnd_nil] using hf
  | cons b line ih =>
      rw [List.mem_cons, not_or] at hnul
      have hs : s.tempIndex ≤ 8 := hk.trans hw.le
      have hlen : i + (b :: line).length = i + 1 + line.length := by
        rw [List.length_cons]
        omega
      rw [hlen] at hf ⊢
      rw [List.cons_append, GCodeParser.coordsLoop_cons (Ne.symm hnul.1), wordsEnd_cons]
      by_cases hword : b = letterX ∨ b = letterY
      · have hsome : letterX ∈ b :: line ∨ letterY ∈ b :: line := by
          rcases hword with rfl | rfl <;> simp
        simp only [hword, hsome, true_imp_iff]
        rw [nulBehind_cons hword]
        constructor
        · rintro ⟨s', p', hrun, hin⟩
          obtain ⟨⟨s₁, p₁⟩, hbody, hloop⟩ := Option.bind_eq_some_iff.mp hrun
          have hc := (coordsBody_word_iff hword _ i p hs).mp ⟨p₁, hbody⟩
          have hends : line.any isSpace := by
            by_contra hno
            have hpast := hc.past_line (Bool.eq_false_iff.mpr hno)
            have hfar := furthest_le_coordsLoop (hc.tempIndex_le hs) hloop
            omega
          obtain ⟨hw₁, hindex, hk₁, hf₁⟩ := hc.inside hends hnul.2 hw hk hf
          obtain ⟨hrest, hbehind⟩ := (ih hnul.2 p₁ hw₁ hk₁ hf₁).mp ⟨s', p', hloop, hin⟩
          refine ⟨⟨hends, hrest⟩, ?_⟩
          rw [← hindex]
          by_cases hmore : letterX ∈ line ∨ letterY ∈ line
          · exact hbehind hmore
          · obtain ⟨q, hq, hm⟩ := hw₁.mem_iff.mp hc.closed
            exact nulBehind_of_not_mem hk₁ hmore hq hm
        · rintro ⟨⟨hends, hrest⟩, hbehind⟩
          obtain ⟨q, hq, hm, -⟩ := id hbehind
          obtain ⟨s₁, hc⟩ := exists_copied b behind i hends hnul.2 hw hk hq hm
          obtain ⟨p₁, hbody⟩ := (coordsBody_word_iff hword _ i p hs).mpr hc
          obtain ⟨hw₁, hindex, hk₁, hf₁⟩ := hc.inside hends hnul.2 hw hk hf
          rw [← hindex] at hbehind
          obtain ⟨s', p', hloop, hin⟩ :=
            (ih hnul.2 p₁ hw₁ hk₁ hf₁).mpr ⟨hrest, fun _ => hbehind⟩
          exact ⟨s', p', by rw [hbody, Option.bind_some]; exact hloop, hin⟩
      · rw [not_or] at hword
        rw [GCodeParser.coordsBody_of_ne hword.1 hword.2, Option.bind_some, ih hnul.2 p hw hk hf]
        have hmem : (letterX ∈ b :: line ∨ letterY ∈ b :: line) ↔
            letterX ∈ line ∨ letterY ∈ line := by
          rw [List.mem_cons, List.mem_cons, or_iff_right (Ne.symm hword.1),
            or_iff_right (Ne.symm hword.2)]
        rw [hmem]
        simp only [hword, or_self, false_imp_iff, true_and, NulBehind, xTotal, yLongest, if_false,
          Nat.zero_add, Nat.zero_max]

namespace GCodeParser

theorem parseCoords_inside_iff {n : ℕ} (l : Locals) (buffer : Buffer n) (p : GCodeParser)
    {line : List UInt8} (hline : buffer.cString = some line) :
    (∃ s' p', p.parseCoords l buffer = some (s', p') ∧ s'.furthest ≤ line.length) ↔
      CoordsInside line l.coordsTemp := by
  obtain ⟨behind, hbytes, hnul⟩ := Buffer.cString_eq_some hline
  have hloop := coordsLoop_inside_iff behind hnul (i := 0)
    (s := { temp := l.coordsTemp, furthest := line.length }) p (Written.init l.coordsTemp) le_rfl
    (by simp)
  rw [Nat.zero_add] at hloop
  rw [parseCoords, hline, hbytes]
  simp only [Option.bind_eq_bind, Option.bind_some]
  rw [hloop, CoordsInside]
  simp only [NulBehind, Nat.zero_le, true_and, Nat.zero_add]

/-- `parseCoords` is defined if and only if the words can be copied. -/
theorem parseCoords_isSome_iff {n : ℕ} (l : Locals) (buffer : Buffer n) (p : GCodeParser)
    {line : List UInt8} (hline : buffer.cString = some line) :
    (p.parseCoords l buffer).isSome ↔ CopiesFit buffer.bytes 0 l.coordsTemp := by
  rw [parseCoords, hline]
  exact coordsLoop_isSome_iff p (Nat.zero_le 8)

/-- **Staying inside.** The parser writes to no place outside of its arrays and reads no
further than the NUL of the line if and only if the first word of a line for `parseAngle`
has at most four characters, and on a line for `parseCoords` the words behind X and Y end
in the line and leave an old NUL of `temp` behind them. -/
theorem read_inside_iff {n : ℕ} (l : Locals) (inputStr : Buffer n) (p : GCodeParser)
    {line : List UInt8} (hline : inputStr.cString = some line) :
    (∃ r, p.read l inputStr = some r ∧ r.furthest ≤ line.length) ↔
      (Command.M1.word <+: firstWord line →
        Command.M10.word <+: firstWord line ∨ (firstWord line).length ≤ 4) ∧
      (Command.G1.word <+: firstWord line → CoordsInside line l.coordsTemp) := by
  -- a line cannot begin both ways
  have hone : Command.M1.word <+: firstWord line → ¬ Command.G1.word <+: firstWord line := by
    intro hM1 hG1
    exact absurd (List.prefix_of_prefix_length_le hM1 hG1 le_rfl) (by decide)
  rw [read_eq l inputStr p hline]
  by_cases h10 : Command.M10.word <+: firstWord line
  · have hG1 := hone (.trans (by decide) h10)
    simp [h10, hG1]
  by_cases h1 : Command.M1.word <+: firstWord line
  · have hne : firstWord line ≠ [] := by
      intro hnil
      rw [hnil] at h1
      exact absurd h1 (by decide)
    rw [parseAngle_eq l inputStr p hline hne]
    by_cases hfits : (firstWord line).length ≤ 4
    · simp [h10, h1, hone h1, hfits]
    · simp [h10, h1, hone h1, hfits]
  by_cases hG1 : Command.G1.word <+: firstWord line
  · rw [if_neg h10, if_neg h1, if_pos hG1, ← parseCoords_inside_iff l inputStr p hline]
    simp only [h1, hG1, false_imp_iff, true_imp_iff, true_and]
    constructor
    · rintro ⟨r, hr, hin⟩
      obtain ⟨⟨s', p'⟩, hparse, rfl⟩ := Option.map_eq_some_iff.mp hr
      exact ⟨s', p', hparse, hin⟩
    · rintro ⟨s', p', hparse, hin⟩
      exact ⟨_, by rw [hparse]; rfl, hin⟩
  · simp [h10, h1, hG1]

/-- The line `G1 X1 Y2 `, with a blank behind the last word. -/
def spacedLine : List UInt8 := [71, 49, 32, 88, 49, 32, 89, 50, 32]

theorem read_inside_iff_spacedLine :
    (∃ r, ({} : GCodeParser).read .zeroed (lineBuffer spacedLine (by decide)) = some r ∧
        r.furthest ≤ spacedLine.length) ↔
      (Command.M1.word <+: firstWord spacedLine →
        Command.M10.word <+: firstWord spacedLine ∨ (firstWord spacedLine).length ≤ 4) ∧
      (Command.G1.word <+: firstWord spacedLine →
        CoordsInside spacedLine Locals.zeroed.coordsTemp) :=
  read_inside_iff .zeroed (lineBuffer spacedLine (by decide)) {} (by decide)

/-- The line `G1 X1`: the copy goes on behind the line, and leaves `temp`. -/
theorem lastWord_leaves : ¬ ∃ r,
    ({} : GCodeParser).read .zeroed (lineBuffer [71, 49, 32, 88, 49] (by decide)) = some r ∧
      r.furthest ≤ [71, 49, 32, 88, 49].length := by
  rintro ⟨r, hr, -⟩
  have hread : ({} : GCodeParser).read .zeroed
      (lineBuffer [71, 49, 32, 88, 49] (by decide)) = none := by decide
  rw [hread] at hr
  cases hr

end GCodeParser

end Plotter
