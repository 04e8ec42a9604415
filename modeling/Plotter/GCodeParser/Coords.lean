import Plotter.GCodeParser.Bounds

/-!
# The coordinates of a move command

The two copy loops of `parseCoords` share the array `temp` and do not close what they copy
with a NUL. What `atof` reads is the literal and the bytes that were behind it in `temp`,
up to an old NUL: bytes of the stack, or of the other literal if that was copied before and
is longer. So a coordinate is exact only if those bytes are harmless.

## Main definitions

* `Word`, `Field`, `CoordLine`: lines of words, with a literal for each axis at most.
* `LiteralExact`, `ExactFrom`: what a literal has to find in `temp`, or behind the line.
* `CoordsExact`: both coordinates are those of the line.
* `coordsExact_iff`: for which lines and contents of `temp` this is so.
-/

namespace Plotter

open Lib

/-- The letter in front of a coordinate. -/
def Axis.letter : Axis → UInt8
  | .x => letterX
  | .y => letterY

namespace GCodeParser

/-- `getXCoord` and `getYCoord`. -/
def getCoord (p : GCodeParser) : Axis → ℚ
  | .x => p.xCoord_
  | .y => p.yCoord_

def setCoord (p : GCodeParser) (q : ℚ) : Axis → GCodeParser
  | .x => { p with xCoord_ := q }
  | .y => { p with yCoord_ := q }

@[simp] theorem getCoord_setCoord (p : GCodeParser) (q : ℚ) (a : Axis) :
    (p.setCoord q a).getCoord a = q := by cases a <;> rfl

theorem getCoord_setCoord_of_ne (p : GCodeParser) (q : ℚ) {a b : Axis} (h : a ≠ b) :
    (p.setCoord q a).getCoord b = p.getCoord b := by
  cases a <;> cases b <;> first | exact absurd rfl h | rfl

end GCodeParser

/-- A word of a line: a literal with its letter, or anything else without these letters. -/
inductive Word
  | coord (a : Axis) (l : Literal)
  | other (w : List UInt8)

def Word.chars : Word → List UInt8
  | .coord a l => a.letter :: l.chars
  | .other w => w

/-- A word, and the white space behind it. -/
structure Field where
  word : Word
  gap : List UInt8

namespace Field

def chars (f : Field) : List UInt8 := f.word.chars ++ f.gap

/-- The literal of a field for an axis. -/
def literal? (a : Axis) (f : Field) : Option Literal :=
  match f.word with
  | .coord b l => if b = a then some l else none
  | .other _ => none

/-- The gap is white space. A literal has at most seven characters; another word is not
empty, and has neither white space nor the letters of the axes. -/
structure Ok (f : Field) : Prop where
  gap_space : ∀ b ∈ f.gap, isSpace b
  word_ok : match f.word with
    | .coord _ l => l.chars.length ≤ 7
    | .other w => w ≠ [] ∧ ∀ b ∈ w, isSpace b = false ∧ b ≠ 0 ∧ b ≠ letterX ∧ b ≠ letterY

end Field

/-- The fields of a line, each with white space behind it but the last. -/
def FieldsOk : List Field → Prop
  | [] => True
  | f :: fs => f.Ok ∧ (fs ≠ [] → f.gap ≠ []) ∧ FieldsOk fs

/-- The literals of the fields for an axis. -/
def literals (a : Axis) (fields : List Field) : List Literal :=
  fields.filterMap (Field.literal? a)

/-- A line of words whose first word is `G1`, with at most one literal for each axis. -/
structure CoordLine where
  lead : List UInt8
  gap : List UInt8
  fields : List Field
  lead_space : ∀ b ∈ lead, isSpace b
  gap_space : ∀ b ∈ gap, isSpace b
  gap_ne_nil : fields ≠ [] → gap ≠ []
  fields_ok : FieldsOk fields
  literals_le : ∀ a, (literals a fields).length ≤ 1

def CoordLine.chars (line : CoordLine) : List UInt8 :=
  line.lead ++ Command.G1.word ++ line.gap ++ line.fields.flatMap Field.chars

/-- The literal of a line for an axis. -/
def CoordLine.literal? (line : CoordLine) (a : Axis) : Option Literal :=
  (literals a line.fields).head?

/-- The line is read as a move, each coordinate is the value of its own literal, and one
without a literal is what it was before. -/
def CoordsExact {n : ℕ} (l : Locals) (inputStr : Buffer n) (p : GCodeParser)
    (line : CoordLine) : Prop :=
  ∃ r, p.read l inputStr = some r ∧ r.code = Command.G1.toInt ∧
    ∀ a, r.parser.getCoord a = ((line.literal? a).map Literal.value).getD (p.getCoord a)

/-- What a literal needs: with white space behind it, a NUL in `temp` behind the place it is
copied to, and nothing that changes its value up to that; at the end of the line, white space
behind the line that is not so far that the copy leaves `temp`. -/
def LiteralExact (l : Literal) (gap temp behind : List UInt8) : Prop :=
  if gap = [] then
    behind.any isSpace ∧ l.chars.length + 1 + (firstWord behind).length ≤ 8
  else
    0 ∈ temp.drop l.chars.length ∧
      l.Harmless ((temp.drop l.chars.length).takeWhile (· ≠ 0))

/-- Every literal of the fields has what it needs, the later ones with the earlier ones in
`temp`. -/
def ExactFrom (behind : List UInt8) : List UInt8 → List Field → Prop
  | _, [] => True
  | temp, f :: fs =>
    match f.word with
    | .coord _ l => LiteralExact l f.gap temp behind ∧
        ExactFrom behind (l.chars ++ temp.drop l.chars.length) fs
    | .other _ => ExactFrom behind temp fs

/-! ## The loop over words -/

/-- The loop passes over characters that are no letters of an axis. -/
theorem coordsLoop_append {w : List UInt8} (hw : ∀ b ∈ w, b ≠ 0 ∧ b ≠ letterX ∧ b ≠ letterY)
    (rest : List UInt8) (i : ℕ) (s : Scratch) (p : GCodeParser) :
    GCodeParser.coordsLoop (w ++ rest) i s p =
      GCodeParser.coordsLoop rest (i + w.length) s p := by
  induction w generalizing i with
  | nil => rfl
  | cons b w ih =>
      obtain ⟨h0, hX, hY⟩ := hw b List.mem_cons_self
      rw [List.cons_append, GCodeParser.coordsLoop_cons h0,
        GCodeParser.coordsBody_of_ne hX hY, Option.bind_some,
        ih (fun c hc => hw c (List.mem_cons_of_mem b hc)), List.length_cons]
      congr 1
      omega

/-- The body of the loop at a letter. -/
theorem coordsBody_letter (a : Axis) (rest : List UInt8) (i : ℕ) {s : Scratch} (p : GCodeParser)
    (hs : s.tempIndex ≤ 8) (hstart : wordStart a.letter s = 0) :
    GCodeParser.coordsBody a.letter rest i s p =
      if rest.any isSpace then
        (s.temp.overwrite 0 (firstWord rest)).bind fun temp =>
          if 0 ∈ temp.bytes then
            some ({ temp := temp
                    tempIndex := s.tempIndex + if a = .x then (firstWord rest).length else 0
                    furthest := max s.furthest (i + 1 + (firstWord rest).length) },
              p.setCoord (atof (temp.bytes.takeWhile (· ≠ 0))) a)
          else none
      else none := by
  cases a with
  | x =>
      have hzero : s.tempIndex = 0 := hstart
      rw [Axis.letter, GCodeParser.coordsBody_x rest i p hs, hzero]
      rfl
  | y =>
      rw [Axis.letter, GCodeParser.coordsBody_y]
      rfl

/-- The characters of a literal. -/
theorem literal_chars_ok {l : Literal} {b : UInt8} (h : b ∈ l.chars) :
    isSpace b = false ∧ b ≠ 0 ∧ b ≠ letterX ∧ b ≠ letterY := by
  have hdigit : ∀ {d : UInt8}, isDigit d = true →
      isSpace d = false ∧ d ≠ 0 ∧ d ≠ letterX ∧ d ≠ letterY := by
    intro d hd
    refine ⟨not_isSpace_of_isDigit hd, ?_, ?_, ?_⟩ <;>
      (rintro rfl; exact absurd hd (by decide))
  have hunsigned : b ∈ l.unsigned → isSpace b = false ∧ b ≠ 0 ∧ b ≠ letterX ∧ b ≠ letterY := by
    intro hb
    rw [Literal.unsigned, List.mem_append] at hb
    rcases hb with hb | hb
    · exact hdigit (l.whole_digits b hb)
    · cases hfrac : l.fraction with
      | none => simp [hfrac] at hb
      | some ds =>
          simp only [hfrac, List.mem_cons] at hb
          rcases hb with rfl | hb
          · decide
          · exact hdigit (l.fraction_digits ds hfrac b hb)
  rw [Literal.chars] at h
  split_ifs at h
  · rcases List.mem_cons.mp h with rfl | hb
    · decide
    · exact hunsigned hb
  · exact hunsigned h

/-- White space is passed over. -/
theorem isSpace_pass {b : UInt8} (h : isSpace b = true) : b ≠ 0 ∧ b ≠ letterX ∧ b ≠ letterY := by
  refine ⟨?_, ?_, ?_⟩ <;> (rintro rfl; exact absurd h (by decide))

/-- The loop ends, with the coordinates `goal`. -/
def CoordsBecome (bytes : List UInt8) (i : ℕ) (s : Scratch) (p : GCodeParser) (goal : Axis → ℚ) :
    Prop :=
  ∃ s' p', GCodeParser.coordsLoop bytes i s p = some (s', p') ∧ ∀ a, p'.getCoord a = goal a

section Literal
variable {l : Literal} (a : Axis) (i : ℕ) {s : Scratch} (p : GCodeParser)

theorem firstWord_literal {t : List UInt8} {b : UInt8} (hb : isSpace b = true) :
    firstWord (l.chars ++ b :: t) = l.chars := by
  rw [firstWord, List.takeWhile_append_of_pos, List.takeWhile_cons_of_neg, List.append_nil]
  · simp [hb]
  · intro c hc
    simp [(literal_chars_ok hc).1]

theorem letter_ne_zero : a.letter ≠ 0 := by cases a <;> decide

theorem zero_not_mem_chars : (0 : UInt8) ∉ l.chars := fun h => (literal_chars_ok h).2.1 rfl

theorem takeWhile_literal (t : List UInt8) :
    (l.chars ++ t).takeWhile (· ≠ 0) = l.chars ++ t.takeWhile (· ≠ 0) :=
  takeWhile_append_of_not_mem zero_not_mem_chars t

/-- A literal with white space behind it is copied over the start of `temp`. -/
theorem coordsBecome_literal (hs : s.tempIndex ≤ 8) (hstart : wordStart a.letter s = 0)
    (hlen : l.chars.length ≤ 7) {gap : List UInt8} (hgap : ∀ b ∈ gap, isSpace b) (hne : gap ≠ [])
    (rest : List UInt8) (goal : Axis → ℚ) : ∃ (s₁ : Scratch) (j : ℕ),
      s₁.temp.bytes = l.chars ++ s.temp.bytes.drop l.chars.length ∧
      s₁.tempIndex = s.tempIndex + (if a = .x then l.chars.length else 0) ∧
      (CoordsBecome (a.letter :: l.chars ++ gap ++ rest) i s p goal ↔
        0 ∈ s.temp.bytes.drop l.chars.length ∧ CoordsBecome rest j s₁
          (p.setCoord (atof (l.chars ++ (s.temp.bytes.drop l.chars.length).takeWhile (· ≠ 0))) a)
          goal) := by
  obtain ⟨b, gap', rfl⟩ := List.exists_cons_of_ne_nil hne
  have hb := hgap b List.mem_cons_self
  have hword : firstWord (l.chars ++ b :: gap' ++ rest) = l.chars := by
    rw [List.append_assoc, List.cons_append]
    exact firstWord_literal hb
  have hany : (l.chars ++ b :: gap' ++ rest).any isSpace = true := by
    rw [List.any_append, List.any_append, List.any_cons, hb]
    simp
  obtain ⟨temp, htemp⟩ : ∃ temp, s.temp.overwrite 0 l.chars = some temp :=
    ⟨_, dif_pos (by omega)⟩
  have hbytes : temp.bytes = l.chars ++ s.temp.bytes.drop l.chars.length := by
    have h := (Buffer.overwrite_eq_some.mp htemp).2
    rwa [List.take_zero, List.nil_append, Nat.zero_add] at h
  have hpass : ∀ c ∈ l.chars ++ b :: gap', c ≠ 0 ∧ c ≠ letterX ∧ c ≠ letterY := by
    intro c hc
    rcases List.mem_append.mp hc with hc | hc
    · exact (literal_chars_ok hc).2
    · exact isSpace_pass (hgap c hc)
  refine ⟨⟨temp, s.tempIndex + if a = .x then l.chars.length else 0,
    max s.furthest (i + 1 + l.chars.length)⟩, i + 1 + (l.chars ++ b :: gap').length, hbytes, rfl,
    ?_⟩
  have hmem : 0 ∈ temp.bytes ↔ 0 ∈ s.temp.bytes.drop l.chars.length := by
    rw [hbytes, List.mem_append, or_iff_right zero_not_mem_chars]
  rw [CoordsBecome, List.cons_append, List.cons_append,
    GCodeParser.coordsLoop_cons (letter_ne_zero a),
    coordsBody_letter a _ i p hs hstart, if_pos hany, hword, htemp, Option.bind_some]
  by_cases hzero : 0 ∈ temp.bytes
  · rw [if_pos hzero, Option.bind_some, coordsLoop_append hpass, hbytes, takeWhile_literal]
    exact (and_iff_right (hmem.mp hzero)).symm
  · rw [if_neg hzero]
    refine iff_of_false ?_ fun h => hzero (hmem.mpr h.1)
    rintro ⟨s', p', hrun, -⟩
    cases hrun

/-- A literal that is followed by a NUL is read as its value. -/
theorem atof_literal_nul (t : List UInt8) :
    atof ((l.chars ++ 0 :: t).takeWhile (· ≠ 0)) = l.value := by
  rw [takeWhile_append_cons zero_not_mem_chars, l.atof_chars]

/-- A literal at the end of the line is copied with its NUL and with what is behind it. -/
theorem coordsBecome_last (hs : s.tempIndex ≤ 8) (hstart : wordStart a.letter s = 0)
    (behind : List UInt8) (goal : Axis → ℚ) :
    CoordsBecome (a.letter :: l.chars ++ 0 :: behind) i s p goal ↔
      (behind.any isSpace ∧ l.chars.length + 1 + (firstWord behind).length ≤ 8) ∧
        ∀ b, (p.setCoord l.value a).getCoord b = goal b := by
  have hnot : l.chars.any isSpace = false := by
    rw [List.any_eq_false]
    intro c hc
    simp [(literal_chars_ok hc).1]
  have hword : firstWord (l.chars ++ 0 :: behind) = l.chars ++ 0 :: firstWord behind :=
    (firstWord_append_of_not_any hnot _).trans rfl
  have hany : (l.chars ++ 0 :: behind).any isSpace = behind.any isSpace := by
    rw [List.any_append, hnot, List.any_cons]
    rfl
  have hlength : (l.chars ++ 0 :: firstWord behind).length =
      l.chars.length + 1 + (firstWord behind).length := by
    rw [List.length_append, List.length_cons]
    omega
  rw [CoordsBecome, List.cons_append, GCodeParser.coordsLoop_cons (letter_ne_zero a),
    coordsBody_letter a _ i p hs hstart, hany, hword]
  by_cases hends : behind.any isSpace
  · rw [if_pos hends]
    by_cases hfits : l.chars.length + 1 + (firstWord behind).length ≤ 8
    · obtain ⟨temp, htemp⟩ : ∃ temp,
          s.temp.overwrite 0 (l.chars ++ 0 :: firstWord behind) = some temp :=
        ⟨_, dif_pos (by omega)⟩
      obtain ⟨t, hbytes⟩ : ∃ t, temp.bytes = l.chars ++ 0 :: t := by
        have h := (Buffer.overwrite_eq_some.mp htemp).2
        rw [List.take_zero, List.nil_append, List.append_assoc, List.cons_append] at h
        exact ⟨_, h⟩
      have hvalue : atof (temp.bytes.takeWhile (· ≠ 0)) = l.value := by
        rw [hbytes, atof_literal_nul]
      have hzero : 0 ∈ temp.bytes := by
        rw [hbytes]
        simp
      have hpass : ∀ c ∈ l.chars, c ≠ 0 ∧ c ≠ letterX ∧ c ≠ letterY :=
        fun c hc => (literal_chars_ok hc).2
      rw [htemp, Option.bind_some, if_pos hzero, Option.bind_some, coordsLoop_append hpass, hvalue,
        GCodeParser.coordsLoop, if_pos rfl, and_iff_right ⟨hends, hfits⟩]
      constructor
      · rintro ⟨s', p', hrun, hgoal⟩
        obtain ⟨-, rfl⟩ := Prod.mk.inj (Option.some_inj.mp hrun)
        exact hgoal
      · intro hgoal
        exact ⟨_, _, rfl, hgoal⟩
    · have htemp : s.temp.overwrite 0 (l.chars ++ 0 :: firstWord behind) = none :=
        dif_neg (by omega)
      rw [htemp]
      refine iff_of_false ?_ fun h => hfits h.1.2
      rintro ⟨s', p', hrun, -⟩
      cases hrun
  · rw [if_neg hends]
    refine iff_of_false ?_ fun h => hends h.1.1
    rintro ⟨s', p', hrun, -⟩
    cases hrun

end Literal

/-! ## The words of a line -/

section Fields
variable {f : Field} {fs : List Field} {a : Axis} {l : Literal}

theorem literals_cons_other {w : List UInt8} (hf : f.word = .other w) (b : Axis) :
    literals b (f :: fs) = literals b fs := by
  rw [literals, List.filterMap_cons, Field.literal?, hf]
  rfl

theorem literals_cons_coord (hf : f.word = .coord a l) :
    literals a (f :: fs) = l :: literals a fs := by
  rw [literals, List.filterMap_cons, Field.literal?, hf]
  simp [literals]

theorem literals_cons_of_ne (hf : f.word = .coord a l) {b : Axis} (hab : a ≠ b) :
    literals b (f :: fs) = literals b fs := by
  rw [literals, List.filterMap_cons, Field.literal?, hf]
  simp [literals, hab]

theorem exactFrom_cons_other {w : List UInt8} (hf : f.word = .other w) (behind temp : List UInt8) :
    ExactFrom behind temp (f :: fs) ↔ ExactFrom behind temp fs := by
  rw [ExactFrom, hf]

theorem exactFrom_cons_coord (hf : f.word = .coord a l) (behind temp : List UInt8) :
    ExactFrom behind temp (f :: fs) ↔ LiteralExact l f.gap temp behind ∧
      ExactFrom behind (l.chars ++ temp.drop l.chars.length) fs := by
  rw [ExactFrom, hf]

theorem literals_sublist (b : Axis) (f : Field) (fs : List Field) :
    List.Sublist (literals b fs) (literals b (f :: fs)) :=
  (List.sublist_cons_self f fs).filterMap _

/-- With the only literal for its axis converted to `q`, the rest of the line has to leave
`q` and to give the other axis its value. -/
theorem setCoord_goal_iff (hf : f.word = .coord a l) (hlast : literals a fs = [])
    (p : GCodeParser) (q : ℚ) (goal : Axis → ℚ) :
    (∀ b, literals b fs = [] → (p.setCoord q a).getCoord b = goal b) ↔
      q = goal a ∧ ∀ b, literals b (f :: fs) = [] → p.getCoord b = goal b := by
  constructor
  · intro h
    refine ⟨by rw [← h a hlast, GCodeParser.getCoord_setCoord], fun b hb => ?_⟩
    by_cases hab : a = b
    · subst hab
      rw [literals_cons_coord hf] at hb
      cases hb
    · rw [literals_cons_of_ne hf hab] at hb
      rw [← h b hb, p.getCoord_setCoord_of_ne q hab]
  · rintro ⟨hq, h⟩ b hb
    by_cases hab : a = b
    · subst hab
      rw [GCodeParser.getCoord_setCoord, hq]
    · rw [p.getCoord_setCoord_of_ne q hab]
      exact h b (by rw [literals_cons_of_ne hf hab, hb])

end Fields

section Field
variable {f : Field} {fs : List Field} {a : Axis} {l : Literal} {behind : List UInt8} (i : ℕ)
  {s : Scratch} (p : GCodeParser) {goal : Axis → ℚ}

/-- The last field, with nothing behind its literal. -/
theorem coordsBecome_field_last (hw : f.word = .coord a l) (hnil : f.gap = [])
    (hvalue : goal a = l.value) (hs : s.tempIndex ≤ 8) (hstart : wordStart a.letter s = 0) :
    CoordsBecome (f.chars ++ 0 :: behind) i s p goal ↔
      LiteralExact l f.gap s.temp.bytes behind ∧
        ∀ b, literals b [f] = [] → p.getCoord b = goal b := by
  have hnone : literals a [] = [] := rfl
  have hrest := setCoord_goal_iff hw hnone p (goal a) goal
  rw [eq_self, true_and] at hrest
  rw [Field.chars, hw, Word.chars, hnil, List.append_nil, coordsBecome_last a i p hs hstart,
    LiteralExact, if_pos rfl, ← hvalue, ← hrest]
  simp [literals]

/-- The index into `temp` behind a literal: it is moved by an X literal only. -/
theorem tempIndex_literal (hs : s.tempIndex ≤ 8) (hlen : l.chars.length ≤ 7)
    (hw : f.word = .coord a l) (hlast : literals a fs = []) (hstart : wordStart a.letter s = 0)
    (hx : literals .x (f :: fs) ≠ [] → s.tempIndex = 0) :
    s.tempIndex + (if a = .x then l.chars.length else 0) ≤ 8 ∧
      (literals .x fs ≠ [] → s.tempIndex + (if a = .x then l.chars.length else 0) = 0) := by
  cases a with
  | x =>
      have hzero : s.tempIndex = 0 := hstart
      rw [if_pos rfl]
      exact ⟨by omega, fun h => absurd hlast h⟩
  | y =>
      rw [if_neg (by decide), Nat.add_zero]
      rw [literals_cons_of_ne hw (by decide)] at hx
      exact ⟨hs, hx⟩

end Field

/-- **The loop over the words**: it gives each axis the value of its own literal if and only
if each literal finds in `temp` what it needs. Where the line still has an X literal, none
was copied before it. -/
theorem coordsBecome_iff (behind : List UInt8) {fields : List Field} (hok : FieldsOk fields)
    (hone : ∀ a, (literals a fields).length ≤ 1) {goal : Axis → ℚ}
    (hgoal : ∀ a, ∀ l ∈ literals a fields, goal a = l.value) (i : ℕ) {s : Scratch}
    (p : GCodeParser) (hs : s.tempIndex ≤ 8) (hx : literals .x fields ≠ [] → s.tempIndex = 0) :
    CoordsBecome (fields.flatMap Field.chars ++ 0 :: behind) i s p goal ↔
      ExactFrom behind s.temp.bytes fields ∧
        ∀ a, literals a fields = [] → p.getCoord a = goal a := by
  induction fields generalizing i s p with
  | nil =>
      rw [ExactFrom, true_and]
      constructor
      · rintro ⟨s', p', hrun, h⟩ a -
        obtain ⟨-, rfl⟩ := Prod.mk.inj (Option.some_inj.mp hrun)
        exact h a
      · intro h
        exact ⟨s, p, rfl, fun a => h a rfl⟩
  | cons f fs ih =>
      obtain ⟨hf, hgap, hfs⟩ := hok
      rw [List.flatMap_cons, List.append_assoc]
      have hword := hf.word_ok
      cases hw : f.word with
      | other w =>
          have hskip : ∀ b, literals b (f :: fs) = literals b fs :=
            fun b => literals_cons_other hw b
          simp only [hw] at hword
          simp only [hskip] at hone hgoal hx ⊢
          have hpass : ∀ b ∈ w ++ f.gap, b ≠ 0 ∧ b ≠ letterX ∧ b ≠ letterY := by
            intro b hb
            rcases List.mem_append.mp hb with hb | hb
            · exact (hword.2 b hb).2
            · exact isSpace_pass (hf.gap_space b hb)
          rw [CoordsBecome, Field.chars, hw, Word.chars, coordsLoop_append hpass,
            exactFrom_cons_other hw]
          exact ih hfs hone hgoal _ p hs hx
      | coord a l =>
          have hcons : literals a (f :: fs) = l :: literals a fs := literals_cons_coord hw
          have hlast : literals a fs = [] := by
            have h := hone a
            rw [hcons, List.length_cons] at h
            exact List.length_eq_zero_iff.mp (by omega)
          have hvalue : goal a = l.value := hgoal a l (by rw [hcons]; exact List.mem_cons_self)
          have hstart : wordStart a.letter s = 0 := by
            cases a with
            | x => exact hx (by rw [hcons]; exact List.cons_ne_nil _ _)
            | y => rfl
          simp only [hw] at hword
          rw [exactFrom_cons_coord hw]
          by_cases hnil : f.gap = []
          · have hfs_nil : fs = [] := by
              by_contra hne
              exact hgap hne hnil
            subst hfs_nil
            rw [ExactFrom, and_true, List.flatMap_nil, List.nil_append]
            exact coordsBecome_field_last i p hw hnil hvalue hs hstart
          · obtain ⟨s₁, j, hbytes, hindex, hiff⟩ :=
              coordsBecome_literal a i p hs hstart hword hf.gap_space hnil
                (fs.flatMap Field.chars ++ 0 :: behind) goal
            have hs₁ := tempIndex_literal hs hword hw hlast hstart hx
            rw [← hindex] at hs₁
            have hsub := fun b => literals_sublist b f fs
            rw [Field.chars, hw, Word.chars, hiff,
              ih hfs (fun b => (hsub b).length_le.trans (hone b))
                (fun b l' hl' => hgoal b l' ((hsub b).subset hl')) j _ hs₁.1 hs₁.2,
              setCoord_goal_iff hw hlast, hbytes, hvalue,
              l.atof_append_iff, LiteralExact, if_neg hnil]
            tauto

/-! ## The whole line -/

theorem zero_not_mem_fields {fields : List Field} (hok : FieldsOk fields) :
    (0 : UInt8) ∉ fields.flatMap Field.chars := by
  induction fields with
  | nil => exact List.not_mem_nil
  | cons f fs ih =>
      obtain ⟨hf, -, hfs⟩ := hok
      have hword := hf.word_ok
      rw [List.flatMap_cons, List.mem_append, Field.chars, List.mem_append, not_or, not_or]
      refine ⟨⟨?_, fun h => (isSpace_pass (hf.gap_space 0 h)).1 rfl⟩, ih hfs⟩
      cases hw : f.word with
      | coord a l =>
          rw [Word.chars, List.mem_cons, not_or]
          exact ⟨(letter_ne_zero a).symm, zero_not_mem_chars⟩
      | other w =>
          simp only [hw] at hword
          exact fun h => (hword.2 0 h).2.1 rfl

namespace CoordLine
variable (line : CoordLine)

theorem zero_not_mem_chars : (0 : UInt8) ∉ line.chars := by
  rw [chars, List.mem_append, List.mem_append, List.mem_append, not_or, not_or, not_or]
  exact ⟨⟨⟨fun h => (isSpace_pass (line.lead_space 0 h)).1 rfl, by decide⟩,
    fun h => (isSpace_pass (line.gap_space 0 h)).1 rfl⟩, zero_not_mem_fields line.fields_ok⟩

/-- The coordinates the line asks for. -/
def goal (p : GCodeParser) (a : Axis) : ℚ :=
  ((line.literal? a).map Literal.value).getD (p.getCoord a)

theorem goal_of_mem (p : GCodeParser) {a : Axis} {l : Literal} (h : l ∈ literals a line.fields) :
    line.goal p a = l.value := by
  have hone : literals a line.fields = [l] := by
    obtain ⟨l', hl'⟩ := List.length_eq_one_iff.mp
      (le_antisymm (line.literals_le a) (List.length_pos_of_mem h))
    rw [hl', List.mem_singleton] at h
    rw [hl', h]
  rw [goal, literal?, hone]
  rfl

theorem goal_of_nil (p : GCodeParser) {a : Axis} (h : literals a line.fields = []) :
    line.goal p a = p.getCoord a := by
  rw [goal, literal?, h]
  rfl

/-- The comparisons of `read` begin at the first character, which must not be white space. -/
theorem not_prefix_of_lead (hlead : line.lead ≠ []) (c : Command) : ¬ c.word <+: line.chars := by
  intro hprefix
  obtain ⟨b, lead, hb⟩ := List.exists_cons_of_ne_nil hlead
  have hspace := line.lead_space b (by rw [hb]; exact List.mem_cons_self)
  have hfirst := (prefix_firstWord_iff c.word_not_space).mpr hprefix
  rw [chars, hb, List.cons_append, List.cons_append, List.cons_append, firstWord,
    List.takeWhile_cons_of_neg (by simp [hspace]), List.prefix_nil] at hfirst
  cases c <;> cases hfirst

/-- `parseCoords` passes over the first word to the fields. -/
theorem parseCoords_eq {n : ℕ} (l : Locals) (inputStr : Buffer n) (p : GCodeParser)
    {behind : List UInt8} (hbytes : inputStr.bytes = line.chars ++ 0 :: behind)
    (hlead : line.lead = []) : p.parseCoords l inputStr =
      GCodeParser.coordsLoop (line.fields.flatMap Field.chars ++ 0 :: behind)
        (0 + (Command.G1.word ++ line.gap).length)
        { temp := l.coordsTemp, furthest := line.chars.length } p := by
  have hG1 : ∀ b ∈ Command.G1.word, b ≠ 0 ∧ b ≠ letterX ∧ b ≠ letterY := by
    simp [Command.word, letterX, letterY]
  have hpass : ∀ b ∈ Command.G1.word ++ line.gap, b ≠ 0 ∧ b ≠ letterX ∧ b ≠ letterY := by
    intro b hb
    rcases List.mem_append.mp hb with hb | hb
    · exact hG1 b hb
    · exact isSpace_pass (line.gap_space b hb)
  have hchars : line.chars = Command.G1.word ++ line.gap ++ line.fields.flatMap Field.chars := by
    rw [chars, hlead, List.nil_append]
  rw [GCodeParser.parseCoords, inputStr.cString_of_append hbytes line.zero_not_mem_chars,
    Option.bind_eq_bind, Option.bind_some, hbytes, ← coordsLoop_append hpass, ← List.append_assoc,
    ← hchars]

/-- The branch of `read` for a move. -/
theorem read_eq {n : ℕ} (l : Locals) (inputStr : Buffer n) (p : GCodeParser)
    {behind : List UInt8} (hbytes : inputStr.bytes = line.chars ++ 0 :: behind)
    (hlead : line.lead = []) : p.read l inputStr =
      (GCodeParser.coordsLoop (line.fields.flatMap Field.chars ++ 0 :: behind)
        (0 + (Command.G1.word ++ line.gap).length)
        { temp := l.coordsTemp, furthest := line.chars.length } p).map
          fun (s, p) => ⟨3, p, s.furthest⟩ := by
  have hline : inputStr.cString = some line.chars :=
    inputStr.cString_of_append hbytes line.zero_not_mem_chars
  have hchars : line.chars = Command.G1.word ++ (line.gap ++ line.fields.flatMap Field.chars) := by
    rw [CoordLine.chars, hlead, List.nil_append, List.append_assoc]
  have hM10 : ¬ Command.M10.word <+: line.chars := by
    rw [hchars]
    simp [Command.word]
  have hM1 : ¬ Command.M1.word <+: line.chars := by
    rw [hchars]
    simp [Command.word]
  have hG1 : Command.G1.word <+: line.chars := by
    rw [hchars]
    exact List.prefix_append _ _
  rw [GCodeParser.read_eq l inputStr p hline]
  simp only [prefix_firstWord_iff (Command.word_not_space _)]
  rw [if_neg hM10, if_neg hM1, if_pos hG1, line.parseCoords_eq l inputStr p hbytes hlead]

end CoordLine

namespace GCodeParser

/-- **Exact coordinates.** -/
theorem coordsExact_iff {n : ℕ} (l : Locals) (inputStr : Buffer n) (p : GCodeParser)
    (line : CoordLine) {behind : List UInt8}
    (hbytes : inputStr.bytes = line.chars ++ 0 :: behind) :
    CoordsExact l inputStr p line ↔
      line.lead = [] ∧ ExactFrom behind l.coordsTemp.bytes line.fields := by
  rw [CoordsExact]
  by_cases hlead : line.lead = []
  · have hloop := coordsBecome_iff behind line.fields_ok line.literals_le
      (fun a l' hl' => line.goal_of_mem p hl') (0 + (Command.G1.word ++ line.gap).length)
      (s := { temp := l.coordsTemp, furthest := line.chars.length }) p (Nat.zero_le 8)
      (fun _ => rfl)
    rw [and_iff_left fun a h => (line.goal_of_nil p h).symm] at hloop
    rw [line.read_eq l inputStr p hbytes hlead, and_iff_right hlead, ← hloop, CoordsBecome]
    constructor
    · rintro ⟨r, hr, -, hgoal⟩
      obtain ⟨⟨s', p'⟩, hrun, rfl⟩ := Option.map_eq_some_iff.mp hr
      exact ⟨s', p', hrun, hgoal⟩
    · rintro ⟨s', p', hrun, hgoal⟩
      exact ⟨_, Option.map_eq_some_iff.mpr ⟨(s', p'), hrun, rfl⟩, rfl, hgoal⟩
  · have hline : inputStr.cString = some line.chars :=
      inputStr.cString_of_append hbytes line.zero_not_mem_chars
    have hnot := line.not_prefix_of_lead hlead
    rw [GCodeParser.read_eq l inputStr p hline]
    simp only [prefix_firstWord_iff (Command.word_not_space _)]
    rw [if_neg (hnot .M10), if_neg (hnot .M1), if_neg (hnot .G1)]
    refine iff_of_false ?_ fun h => hlead h.1
    rintro ⟨r, hr, hcode, -⟩
    rw [← Option.some_inj.mp hr] at hcode
    cases hcode

/-- A field with a whole number of one or more digits, and a blank behind it. -/
def wholeField (a : Axis) (ds : List UInt8) (hne : ds ≠ []) (h : ∀ d ∈ ds, isDigit d) : Field :=
  ⟨.coord a ⟨false, ds, none, hne, h, by simp⟩, [32]⟩

theorem wholeField_ok (a : Axis) {ds : List UInt8} (hne : ds ≠ []) (h : ∀ d ∈ ds, isDigit d)
    (hlen : ds.length ≤ 7) : (wholeField a ds hne h).Ok where
  gap_space := List.forall_mem_singleton.mpr rfl
  word_ok := by
    change (ds ++ []).length ≤ 7
    rwa [List.append_nil]

/-- The line `G1 X1 Y2 `. -/
def shortLine : CoordLine where
  lead := []
  gap := [32]
  fields := [wholeField .x [49] (by decide) (by simp [isDigit]),
    wholeField .y [50] (by decide) (by simp [isDigit])]
  lead_space := by simp
  gap_space := by simp [isSpace]
  gap_ne_nil := by simp
  fields_ok := ⟨wholeField_ok _ _ _ (by decide), by decide, wholeField_ok _ _ _ (by decide),
    by decide, trivial⟩
  literals_le := by intro a; cases a <;> decide

/-- The line `G1 X100 Y5 A0`: the Y literal is shorter than the X literal. -/
def shorterLine : CoordLine where
  lead := []
  gap := [32]
  fields := [wholeField .x [49, 48, 48] (by decide) (by simp [isDigit]),
    wholeField .y [53] (by decide) (by simp [isDigit]), ⟨.other [65, 48], []⟩]
  lead_space := by simp
  gap_space := by simp [isSpace]
  gap_ne_nil := by simp
  fields_ok := ⟨wholeField_ok _ _ _ (by decide), by decide, wholeField_ok _ _ _ (by decide),
    by decide, ⟨by simp, by simp [isSpace, letterX, letterY]⟩, by simp, trivial⟩
  literals_le := by intro a; cases a <;> decide

theorem coordsExact_iff_shortLine :
    CoordsExact .zeroed (lineBuffer shortLine.chars (by decide)) {} shortLine ↔
      shortLine.lead = [] ∧
        ExactFrom (List.replicate 86 0) Locals.zeroed.coordsTemp.bytes shortLine.fields :=
  coordsExact_iff .zeroed (lineBuffer shortLine.chars (by decide)) {} shortLine (by decide)

/-- The Y coordinate of `G1 X100 Y5 A0` is read as 500. -/
theorem shorterLine_not_exact : ¬ CoordsExact .zeroed
    (lineBuffer shorterLine.chars (by decide)) {} shorterLine := by
  rintro ⟨r, hr, -, hgoal⟩
  have hread : ({} : GCodeParser).read .zeroed (lineBuffer shorterLine.chars (by decide)) =
      some ⟨3, { xCoord_ := 100, yCoord_ := 500 }, 13⟩ := by decide +kernel
  rw [hread] at hr
  have hy := hgoal .y
  rw [← Option.some_inj.mp hr] at hy
  exact absurd hy (by decide +kernel)

end GCodeParser

end Plotter
