import Plotter.Basic
import Plotter.Lib.Decimal
import Plotter.LineReader

/-!
# The parser of command lines

`GCodeParser::read` looks at the first characters of a line and hands it to `parseAngle` or
`parseCoords`. These work with local arrays that are not initialised, so what they hold
before is an argument here. Access outside of an array is undefined behaviour: the result is
then `none`.

## Main definitions

* `GCodeParser`, `Locals`: the fields of the parser, and the uninitialised local variables.
* `strncmp`, `sscanf`: the functions of the C library that the parser calls.
* `GCodeParser.parseAngle`, `GCodeParser.parseCoords`, `GCodeParser.read`: the source's
  functions.
* `GCodeParser.read_eq`: the branches of `read` by the first characters of the line.
-/

namespace Plotter

open Lib

/-- The fields of the parser. -/
structure GCodeParser where
  xCoord_ : ℚ := 0
  yCoord_ : ℚ := 0
  angle_ : ℤ := 0
  deriving DecidableEq, Repr

/-- What the local variables hold before they are assigned: `temp` of `parseCoords`, `temp`
and `angle` of `parseAngle`. -/
structure Locals where
  coordsTemp : Buffer 8
  angleTemp : Buffer 5
  angle : ℤ
  deriving DecidableEq

/-- Local variables that happen to be zero. -/
def Locals.zeroed : Locals := ⟨⟨List.replicate 8 0, rfl⟩, ⟨List.replicate 5 0, rfl⟩, 0⟩

/-- An array of `vParserTask` with a line at its start and zeros behind it. -/
def lineBuffer (line : List UInt8) (h : line.length ≤ 96) : Buffer 96 :=
  ⟨line ++ List.replicate (96 - line.length) 0, by simp; omega⟩

/-- Compare at most `n` characters; a difference is that of the first characters that
differ. -/
def strncmp : List UInt8 → List UInt8 → ℕ → ℤ
  | _, _, 0 => 0
  | s, t, n + 1 =>
    let a := s.headD 0
    let b := t.headD 0
    if a ≠ b then (a.toNat : ℤ) - b.toNat
    else if a = 0 then 0
    else strncmp s.tail t.tail n

/-- The characters up to the first white space. -/
def firstWord (line : List UInt8) : List UInt8 := line.takeWhile fun b => !isSpace b

/-- The characters from the first white space on. -/
def afterWord (line : List UInt8) : List UInt8 := line.dropWhile fun b => !isSpace b

/-- The values of an `int`. -/
def FitsInt (n : ℤ) : Prop := -2 ^ 31 ≤ n ∧ n < 2 ^ 31

instance (n : ℤ) : Decidable (FitsInt n) := inferInstanceAs (Decidable (_ ∧ _))

/-- The `int` closest to `n`. -/
def saturate (n : ℤ) : ℤ := max (-2 ^ 31) (min n (2 ^ 31 - 1))

/-- `sscanf(buffer, "%s%d", temp, &angle)`. A conversion that fails leaves its variable
alone, and those that follow it. The standard leaves open what an integer that does not fit
becomes; it saturates here, as in `strtol`. -/
def sscanf (buffer : List UInt8) (temp : Buffer 5) (angle : ℤ) : Option (Buffer 5 × ℤ) := do
  let buffer := buffer.dropWhile isSpace
  let word := firstWord buffer
  if word = [] then return (temp, angle)
  let temp ← temp.memcpy (word ++ [0])
  match scanInt (afterWord buffer) with
  | none => return (temp, angle)
  | some n => return (temp, saturate n)

def letterX : UInt8 := 88
def letterY : UInt8 := 89

/-- The array `temp` of `parseCoords` and the index into it. -/
structure Scratch where
  temp : Buffer 8
  tempIndex : ℕ := 0
  /-- The furthest index at which the line was read; no code reads this. -/
  furthest : ℕ := 0
  deriving DecidableEq

/-- `for (j = ..; isspace(buffer[j]) == false; ++j)` over the bytes from `buffer[j]` on to
the end of its array, with `temp[tempIndex] = buffer[j]; tempIndex++`. -/
def copyWord : List UInt8 → ℕ → Scratch → Option Scratch
  | [], _, _ => none
  | b :: rest, j, s =>
    let s := { s with furthest := max s.furthest j }
    if isSpace b then some s
    else do
      let temp ← s.temp.set s.tempIndex b
      copyWord rest (j + 1) { s with temp := temp, tempIndex := s.tempIndex + 1 }

/-- `temp[strlen(temp)] = 0`, then `atof(temp)`. -/
def convert (temp : Buffer 8) : Option (Buffer 8 × ℚ) := do
  let str ← temp.cString
  let temp ← temp.set str.length 0
  let str ← temp.cString
  return (temp, atof str)

namespace GCodeParser

/-- `read` sees the line in an array that holds it, a NUL and whatever is behind. -/
def parseAngle {n : ℕ} (l : Locals) (buffer : Buffer n) (p : GCodeParser) :
    Option GCodeParser := do
  let line ← buffer.cString
  let (_, angle) ← sscanf line l.angleTemp l.angle
  return { p with angle_ := angle }

/-- The body of the loop at `buffer[i] = b`, with `rest` from `buffer[i + 1]` on. -/
def coordsBody (b : UInt8) (rest : List UInt8) (i : ℕ) (s : Scratch) (p : GCodeParser) :
    Option (Scratch × GCodeParser) := do
  let (s, p) ←
    if b = letterX then do
      let s ← copyWord rest (i + 1) s
      let (temp, xCoord) ← convert s.temp
      some ({ s with temp := temp }, { p with xCoord_ := xCoord })
    else some (s, p)
  -- from here on a second `tempIndex` hides the first
  if b = letterY then do
    let t ← copyWord rest (i + 1) { s with tempIndex := 0 }
    let (temp, yCoord) ← convert t.temp
    some ({ t with temp := temp, tempIndex := s.tempIndex }, { p with yCoord_ := yCoord })
  else some (s, p)

/-- `for (i = ..; i < strlen(buffer); i++)`, with the bytes from `buffer[i]` on. -/
def coordsLoop : List UInt8 → ℕ → Scratch → GCodeParser → Option (Scratch × GCodeParser)
  | [], _, _, _ => none
  | b :: rest, i, s, p =>
    if b = 0 then some (s, p)
    else do
      let (s, p) ← coordsBody b rest i s p
      coordsLoop rest (i + 1) s p

/-- The call of `strlen` reads the line up to its NUL. -/
def parseCoords {n : ℕ} (l : Locals) (buffer : Buffer n) (p : GCodeParser) :
    Option (Scratch × GCodeParser) := do
  let line ← buffer.cString
  coordsLoop buffer.bytes 0 { temp := l.coordsTemp, furthest := line.length } p

/-- What `read` returns, the parser after it, and how far it read the line. -/
structure Result where
  code : ℤ
  parser : GCodeParser
  furthest : ℕ
  deriving DecidableEq, Repr

/-- The functions of the C library read a string up to its NUL. -/
def read {n : ℕ} (l : Locals) (inputStr : Buffer n) (p : GCodeParser) : Option Result := do
  let line ← inputStr.cString
  if strncmp line [77, 49, 48] 3 = 0 then
    return ⟨1, p, line.length⟩
  else if strncmp line [77, 49] 2 = 0 then
    let p ← p.parseAngle l inputStr
    return ⟨2, p, line.length⟩
  else if strncmp line [71, 49] 2 = 0 then
    let (s, p) ← p.parseCoords l inputStr
    return ⟨3, p, s.furthest⟩
  else
    return ⟨0, p, line.length⟩

end GCodeParser

/-- The word of a command. -/
def Command.word : Command → List UInt8
  | .M10 => [77, 49, 48]
  | .M1 => [77, 49]
  | .G1 => [71, 49]
  | .G28 => [71, 50, 56]

/-- A C string is followed by its NUL. -/
theorem Buffer.cString_eq_some {n : ℕ} {b : Buffer n} {line : List UInt8}
    (h : b.cString = some line) : ∃ behind, b.bytes = line ++ 0 :: behind ∧ (0 : UInt8) ∉ line := by
  rw [Buffer.cString] at h
  split_ifs at h with hmem
  obtain ⟨str, behind, hbytes, hstr⟩ := List.eq_append_cons_of_mem hmem
  rw [hbytes, takeWhile_append_cons hstr, Option.some_inj] at h
  subst h
  exact ⟨behind, hbytes, hstr⟩

/-! ## Words at the start of a line -/

/-- A comparison over the whole of a word tells whether the string begins with it. -/
theorem strncmp_eq_zero_iff {s t : List UInt8} (ht : (0 : UInt8) ∉ t) :
    strncmp s t t.length = 0 ↔ t <+: s := by
  induction t generalizing s with
  | nil => simp [strncmp]
  | cons b t ih =>
      rw [List.mem_cons, not_or] at ht
      rw [List.length_cons, strncmp]
      cases s with
      | nil =>
          have hb : b.toNat ≠ 0 := fun h => ht.1 (UInt8.toNat_inj.mp h).symm
          simp only [List.headD_nil, List.headD_cons, ne_eq, ht.1, not_false_eq_true, if_true]
          simp [hb]
      | cons a s =>
          rw [List.cons_prefix_cons]
          by_cases hab : a = b
          · subst hab
            simp [Ne.symm ht.1, ih ht.2]
          · have hne : (a.toNat : ℤ) - b.toNat ≠ 0 := by
              intro h
              exact hab (UInt8.toNat_inj.mp (by omega))
            simp [hab, hne, Ne.symm hab]

/-- A word without white space begins a line if and only if it begins its first word. -/
theorem prefix_firstWord_iff {w line : List UInt8} (hw : ∀ b ∈ w, isSpace b = false) :
    w <+: firstWord line ↔ w <+: line := by
  induction w generalizing line with
  | nil => simp
  | cons b w ih =>
      have hb := hw b List.mem_cons_self
      cases line with
      | nil => simp [firstWord]
      | cons a line =>
          rw [List.cons_prefix_cons, ← ih fun c hc => hw c (List.mem_cons_of_mem b hc)]
          by_cases ha : isSpace a
          · have hne : b ≠ a := by
              rintro rfl
              rw [hb] at ha
              exact Bool.false_ne_true ha
            simp [firstWord, ha, hne]
          · rw [firstWord, List.takeWhile_cons_of_pos (by simpa using ha), List.cons_prefix_cons]
            rfl

theorem Command.word_not_space (c : Command) : ∀ b ∈ c.word, isSpace b = false := by
  cases c <;> simp [word, isSpace]

/-! ## Copying a word -/

/-- The array with the bytes `w` from index `i` on. -/
def Buffer.overwrite {n : ℕ} (b : Buffer n) (i : ℕ) (w : List UInt8) : Option (Buffer n) :=
  if h : i + w.length ≤ n then
    some ⟨b.bytes.take i ++ w ++ b.bytes.drop (i + w.length), by
      have hsize := b.size
      simp only [List.length_append, List.length_take, List.length_drop]
      omega⟩
  else none

theorem Buffer.overwrite_eq_some {n : ℕ} {b b' : Buffer n} {i : ℕ} {w : List UInt8} :
    b.overwrite i w = some b' ↔ i + w.length ≤ n ∧
      b'.bytes = b.bytes.take i ++ w ++ b.bytes.drop (i + w.length) := by
  rw [Buffer.overwrite]
  constructor
  · intro h
    split_ifs at h with hfits
    exact ⟨hfits, by rw [← Option.some_inj.mp h]⟩
  · rintro ⟨hfits, hbytes⟩
    rw [dif_pos hfits, Option.some_inj]
    cases b'
    congr
    exact hbytes.symm

theorem Buffer.overwrite_nil {n : ℕ} (b : Buffer n) {i : ℕ} (hi : i ≤ n) :
    b.overwrite i [] = some b :=
  Buffer.overwrite_eq_some.mpr ⟨hi, by simp⟩

/-- One byte, and then the others behind it. -/
theorem Buffer.overwrite_cons {n : ℕ} (b : Buffer n) (i : ℕ) (x : UInt8) (w : List UInt8) :
    b.overwrite i (x :: w) = (b.set i x).bind fun b => b.overwrite (i + 1) w := by
  by_cases hi : i < n
  · rw [Buffer.set, if_pos hi, Option.bind_some]
    have hlt : i < b.bytes.length := b.size.symm ▸ hi
    have hset : b.bytes.set i x = b.bytes.take i ++ x :: b.bytes.drop (i + 1) :=
      List.set_eq_take_append_cons_drop.trans (if_pos hlt)
    have htake : (b.bytes.take i).length = i := by
      rw [List.length_take]
      omega
    have hbytes : (b.bytes.set i x).take (i + 1) ++ w ++ (b.bytes.set i x).drop (i + 1 + w.length) =
        b.bytes.take i ++ x :: w ++ b.bytes.drop (i + (x :: w).length) := by
      rw [hset, List.take_append, List.drop_append, htake, List.take_take]
      simp only [Nat.add_sub_cancel_left, List.take_succ_cons, List.take_zero, List.length_cons]
      rw [List.drop_eq_nil_of_le (by rw [htake]; omega),
        show i + 1 + w.length - i = w.length + 1 by omega, List.drop_succ_cons, List.drop_drop,
        show i + (w.length + 1) = i + 1 + w.length by omega, min_eq_right (by omega)]
      simp
    ext b'
    rw [Buffer.overwrite_eq_some, Buffer.overwrite_eq_some, hbytes, List.length_cons,
      show i + (w.length + 1) = i + 1 + w.length by omega]
  · rw [Buffer.set, if_neg hi, Buffer.overwrite, dif_neg (by rw [List.length_cons]; omega)]
    rfl

/-- **The copy loop** writes the characters up to the first white space, over the end of the
line if it has to; it needs white space to end and room in the array. -/
theorem copyWord_eq (rest : List UInt8) (j : ℕ) {s : Scratch} (hs : s.tempIndex ≤ 8) :
    copyWord rest j s =
      if rest.any isSpace then
        (s.temp.overwrite s.tempIndex (firstWord rest)).map fun temp =>
          { temp := temp, tempIndex := s.tempIndex + (firstWord rest).length
            furthest := max s.furthest (j + (firstWord rest).length) }
      else none := by
  induction rest generalizing j s with
  | nil => rfl
  | cons b rest ih =>
      rw [copyWord, List.any_cons]
      by_cases hspace : isSpace b
      · rw [firstWord, List.takeWhile_cons_of_neg (by simpa using hspace),
          Buffer.overwrite_nil _ hs]
        simp [hspace]
      · have hword : firstWord (b :: rest) = b :: firstWord rest := by
          rw [firstWord, List.takeWhile_cons_of_pos (by simpa using hspace)]
          rfl
        rw [hword, Buffer.overwrite_cons, Bool.eq_false_iff.mpr hspace, Bool.false_or]
        cases hset : s.temp.set s.tempIndex b with
        | none =>
            simp only [Bool.false_eq_true, if_false, Option.bind_eq_bind, Option.bind_none,
              Option.map_none, ite_self]
        | some temp =>
            have hlt : s.tempIndex < 8 := by
              by_contra hge
              rw [Buffer.set, if_neg hge] at hset
              cases hset
            simp only [Bool.false_eq_true, if_false, Option.bind_eq_bind, Option.bind_some]
            rw [ih (j + 1) (Nat.succ_le_of_lt hlt)]
            simp only [List.length_cons, max_assoc]
            rw [show j + ((firstWord rest).length + 1) = j + 1 + (firstWord rest).length by omega,
              show s.tempIndex + ((firstWord rest).length + 1) =
                s.tempIndex + 1 + (firstWord rest).length by omega,
              max_eq_right (by omega : j ≤ j + 1 + (firstWord rest).length)]

/-- The conversion writes a NUL over the one it has found. -/
theorem convert_eq (temp : Buffer 8) : convert temp =
    if 0 ∈ temp.bytes then some (temp, atof (temp.bytes.takeWhile (· ≠ 0))) else none := by
  rw [convert, Buffer.cString]
  by_cases hmem : 0 ∈ temp.bytes
  · obtain ⟨str, t, hbytes, hstr⟩ := List.eq_append_cons_of_mem hmem
    have hcString := temp.cString_of_append hbytes hstr
    have hlt : str.length < 8 := by
      rw [← temp.size, hbytes, List.length_append, List.length_cons]
      omega
    have hset : temp.set str.length 0 = some temp := by
      rw [Buffer.set, if_pos hlt, Option.some_inj]
      cases temp
      simp only [Buffer.mk.injEq] at hbytes ⊢
      simp [hbytes]
    rw [Buffer.cString, if_pos hmem, Option.some_inj] at hcString
    rw [if_pos hmem, if_pos hmem, hcString]
    simp only [Option.bind_eq_bind, Option.bind_some, hset, Buffer.cString, if_pos hmem, hcString]
    rfl
  · rw [if_neg hmem, if_neg hmem]
    rfl

namespace GCodeParser

/-- **The branches of `read`** by the first word of the line. -/
theorem read_eq {n : ℕ} (l : Locals) (inputStr : Buffer n) (p : GCodeParser) {line : List UInt8}
    (hline : inputStr.cString = some line) : p.read l inputStr =
      if Command.M10.word <+: firstWord line then some ⟨1, p, line.length⟩
      else if Command.M1.word <+: firstWord line then
        (p.parseAngle l inputStr).map fun p => ⟨2, p, line.length⟩
      else if Command.G1.word <+: firstWord line then
        (p.parseCoords l inputStr).map fun (s, p) => ⟨3, p, s.furthest⟩
      else some ⟨0, p, line.length⟩ := by
  have hword : ∀ c : Command, strncmp line c.word c.word.length = 0 ↔
      c.word <+: firstWord line := by
    intro c
    rw [strncmp_eq_zero_iff (by cases c <;> decide), prefix_firstWord_iff c.word_not_space]
  simp only [← hword]
  rw [read, hline]
  cases p.parseAngle l inputStr <;> cases p.parseCoords l inputStr <;> rfl

/-- `parseAngle` on a line that begins with a word: four characters of it fit the array,
and without an integer behind it the local variable stays what it was. -/
theorem parseAngle_eq {n : ℕ} (l : Locals) (buffer : Buffer n) (p : GCodeParser)
    {line : List UInt8} (hline : buffer.cString = some line) (hword : firstWord line ≠ []) :
    p.parseAngle l buffer =
      if (firstWord line).length ≤ 4 then
        some { p with angle_ := ((scanInt (afterWord line)).map saturate).getD l.angle }
      else none := by
  have hstart : line.dropWhile isSpace = line := by
    cases line with
    | nil => rfl
    | cons b line =>
        rw [List.dropWhile_cons_of_neg]
        intro hb
        exact hword (by rw [firstWord, List.takeWhile_cons_of_neg (by simp [hb])])
  rw [parseAngle, hline]
  simp only [Option.bind_eq_bind, Option.bind_some, sscanf, hstart, if_neg hword]
  by_cases hfits : (firstWord line).length ≤ 4
  · have hlen : (firstWord line ++ [0]).length ≤ 5 := by
      rw [List.length_append, List.length_singleton]
      omega
    rw [if_pos hfits, Buffer.memcpy, dif_pos hlen]
    cases scanInt (afterWord line) <;> rfl
  · have hlen : ¬ (firstWord line ++ [0]).length ≤ 5 := by
      rw [List.length_append, List.length_singleton]
      omega
    rw [if_neg hfits, Buffer.memcpy, dif_neg hlen]
    rfl

/-! ## The loop over the coordinates -/

/-- The body of the loop at an X: the word is copied to where the last X word ended. -/
theorem coordsBody_x (rest : List UInt8) (i : ℕ) {s : Scratch} (p : GCodeParser)
    (hs : s.tempIndex ≤ 8) : coordsBody letterX rest i s p =
      if rest.any isSpace then
        (s.temp.overwrite s.tempIndex (firstWord rest)).bind fun temp =>
          if 0 ∈ temp.bytes then
            some ({ temp := temp, tempIndex := s.tempIndex + (firstWord rest).length
                    furthest := max s.furthest (i + 1 + (firstWord rest).length) },
              { p with xCoord_ := atof (temp.bytes.takeWhile (· ≠ 0)) })
          else none
      else none := by
  have hXY : letterX ≠ letterY := by decide
  simp only [coordsBody, if_true, if_neg hXY, Option.bind_eq_bind]
  rw [copyWord_eq rest (i + 1) hs]
  by_cases hspace : rest.any isSpace
  · rw [if_pos hspace, if_pos hspace]
    cases s.temp.overwrite s.tempIndex (firstWord rest) with
    | none => rfl
    | some temp =>
        simp only [Option.map_some, Option.bind_some, convert_eq]
        split_ifs <;> rfl
  · rw [if_neg hspace, if_neg hspace]
    rfl

/-- The body of the loop at a Y: the word is copied to the start of the array. -/
theorem coordsBody_y (rest : List UInt8) (i : ℕ) (s : Scratch) (p : GCodeParser) :
    coordsBody letterY rest i s p =
      if rest.any isSpace then
        (s.temp.overwrite 0 (firstWord rest)).bind fun temp =>
          if 0 ∈ temp.bytes then
            some ({ temp := temp, tempIndex := s.tempIndex
                    furthest := max s.furthest (i + 1 + (firstWord rest).length) },
              { p with yCoord_ := atof (temp.bytes.takeWhile (· ≠ 0)) })
          else none
      else none := by
  have hYX : letterY ≠ letterX := by decide
  simp only [coordsBody, if_neg hYX, if_true, Option.bind_eq_bind, Option.bind_some]
  rw [copyWord_eq rest (i + 1) (s := { s with tempIndex := 0 }) (Nat.zero_le 8)]
  by_cases hspace : rest.any isSpace
  · rw [if_pos hspace, if_pos hspace]
    cases s.temp.overwrite 0 (firstWord rest) with
    | none => rfl
    | some temp =>
        simp only [Option.map_some, Option.bind_some, convert_eq]
        split_ifs <;> rfl
  · rw [if_neg hspace, if_neg hspace]
    rfl

theorem coordsBody_of_ne {b : UInt8} (hX : b ≠ letterX) (hY : b ≠ letterY) (rest : List UInt8)
    (i : ℕ) (s : Scratch) (p : GCodeParser) : coordsBody b rest i s p = some (s, p) := by
  simp only [coordsBody, if_neg hX, if_neg hY, Option.bind_eq_bind, Option.bind_some]

theorem coordsLoop_cons {b : UInt8} (hb : b ≠ 0) (rest : List UInt8) (i : ℕ) (s : Scratch)
    (p : GCodeParser) : coordsLoop (b :: rest) i s p =
      (coordsBody b rest i s p).bind fun q => coordsLoop rest (i + 1) q.1 q.2 := by
  rw [coordsLoop, if_neg hb]
  rfl

end GCodeParser

end Plotter
