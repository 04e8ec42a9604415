import Plotter.GCodeParser.Commands

/-!
# The angle of a servo command

`parseAngle` assigns the field `angle_` from a local variable, whether or not `sscanf` found
an integer for it. So the angle is that of the line when there is one, and otherwise
whatever was on the stack, never the previous angle.

## Main definitions

* `intWord?`: the integer that a word is.
* `lineInt?`: the integer behind the first word of a line.
* `AngleOfLine`: the angle is the integer of the line, or the previous one without it.
* `angleOfLine_iff`: for which lines this is so.
-/

namespace Plotter

open Lib

/-- The integer that a word is: an optional sign and digits. -/
def intWord? (w : List UInt8) : Option ℤ :=
  let (sign, ds) := signOf w
  if ds ≠ [] ∧ ds.all isDigit then some (sign * natOf ds) else none

/-- The second word of a line; empty if there is none. -/
def secondWord (line : List UInt8) : List UInt8 := firstWord ((afterWord line).dropWhile isSpace)

/-- The integer behind the first word of a line, if the second word is one and fits in
`int`. -/
def lineInt? (line : List UInt8) : Option ℤ :=
  (intWord? (secondWord line)).filter fun n => decide (FitsInt n)

/-- After a line of the servo command the angle is the integer of the line, or what it was
before if the line has none, whatever the local variables held; and that is the servo value
that `vParserTask` sends. -/
def AngleOfLine {n : ℕ} (inputStr : Buffer n) (line : List UInt8) : Prop :=
  ∀ (l : Locals) (p : GCodeParser) (gObject : GObject), ∃ r, p.read l inputStr = some r ∧
    r.code = Command.M1.toInt ∧ r.parser.angle_ = (lineInt? line).getD p.angle_ ∧
    ∃ g, r.parsedLine.store gObject = some g ∧ g.servo = (lineInt? line).getD p.angle_

theorem saturate_of_fitsInt {n : ℤ} (h : FitsInt n) : saturate n = n := by
  rw [FitsInt] at h
  rw [saturate]
  omega

/-- The sign of a string is that of its first word. -/
theorem signOf_firstWord (s : List UInt8) :
    signOf (firstWord s) = ((signOf s).1, firstWord (signOf s).2) := by
  cases s with
  | nil => rfl
  | cons b s =>
      by_cases hspace : isSpace b
      · have hminus : b ≠ minus := by
          rintro rfl
          exact absurd hspace (by decide)
        have hplus : b ≠ plus := by
          rintro rfl
          exact absurd hspace (by decide)
        simp [firstWord, hspace, signOf, hminus, hplus]
      · have hword : firstWord (b :: s) = b :: firstWord s := by
          rw [firstWord, List.takeWhile_cons_of_pos (by simpa using hspace)]
          rfl
        rw [hword, signOf, signOf]
        split_ifs
        · rfl
        · rfl
        · rw [hword]

/-- The digits at the start of a string are its first word, if that is all digits. -/
theorem takeWhile_isDigit_eq_firstWord {s : List UInt8} (h : ∀ d ∈ firstWord s, isDigit d) :
    s.takeWhile isDigit = firstWord s := by
  induction s with
  | nil => rfl
  | cons b s ih =>
      by_cases hspace : isSpace b
      · have hdigit : isDigit b ≠ true := by
          intro hd
          rw [not_isSpace_of_isDigit hd] at hspace
          exact Bool.false_ne_true hspace
        rw [firstWord, List.takeWhile_cons_of_neg hdigit,
          List.takeWhile_cons_of_neg (by simpa using hspace)]
      · have hword : firstWord (b :: s) = b :: firstWord s := by
          rw [firstWord, List.takeWhile_cons_of_pos (by simpa using hspace)]
          rfl
        rw [hword] at h ⊢
        rw [List.takeWhile_cons_of_pos (h b List.mem_cons_self),
          ih fun d hd => h d (List.mem_cons_of_mem b hd)]

/-- `%d` reads the second word of a line if that is an integer. -/
theorem scanInt_of_intWord {line : List UInt8} {n : ℤ} (h : intWord? (secondWord line) = some n) :
    scanInt (afterWord line) = some n := by
  rw [secondWord, intWord?, signOf_firstWord] at h
  rw [scanInt]
  set s := (afterWord line).dropWhile isSpace
  by_cases hds : firstWord (signOf s).2 ≠ [] ∧ (firstWord (signOf s).2).all isDigit
  · simp only [if_pos hds] at h
    simp only [takeWhile_isDigit_eq_firstWord (List.all_eq_true.mp hds.2), if_neg hds.1]
    exact h
  · simp only [if_neg hds] at h
    cases h

theorem lineInt?_eq_some {line : List UInt8} {n : ℤ} (h : lineInt? line = some n) :
    (scanInt (afterWord line)).map saturate = some n := by
  obtain ⟨hword, hfits⟩ := Option.filter_eq_some_iff.mp h
  rw [scanInt_of_intWord hword, Option.map_some, saturate_of_fitsInt (of_decide_eq_true hfits)]

namespace GCodeParser

/-- `read` on a line of the servo command. -/
theorem read_angle {n : ℕ} (l : Locals) (inputStr : Buffer n) (p : GCodeParser)
    {line : List UInt8} (hline : inputStr.cString = some line)
    (h10 : ¬ Command.M10.word <+: firstWord line) (h1 : Command.M1.word <+: firstWord line)
    (hfits : (firstWord line).length ≤ 4) : p.read l inputStr =
      some ⟨2, { p with angle_ := ((scanInt (afterWord line)).map saturate).getD l.angle },
        line.length⟩ := by
  have hne : firstWord line ≠ [] := by
    intro hnil
    rw [hnil] at h1
    exact absurd h1 (by decide)
  rw [read_eq l inputStr p hline, if_neg h10, if_pos h1, parseAngle_eq l inputStr p hline hne,
    if_pos hfits]
  rfl

/-- **The angle.** A line of the servo command sets the angle as it should, whatever is on the
stack, if and only if its second word is an integer that fits in `int`. -/
theorem angleOfLine_iff {n : ℕ} (inputStr : Buffer n) {line : List UInt8}
    (hline : inputStr.cString = some line) (h10 : ¬ Command.M10.word <+: firstWord line)
    (h1 : Command.M1.word <+: firstWord line) (hfits : (firstWord line).length ≤ 4) :
    AngleOfLine inputStr line ↔ (lineInt? line).isSome := by
  constructor
  · intro h
    by_contra hnone
    rw [Bool.not_eq_true, Option.isSome_eq_false_iff, Option.isNone_iff_eq_none] at hnone
    -- without an integer of its own the line gives an angle that the previous one does not enter
    set angle := ((scanInt (afterWord line)).map saturate).getD Locals.zeroed.angle with hangle
    obtain ⟨r, hr, -, hprevious, -⟩ := h .zeroed { angle_ := angle + 1 } {}
    rw [read_angle .zeroed inputStr _ hline h10 h1 hfits] at hr
    obtain rfl := Option.some_inj.mp hr
    rw [hnone] at hprevious
    simp only [Option.getD_none, ← hangle] at hprevious
    omega
  · intro h l p gObject
    obtain ⟨m, hm⟩ := Option.isSome_iff_exists.mp h
    rw [read_angle l inputStr p hline h10 h1 hfits, lineInt?_eq_some hm, hm]
    exact ⟨_, rfl, rfl, rfl, _, rfl, rfl⟩

/-- The line `M1 90`. -/
def angleLine : List UInt8 := [77, 49, 32, 57, 48]

theorem angleOfLine_iff_angleLine : AngleOfLine (lineBuffer angleLine (by decide)) angleLine ↔
    (lineInt? angleLine).isSome :=
  angleOfLine_iff (lineBuffer angleLine (by decide)) (by decide) (by decide) (by decide) (by decide)

/-- The line `M1` leaves what was on the stack, here 7, as the angle. -/
theorem bareM1_garbage : ¬ AngleOfLine (lineBuffer [77, 49] (by decide)) [77, 49] := by
  intro h
  obtain ⟨r, hr, -, hprevious, -⟩ := h { Locals.zeroed with angle := 7 } {} {}
  have hread : ({} : GCodeParser).read { Locals.zeroed with angle := 7 }
      (lineBuffer [77, 49] (by decide)) = some ⟨2, { angle_ := 7 }, 2⟩ := by decide
  obtain rfl := Option.some_inj.mp (hread.symm.trans hr)
  exact absurd hprevious (by decide)

end GCodeParser

end Plotter
