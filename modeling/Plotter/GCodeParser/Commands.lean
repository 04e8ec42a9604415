import Plotter.GCodeParser.Bounds
import Plotter.System

/-!
# Which lines are commands

`read` compares the first characters of a line with the words `M10`, `M1` and `G1`, in this
order, and returns the number of the command. A word that goes on after one of these is
taken for it all the same, and no comparison is made for `G28`, which both tasks know.

## Main definitions

* `Result.parsedLine`: what `vParserTask` has of a line that was read.
* `Recognised`: a line is taken for the command its first word names.
* `recognised_iff`: for which lines this is so.
-/

namespace Plotter

open Lib

/-- What `vParserTask` takes from the parser after `read`. -/
def GCodeParser.Result.parsedLine (r : GCodeParser.Result) : ParsedLine :=
  { read := r.code, angle := r.parser.angle_, xCoord := r.parser.xCoord_
    yCoord := r.parser.yCoord_ }

/-- A line with the first word `w` is taken for the command that `w` names: `read` returns
its number, and `vParserTask` sends one item, of its kind. A line with another first word
gives zero, and nothing is sent. -/
structure Recognised (w : List UInt8) (r : GCodeParser.Result) (gObject : GObject) : Prop where
  code_iff : ∀ c : Command, r.code = c.toInt ↔ w = c.word
  code_other : (∀ c : Command, w ≠ c.word) → r.code = 0
  sends : ∀ c : Command, w = c.word →
    ∃ g, r.parsedLine.store gObject = some g ∧ Command.ofInt? g.command = some c
  sends_nothing : (∀ c : Command, w ≠ c.word) → r.parsedLine.store gObject = none

theorem Command.toInt_inj {c d : Command} : c.toInt = d.toInt ↔ c = d := by
  cases c <;> cases d <;> decide

theorem Command.word_inj {c d : Command} : c.word = d.word ↔ c = d := by
  cases c <;> cases d <;> decide

theorem Command.toInt_ne_zero (c : Command) : c.toInt ≠ 0 := by cases c <;> decide

section Recognised
variable {w : List UInt8} {r : GCodeParser.Result} {gObject : GObject}

/-- With the number of a command, the line has to begin with its word. -/
theorem recognised_iff_of_code {c : Command} (hcode : r.code = c.toInt) :
    Recognised w r gObject ↔ w = c.word := by
  constructor
  · intro h
    exact (h.code_iff c).mp hcode
  · rintro rfl
    have hsame : ∀ d : Command, c.word = d.word ↔ c = d := fun d => Command.word_inj
    refine ⟨fun d => ?_, fun hother => absurd rfl (hother c), fun d hd => ?_,
      fun hother => absurd rfl (hother c)⟩
    · rw [hcode, Command.toInt_inj, hsame]
    · obtain rfl := (hsame d).mp hd
      have hread : Command.ofInt? r.parsedLine.read = some c := by
        rw [GCodeParser.Result.parsedLine, hcode, Command.ofInt?_toInt]
      rw [ParsedLine.store, hread]
      cases c <;> exact ⟨_, rfl, rfl⟩

/-- With zero, the first word must not be that of a command. -/
theorem recognised_iff_of_zero (hcode : r.code = 0) :
    Recognised w r gObject ↔ ∀ c : Command, w ≠ c.word := by
  constructor
  · intro h c hw
    have hc := (h.code_iff c).mpr hw
    rw [hcode] at hc
    exact c.toInt_ne_zero hc.symm
  · intro hother
    refine ⟨fun c => ?_, fun _ => hcode, fun c hw => absurd hw (hother c), fun _ => ?_⟩
    · rw [hcode]
      exact ⟨fun hc => absurd hc.symm c.toInt_ne_zero, fun hw => absurd hw (hother c)⟩
    · rw [ParsedLine.store, GCodeParser.Result.parsedLine, hcode]
      rfl

/-- A branch of `read` that returns the number of a command. -/
theorem exists_recognised_iff {branch : Option GCodeParser.Result} {c : Command}
    (hcode : ∀ r, branch = some r → r.code = c.toInt) :
    (∃ r, branch = some r ∧ Recognised w r gObject) ↔ w = c.word ∧ branch.isSome := by
  constructor
  · rintro ⟨r, hr, h⟩
    exact ⟨(recognised_iff_of_code (hcode r hr)).mp h, by rw [hr]; rfl⟩
  · rintro ⟨hw, hsome⟩
    obtain ⟨r, hr⟩ := Option.isSome_iff_exists.mp hsome
    exact ⟨r, hr, (recognised_iff_of_code (hcode r hr)).mpr hw⟩

end Recognised

namespace GCodeParser

/-- `parseAngle` has room for the word `M1`. -/
theorem parseAngle_isSome {n : ℕ} (l : Locals) (inputStr : Buffer n) (p : GCodeParser)
    {line : List UInt8} (hline : inputStr.cString = some line)
    (hw : firstWord line = Command.M1.word) : (p.parseAngle l inputStr).isSome := by
  have hne : firstWord line ≠ [] := by
    rw [hw]
    decide
  have hfits : (firstWord line).length ≤ 4 := by
    rw [hw]
    decide
  rw [parseAngle_eq l inputStr p hline hne, if_pos hfits]
  rfl

/-- **Recognition.** A line is taken for the command that its first word names if and only
if that word is `M10` or `M1`, or it is `G1` and the words that `parseCoords` copies fit its
array, or it begins neither with `M1` nor with `G1` and is not `G28`. -/
theorem recognised_iff {n : ℕ} (l : Locals) (inputStr : Buffer n) (p : GCodeParser)
    (gObject : GObject) {line : List UInt8} (hline : inputStr.cString = some line) :
    (∃ r, p.read l inputStr = some r ∧ Recognised (firstWord line) r gObject) ↔
      firstWord line = Command.M10.word ∨ firstWord line = Command.M1.word ∨
      (firstWord line = Command.G1.word ∧ CopiesFit inputStr.bytes 0 l.coordsTemp) ∨
      (¬ Command.M1.word <+: firstWord line ∧ ¬ Command.G1.word <+: firstWord line ∧
        firstWord line ≠ Command.G28.word) := by
  -- a word that begins the line leaves open only the commands that begin with it
  have hne : ∀ c d : Command, c.word <+: firstWord line → ¬ c.word <+: d.word →
      firstWord line ≠ d.word := by
    intro c d hc hcd hd
    rw [hd] at hc
    exact hcd hc
  have hbegins : ∀ c : Command, firstWord line = c.word → c.word <+: firstWord line := by
    intro c hc
    rw [hc]
  rw [read_eq l inputStr p hline, ← parseCoords_isSome_iff l inputStr p hline]
  by_cases h10 : Command.M10.word <+: firstWord line
  · have hM1 : Command.M1.word <+: firstWord line := .trans (by decide) h10
    have h1 := hne .M10 .M1 h10 (by decide)
    have hG1 := hne .M10 .G1 h10 (by decide)
    rw [if_pos h10, exists_recognised_iff (c := .M10)]
    · simp [hM1, h1, hG1]
    · intro r hr
      rw [← Option.some_inj.mp hr]
      rfl
  have hw10 : firstWord line ≠ Command.M10.word := fun hw => h10 (hbegins .M10 hw)
  rw [if_neg h10]
  by_cases h1 : Command.M1.word <+: firstWord line
  · have hG1 := hne .M1 .G1 h1 (by decide)
    rw [if_pos h1, exists_recognised_iff (c := .M1)]
    · rw [Option.isSome_map, and_iff_left_of_imp (p.parseAngle_isSome l inputStr hline)]
      simp [h1, hw10, hG1]
    · intro r hr
      obtain ⟨q, -, rfl⟩ := Option.map_eq_some_iff.mp hr
      rfl
  have hw1 : firstWord line ≠ Command.M1.word := fun hw => h1 (hbegins .M1 hw)
  rw [if_neg h1]
  by_cases hG1 : Command.G1.word <+: firstWord line
  · rw [if_pos hG1, exists_recognised_iff (c := .G1)]
    · simp [hG1, hw10, hw1]
    · intro r hr
      obtain ⟨q, -, rfl⟩ := Option.map_eq_some_iff.mp hr
      rfl
  have hwG1 : firstWord line ≠ Command.G1.word := fun hw => hG1 (hbegins .G1 hw)
  rw [if_neg hG1]
  have hzero : (∃ r, some (⟨0, p, line.length⟩ : Result) = some r ∧
      Recognised (firstWord line) r gObject) ↔ ∀ c : Command, firstWord line ≠ c.word := by
    have hresult : Recognised (firstWord line) ⟨0, p, line.length⟩ gObject ↔ _ :=
      recognised_iff_of_zero rfl
    simpa using hresult
  rw [hzero]
  constructor
  · intro hother
    exact .inr (.inr (.inr ⟨h1, hG1, hother .G28⟩))
  · rintro (hw | hw | ⟨hw, -⟩ | ⟨-, -, h28⟩) c
    · exact absurd hw hw10
    · exact absurd hw hw1
    · exact absurd hw hwG1
    · cases c with
      | M10 => exact hw10
      | M1 => exact hw1
      | G1 => exact hwG1
      | G28 => exact h28

/-- The line `G1 X12.5 Y3 A0`. -/
def twoCoords : List UInt8 :=
  [71, 49, 32, 88, 49, 50, 46, 53, 32, 89, 51, 32, 65, 48]

theorem cString_twoCoords : (lineBuffer twoCoords (by decide)).cString = some twoCoords := by
  decide

/-- Both words fit into `temp`, which holds zeros. -/
theorem copiesFit_twoCoords :
    CopiesFit (lineBuffer twoCoords (by decide)).bytes 0 Locals.zeroed.coordsTemp :=
  (parseCoords_isSome_iff .zeroed _ {} cString_twoCoords).mp (by decide +kernel)

theorem recognised_iff_twoCoords :
    ∃ r, ({} : GCodeParser).read .zeroed (lineBuffer twoCoords (by decide)) = some r ∧
      Recognised (firstWord twoCoords) r {} :=
  (recognised_iff .zeroed (lineBuffer twoCoords (by decide)) {} {} cString_twoCoords).mpr
    (.inr (.inr (.inl ⟨by decide, copiesFit_twoCoords⟩)))

/-- The line `G28` is not recognised: `read` returns zero, and nothing is sent. -/
theorem G28_unrecognised : ¬ ∃ r,
    ({} : GCodeParser).read .zeroed (lineBuffer [71, 50, 56] (by decide)) = some r ∧
      Recognised (firstWord [71, 50, 56]) r {} := by
  rintro ⟨r, hr, h⟩
  have hread : ({} : GCodeParser).read .zeroed (lineBuffer [71, 50, 56] (by decide)) =
      some ⟨0, {}, 3⟩ := by decide
  obtain rfl := Option.some_inj.mp (hread.symm.trans hr)
  have hcode := (h.code_iff .G28).mpr (by decide)
  exact absurd hcode (by decide)

end GCodeParser

end Plotter
