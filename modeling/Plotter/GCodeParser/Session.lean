import Plotter.GCodeParser.Angle
import Plotter.GCodeParser.Coords

/-!
# The commands of a session

The parser keeps its coordinates from one line to the next: an axis without a literal stays
where the last literal put it. What a literal is read as may depend on what is on the
stack, but not if it fills seven of the eight bytes of `temp`: then `parseCoords` stays
inside its array only with a NUL right behind it. So a host that writes its coordinates with
seven characters is understood, line by line, in every session in which the parser stays
inside its arrays.

## Main definitions

* `Locals.Terminated`: there is a NUL right behind such coordinates.
* `HostLine`: the lines of a host, as it means them.
* `HostLine.Plain`: the lines that mean the same to the parser.
* `orders`: the commands of a session, with the coordinates that are kept.
* `GCodeParser.readAll`: the calls of `read` of a session.
* `readAll_orders`: the parser reads the commands of the session.
* `HostOrder.line`: how a host can write its commands.
-/

namespace Plotter

open Lib

/-- A line of the host, without its newline. -/
inductive HostLine
  | M10
  | M1 (angle : Literal)
  | G1 (line : CoordLine)

namespace HostLine

def chars : HostLine → List UInt8
  | .M10 => Command.M10.word
  | .M1 angle => Command.M1.word ++ 32 :: angle.chars
  | .G1 line => line.chars

/-- The integer that the literal of an angle is. -/
def angleValue (angle : Literal) : ℤ := angle.sign * natOf angle.whole

/-- The angle is an `int`; the word of a move stands at the start of its line, and its literals
have seven characters with white space behind them. -/
def Plain : HostLine → Prop
  | .M10 => True
  | .M1 angle => angle.fraction = none ∧ FitsInt (angleValue angle)
  | .G1 line => line.lead = [] ∧
    ∀ f ∈ line.fields, ∀ a l, f.word = .coord a l → l.chars.length = 7 ∧ f.gap ≠ []

/-- The coordinates after a line, if they were `xy` before it. -/
def coords (xy : Axis → ℚ) : HostLine → Axis → ℚ
  | .G1 line, a => ((line.literal? a).map Literal.value).getD (xy a)
  | .M10, a | .M1 _, a => xy a

/-- The command of a line, if the coordinates were `xy` before it. -/
def order (xy : Axis → ℚ) : HostLine → Order
  | .M10 => .M10
  | .M1 angle => .M1 (angleValue angle)
  | .G1 line => .G1 ((HostLine.G1 line).coords xy .x) ((HostLine.G1 line).coords xy .y)

end HostLine

/-- The commands of the lines, each with the coordinates that the lines before it leave. -/
def orders : (Axis → ℚ) → List HostLine → List Order
  | _, [] => []
  | xy, line :: lines => line.order xy :: orders (line.coords xy) lines

theorem length_orders (xy : Axis → ℚ) (lines : List HostLine) :
    (orders xy lines).length = lines.length := by
  induction lines generalizing xy with
  | nil => rfl
  | cons line lines ih => rw [orders, List.length_cons, ih, List.length_cons]

theorem orders_append (xy : Axis → ℚ) (before after : List HostLine) :
    orders xy (before ++ after) =
      orders xy before ++ orders (before.foldl HostLine.coords xy) after := by
  induction before generalizing xy with
  | nil => rfl
  | cons line before ih => rw [List.cons_append, orders, ih]; rfl

/-- The commands of the first lines come first. -/
theorem orders_begins {before lines : List HostLine} (h : before <+: lines) (xy : Axis → ℚ) :
    orders xy before <+: orders xy lines := by
  obtain ⟨after, rfl⟩ := h
  rw [orders_append]
  exact List.prefix_append _ _

/-- The last byte of the array `temp` of `parseCoords` is a NUL when it is called. -/
def Locals.Terminated (l : Locals) : Prop := l.coordsTemp.bytes.drop 7 = [0]

namespace GCodeParser

/-! ## The move command -/

section Seven
variable {behind : List UInt8} {fields : List Field}
  (hseven : ∀ f ∈ fields, ∀ a l, f.word = .coord a l → l.chars.length = 7 ∧ f.gap ≠ [])
include hseven

variable (behind) in
/-- A literal of seven characters has one byte of `temp` behind it. That byte stays what it is,
so all literals of the line need the same. -/
theorem exactFrom_iff_nul {temp : List UInt8} (hsize : temp.length = 8) :
    ExactFrom behind temp fields ↔ ((∃ a, literals a fields ≠ []) → temp.drop 7 = [0]) := by
  induction fields generalizing temp with
  | nil => exact iff_of_true trivial fun ⟨a, ha⟩ => absurd rfl ha
  | cons f fs ih =>
      have ih := @ih fun g hg => hseven g (List.mem_cons_of_mem f hg)
      cases hw : f.word with
      | other w =>
          have hskip : ∀ a, literals a (f :: fs) = literals a fs :=
            fun a => literals_cons_other hw a
          simp only [exactFrom_cons_other hw, hskip]
          exact ih hsize
      | coord a l =>
          obtain ⟨hlen, hne⟩ := hseven f List.mem_cons_self a l hw
          obtain ⟨c, hc⟩ : ∃ c, temp.drop 7 = [c] := by
            rw [← List.length_eq_one_iff, List.length_drop, hsize]
          have hsome : ∃ a, literals a (f :: fs) ≠ [] :=
            ⟨a, by rw [literals_cons_coord hw]; exact List.cons_ne_nil _ _⟩
          have hrest : (l.chars ++ [c]).drop 7 = [c] := by rw [← hlen, List.drop_left]
          rw [exactFrom_cons_coord hw, LiteralExact, if_neg hne, hlen, hc,
            ih (by rw [List.length_append, hlen, List.length_singleton]), hrest,
            imp_iff_right hsome, List.mem_singleton, List.singleton_inj]
          constructor
          · rintro ⟨⟨hzero, -⟩, -⟩
            exact hzero.symm
          · rintro rfl
            refine ⟨⟨rfl, ?_⟩, fun _ => rfl⟩
            rw [List.takeWhile_cons_of_neg (by decide), ← l.atof_append_iff, List.append_nil,
              l.atof_chars]

/-- The parser stays inside `temp` only with a NUL in its last byte. -/
theorem nul_of_coordsBecome (hok : FieldsOk fields) (hone : ∀ a, (literals a fields).length ≤ 1)
    {i : ℕ} {s : Scratch} {p : GCodeParser} {goal : Axis → ℚ} (hs : s.tempIndex = 0)
    (hbecome : CoordsBecome (fields.flatMap Field.chars ++ 0 :: behind) i s p goal)
    (hsome : ∃ a, literals a fields ≠ []) : s.temp.bytes.drop 7 = [0] := by
  induction fields generalizing i with
  | nil =>
      obtain ⟨a, ha⟩ := hsome
      exact absurd rfl ha
  | cons f fs ih =>
      obtain ⟨hf, hgap, hfs⟩ := hok
      have hword := hf.word_ok
      rw [List.flatMap_cons, List.append_assoc] at hbecome
      cases hw : f.word with
      | other w =>
          have hskip : ∀ a, literals a (f :: fs) = literals a fs :=
            fun a => literals_cons_other hw a
          simp only [hw] at hword
          simp only [hskip] at hone hsome
          have hpass : ∀ c ∈ w ++ f.gap, c ≠ 0 ∧ c ≠ letterX ∧ c ≠ letterY := by
            intro c hc
            rcases List.mem_append.mp hc with hc | hc
            · exact (hword.2 c hc).2
            · exact isSpace_pass (hf.gap_space c hc)
          rw [CoordsBecome, Field.chars, hw, Word.chars, coordsLoop_append hpass] at hbecome
          exact ih (fun g hg => hseven g (List.mem_cons_of_mem f hg)) hfs hone hbecome hsome
      | coord a l =>
          obtain ⟨hlen, hne⟩ := hseven f List.mem_cons_self a l hw
          have hstart : wordStart a.letter s = 0 := by
            cases a with
            | x => exact hs
            | y => rfl
          obtain ⟨s₁, j, -, -, hiff⟩ := coordsBecome_literal a i p (hs.trans_le (Nat.zero_le 8))
            hstart hlen.le hf.gap_space hne (fs.flatMap Field.chars ++ 0 :: behind) goal
          rw [Field.chars, hw, Word.chars] at hbecome
          have hzero := (hiff.mp hbecome).1
          obtain ⟨c, hc⟩ : ∃ c, s.temp.bytes.drop 7 = [c] := by
            rw [← List.length_eq_one_iff, List.length_drop, s.temp.size]
          rw [hlen, hc, List.mem_singleton] at hzero
          rw [hc, hzero]

end Seven

section Move
variable {n : ℕ} {l : Locals} {inputStr : Buffer n} {p : GCodeParser} {line : CoordLine}
  (hplain : (HostLine.G1 line).Plain) {behind : List UInt8}
  (hbytes : inputStr.bytes = line.chars ++ 0 :: behind)
include hplain hbytes

/-- With a NUL in the last byte of `temp` the coordinates are those of the line. -/
theorem exists_read_move (hnul : (∃ a, literals a line.fields ≠ []) → l.Terminated) :
    ∃ r, p.read l inputStr = some r ∧ r.code = Command.G1.toInt ∧
      ∀ a, r.parser.getCoord a = (HostLine.G1 line).coords p.getCoord a := by
  obtain ⟨hlead, hseven⟩ := hplain
  have hexact := (exactFrom_iff_nul behind hseven l.coordsTemp.size).mpr hnul
  obtain ⟨s', p', hrun, hgoal⟩ := (coordsBecome_iff behind line.fields_ok line.literals_le
    (fun a l' hl' => line.goal_of_mem p hl') (0 + (Command.G1.word ++ line.gap).length)
    (s := { temp := l.coordsTemp, furthest := line.chars.length }) p (Nat.zero_le 8)
    (fun _ => rfl)).mpr ⟨hexact, fun a h => (line.goal_of_nil p h).symm⟩
  rw [line.read_eq l inputStr p hbytes hlead, hrun]
  exact ⟨_, rfl, rfl, hgoal⟩

/-- `read` on a move, where the parser stays inside its arrays. -/
theorem read_move {r : Result} (hread : p.read l inputStr = some r) :
    r.code = Command.G1.toInt ∧
      ∀ a, r.parser.getCoord a = (HostLine.G1 line).coords p.getCoord a := by
  obtain ⟨r', hread', hmove⟩ := exists_read_move (l := l) (p := p) hplain hbytes fun hsome => by
    obtain ⟨hlead, hseven⟩ := hplain
    rw [line.read_eq l inputStr p hbytes hlead] at hread
    obtain ⟨⟨s', p'⟩, hrun, rfl⟩ := Option.map_eq_some_iff.mp hread
    exact nul_of_coordsBecome hseven line.fields_ok line.literals_le rfl
      ⟨s', p', hrun, fun _ => rfl⟩ hsome
  rw [hread', Option.some_inj] at hread
  rwa [← hread]

end Move

/-! ## The other commands -/

theorem read_angleLine {n : ℕ} {l : Locals} {inputStr : Buffer n} {p : GCodeParser}
    {angle : Literal} (hplain : (HostLine.M1 angle).Plain)
    (hline : inputStr.cString = some (HostLine.M1 angle).chars) :
    p.read l inputStr = some ⟨2, { p with angle_ := HostLine.angleValue angle },
      (HostLine.M1 angle).chars.length⟩ := by
  obtain ⟨hfraction, hfits⟩ := hplain
  have hfirst : firstWord (HostLine.M1 angle).chars = Command.M1.word := rfl
  have hafter : afterWord (HostLine.M1 angle).chars = 32 :: angle.chars := rfl
  have hscan : scanInt (32 :: angle.chars) = some (HostLine.angleValue angle) := by
    have hblank : scanInt (32 :: angle.chars) = scanInt angle.chars := rfl
    rw [hblank, angle.scanInt_chars hfraction]
    rfl
  rw [read_angle l inputStr p hline (by rw [hfirst]; decide) (by rw [hfirst]) (by rw [hfirst]; decide),
    hafter, hscan, Option.map_some, saturate_of_fitsInt hfits]
  rfl

theorem read_M10 {n : ℕ} {l : Locals} {inputStr : Buffer n} {p : GCodeParser}
    (hline : inputStr.cString = some HostLine.M10.chars) :
    p.read l inputStr = some ⟨1, p, 3⟩ := by
  rw [read_eq l inputStr p hline, if_pos (by decide)]
  rfl

/-- **One line.** What `vParserTask` takes from the parser is the command of the line, and the
coordinates are kept as they should. -/
theorem read_plain {n : ℕ} {l : Locals} {inputStr : Buffer n} {p : GCodeParser} {line : HostLine}
    (hplain : line.Plain) (hline : inputStr.cString = some line.chars) {r : Result}
    (hread : p.read l inputStr = some r) : r.parsedLine.order? = some (line.order p.getCoord) ∧
      r.parser.getCoord = line.coords p.getCoord := by
  cases line with
  | M10 =>
      rw [read_M10 hline] at hread
      rw [← Option.some_inj.mp hread]
      exact ⟨rfl, rfl⟩
  | M1 angle =>
      rw [read_angleLine hplain hline] at hread
      rw [← Option.some_inj.mp hread]
      exact ⟨rfl, by ext a; cases a <;> rfl⟩
  | G1 line =>
      obtain ⟨behind, hbytes, -⟩ := inputStr.cString_eq_some hline
      obtain ⟨hcode, hcoords⟩ := read_move hplain hbytes hread
      refine ⟨?_, funext hcoords⟩
      have hx := hcoords .x
      have hy := hcoords .y
      simp only [getCoord] at hx hy
      rw [ParsedLine.order?]
      simp only [Result.parsedLine, hcode, hx, hy]
      rfl

/-- With a NUL in the last byte of `temp` each of the lines is read. -/
theorem exists_read_plain {n : ℕ} {l : Locals} (hnul : l.Terminated)
    {inputStr : Buffer n} (p : GCodeParser) {line : HostLine} (hplain : line.Plain)
    (hline : inputStr.cString = some line.chars) : ∃ r, p.read l inputStr = some r := by
  cases line with
  | M10 => exact ⟨_, read_M10 hline⟩
  | M1 angle => exact ⟨_, read_angleLine hplain hline⟩
  | G1 line =>
      obtain ⟨behind, hbytes, -⟩ := inputStr.cString_eq_some hline
      obtain ⟨r, hread, -⟩ := exists_read_move hplain hbytes fun _ => hnul
      exact ⟨r, hread⟩

/-! ## A session -/

/-- The calls of `read` on one line after another, each with what the local variables happen
to hold. -/
def readAll {n : ℕ} : GCodeParser → List (Locals × Buffer n) → Option (List Result)
  | _, [] => some []
  | p, (l, inputStr) :: calls => do
    let r ← p.read l inputStr
    let rs ← r.parser.readAll calls
    return r :: rs

/-- **A session.** The parser reads the commands of the lines, with the coordinates kept from
line to line, whatever is on the stack, if it stays inside its arrays. -/
theorem readAll_orders {n : ℕ} {p : GCodeParser} {calls : List (Locals × Buffer n)}
    {lines : List HostLine} (hplain : ∀ line ∈ lines, line.Plain)
    (hlines : calls.map (fun call => call.2.cString) = lines.map fun line => some line.chars)
    {rs : List Result} (hread : p.readAll calls = some rs) :
    rs.map (fun r => r.parsedLine.order?) = (orders p.getCoord lines).map some := by
  induction lines generalizing p calls rs with
  | nil =>
      rw [List.map_nil, List.map_eq_nil_iff] at hlines
      subst hlines
      rw [← Option.some_inj.mp hread]
      rfl
  | cons line lines ih =>
      cases calls with
      | nil => cases hlines
      | cons call calls =>
          obtain ⟨l, inputStr⟩ := call
          obtain ⟨hline, hrest⟩ := List.cons_eq_cons.mp hlines
          obtain ⟨r, hr, hread⟩ := Option.bind_eq_some_iff.mp hread
          obtain ⟨rs', hrs, heq⟩ := Option.bind_eq_some_iff.mp hread
          rw [← Option.some_inj.mp heq]
          obtain ⟨horder, hcoords⟩ := read_plain (hplain line List.mem_cons_self) hline hr
          rw [List.map_cons, orders, List.map_cons, horder,
            ih (fun line' h => hplain line' (List.mem_cons_of_mem _ h)) hrest hrs, hcoords]

end GCodeParser

/-! ## How a host can write -/

/-- A command of a host: the angle has at most three digits, the target is in hundredths of a
millimetre. -/
inductive HostOrder
  | M10
  | M1 (servo : Fin 1000)
  | G1 (xCoord yCoord : Fin 1000000)
  deriving DecidableEq, Repr

namespace HostOrder

def order : HostOrder → Order
  | .M10 => .M10
  | .M1 servo => .M1 (servo : ℕ)
  | .G1 xCoord yCoord => .G1 ((xCoord : ℕ) / 100) ((yCoord : ℕ) / 100)

/-- A coordinate with its letter, and a blank. -/
def field (a : Axis) (n : ℕ) : Field := ⟨.coord a (.hundredths n), [32]⟩

theorem field_ok (a : Axis) (n : ℕ) : (field a n).Ok where
  gap_space := List.forall_mem_singleton.mpr rfl
  word_ok := (Literal.length_hundredths n).le

def fields (x y : ℕ) : List Field := [field .x x, field .y y, ⟨.other [65, 48], []⟩]

theorem fields_ok (x y : ℕ) : FieldsOk (fields x y) :=
  ⟨field_ok .x x, by simp [field], field_ok .y y, by simp [field],
    ⟨by simp, by simp [isSpace, letterX, letterY]⟩, by simp, trivial⟩

theorem literals_fields (x y : ℕ) (a : Axis) : (literals a (fields x y)).length ≤ 1 := by
  cases a <;> simp [literals, fields, field, Field.literal?]

theorem lead_ok : ∀ b ∈ ([] : List UInt8), isSpace b = true := List.forall_mem_nil _

/-- `G1 X0000.00 Y0000.00 A0`, with the digits of the target. -/
def moveLine (x y : ℕ) : CoordLine where
  lead := []
  gap := [32]
  fields := fields x y
  lead_space := lead_ok
  gap_space := List.forall_mem_singleton.mpr rfl
  gap_ne_nil := fun _ => List.cons_ne_nil _ _
  fields_ok := fields_ok x y
  literals_le := literals_fields x y

theorem fraction_ok : ∀ ds ∈ (none : Option (List UInt8)), ∀ d ∈ ds, isDigit d = true :=
  fun _ h => absurd h (Option.not_mem_none _)

/-- `M1 000`, with the digits of the angle. -/
def angleLiteral (n : ℕ) : Literal where
  neg := false
  whole := fixedDigits 3 n
  fraction := none
  whole_ne_nil := fixedDigits_succ_ne_nil 2 n
  whole_digits := fun _ h => isDigit_of_mem_fixedDigits h
  fraction_digits := fraction_ok

def line : HostOrder → HostLine
  | .M10 => .M10
  | .M1 servo => .M1 (angleLiteral servo)
  | .G1 xCoord yCoord => .G1 (moveLine xCoord yCoord)

theorem angleValue_angleLiteral (n : Fin 1000) :
    HostLine.angleValue (angleLiteral n) = (n : ℕ) := by
  have hn : natOf (fixedDigits 3 n) = n := by
    rw [natOf_fixedDigits]
    exact Nat.mod_eq_of_lt n.isLt
  simp [HostLine.angleValue, Literal.sign, angleLiteral, hn]

theorem line_plain (o : HostOrder) : o.line.Plain := by
  cases o with
  | M10 => trivial
  | M1 servo =>
      refine ⟨rfl, ?_⟩
      have hlt := servo.isLt
      rw [angleValue_angleLiteral, FitsInt]
      omega
  | G1 xCoord yCoord =>
      refine ⟨rfl, ?_⟩
      intro f hf a l hw
      simp only [moveLine, fields, List.mem_cons, List.not_mem_nil, or_false] at hf
      rcases hf with rfl | rfl | rfl
      · obtain ⟨-, rfl⟩ := Word.coord.inj hw
        exact ⟨Literal.length_hundredths _, List.cons_ne_nil _ _⟩
      · obtain ⟨-, rfl⟩ := Word.coord.inj hw
        exact ⟨Literal.length_hundredths _, List.cons_ne_nil _ _⟩
      · cases hw

/-- The line means the command, wherever the pen is. -/
theorem order_line (o : HostOrder) (xy : Axis → ℚ) : o.line.order xy = o.order := by
  cases o with
  | M10 => rfl
  | M1 servo => exact congrArg Order.M1 (angleValue_angleLiteral servo)
  | G1 xCoord yCoord =>
      have hx : (HostLine.G1 (moveLine xCoord yCoord)).coords xy .x = (xCoord : ℕ) / 100 :=
        Literal.value_hundredths xCoord.isLt
      have hy : (HostLine.G1 (moveLine xCoord yCoord)).coords xy .y = (yCoord : ℕ) / 100 :=
        Literal.value_hundredths yCoord.isLt
      rw [line, HostLine.order, hx, hy, order]

theorem orders_line (os : List HostOrder) (xy : Axis → ℚ) :
    orders xy (os.map line) = os.map order := by
  induction os generalizing xy with
  | nil => rfl
  | cons o os ih => rw [List.map_cons, orders, order_line, ih, List.map_cons]

/-- The line is one of the stream: no newline, no NUL, and room for a newline in a packet. -/
theorem line_chars_ok (o : HostOrder) : (∀ b ∈ o.line.chars, b ≠ newline ∧ b ≠ 0) ∧
    o.line.chars.length < receiveBufferSize := by
  have hdigit : ∀ {b : UInt8}, isDigit b = true → b ≠ newline ∧ b ≠ 0 := by
    intro b hb
    refine ⟨?_, ?_⟩ <;> rintro rfl <;> cases hb
  have hliteral : ∀ n, ∀ b ∈ (Literal.hundredths n).chars, b ≠ newline ∧ b ≠ 0 := by
    intro n b hb
    simp only [Literal.chars, Literal.unsigned, Literal.hundredths, Bool.false_eq_true, if_false,
      List.mem_append, List.mem_cons] at hb
    rcases hb with hb | rfl | hb
    · exact hdigit (isDigit_of_mem_fixedDigits hb)
    · decide
    · exact hdigit (isDigit_of_mem_fixedDigits hb)
  cases o with
  | M10 => exact ⟨by simp [line, HostLine.chars, Command.word, newline], by decide⟩
  | M1 servo =>
      refine ⟨?_, ?_⟩
      · intro b hb
        simp only [line, HostLine.chars, Command.word, Literal.chars, Literal.unsigned, angleLiteral,
          Bool.false_eq_true, if_false, List.append_nil, List.mem_append, List.mem_cons,
          List.not_mem_nil, or_false] at hb
        rcases hb with (rfl | rfl) | rfl | hb
        · decide
        · decide
        · decide
        · exact hdigit (isDigit_of_mem_fixedDigits hb)
      · simp [line, HostLine.chars, Command.word, Literal.chars, Literal.unsigned, angleLiteral,
          length_fixedDigits, receiveBufferSize]
  | G1 xCoord yCoord =>
      refine ⟨?_, ?_⟩
      · intro b hb
        simp only [line, HostLine.chars, CoordLine.chars, moveLine, fields, Command.word, field,
          Field.chars, Word.chars, Axis.letter, List.flatMap_cons, List.flatMap_nil, List.nil_append,
          List.append_nil, List.mem_append, List.mem_cons, List.not_mem_nil, or_false] at hb
        rcases hb with ((rfl | rfl) | rfl) | ((rfl | hb) | rfl) | ((rfl | hb) | rfl) | rfl | rfl
        all_goals first | exact hliteral _ b hb | decide
      · simp [line, HostLine.chars, CoordLine.chars, moveLine, fields, Command.word, field,
          Field.chars, Word.chars, Literal.length_hundredths, receiveBufferSize]

/-- The line `M1 160`. -/
def penDown : HostOrder := .M1 160

end HostOrder

namespace GCodeParser

/-- The line `G1 X0012.50 Y0003.00 A0`, and then `M1 160`. -/
def written : List HostOrder := [.G1 1250 300, .penDown]

theorem readAll_orders_written : ∃ rs,
    ({} : GCodeParser).readAll [(.zeroed, lineBuffer (HostOrder.line (.G1 1250 300)).chars (by decide)),
      (.zeroed, lineBuffer (HostOrder.line (.M1 160)).chars (by decide))] = some rs ∧
    rs.map (fun r => r.parsedLine.order?) =
      (orders (getCoord {}) (written.map HostOrder.line)).map some := by
  obtain ⟨rs, hrs⟩ := Option.isSome_iff_exists.mp (show Option.isSome
    (({} : GCodeParser).readAll
      [(.zeroed, lineBuffer (HostOrder.line (.G1 1250 300)).chars (by decide)),
        (.zeroed, lineBuffer (HostOrder.line (.M1 160)).chars (by decide))]) = true by decide +kernel)
  refine ⟨rs, hrs, readAll_orders ?_ (by decide +kernel) hrs⟩
  intro line hline
  obtain ⟨o, -, rfl⟩ := List.mem_map.mp hline
  exact o.line_plain

end GCodeParser

end Plotter
