import Plotter.Lib.Lines
import Mathlib.Tactic.Common

/-!
# Lines from the USB port

`vParserTask` takes what `USB_receive` gives it, chunk by chunk, and copies it into
`buffStr` up to the first newline. The index into `buffStr` starts at zero for every chunk,
and what follows a newline in its chunk is left behind. So the strings that reach
`parser->read` are the lines of the stream only when the host sends one line to a packet.

## Main definitions

* `Buffer n`: a `char` array; writing outside of it is `none`.
* `Packet`: what one receive buffer can hold.
* `USB_receive`, `copyLine`, `Reader.receive`: one turn of the reading loop.
* `vParserTask`: the strings handed to `parser->read`.
* `vParserTask_lines_iff`: when these are the lines of the stream.
-/

namespace Plotter

/-- A `char` array of `n` bytes. -/
structure Buffer (n : ℕ) where
  bytes : List UInt8
  size : bytes.length = n
deriving DecidableEq

namespace Buffer

variable {n : ℕ}

def get (b : Buffer n) (i : ℕ) : Option UInt8 := b.bytes[i]?

def set (b : Buffer n) (i : ℕ) (x : UInt8) : Option (Buffer n) :=
  if i < n then some ⟨b.bytes.set i x, by rw [List.length_set, b.size]⟩ else none

/-- `memcpy` to the start of the array. -/
def memcpy (b : Buffer n) (data : List UInt8) : Option (Buffer n) :=
  if h : data.length ≤ n then
    some ⟨data ++ b.bytes.drop data.length, by
      rw [List.length_append, List.length_drop, b.size]; omega⟩
  else none

/-- The C string at the start of the array; without a NUL there is none. -/
def cString (b : Buffer n) : Option (List UInt8) :=
  if 0 ∈ b.bytes then some (b.bytes.takeWhile (· ≠ 0)) else none

theorem set_of_append (b : Buffer n) {l t : List UInt8} {y : UInt8} (h : b.bytes = l ++ y :: t)
    (x : UInt8) : ∃ b', b.set l.length x = some b' ∧ b'.bytes = l ++ x :: t := by
  have hlt : l.length < n := by
    rw [← b.size, h, List.length_append, List.length_cons]
    omega
  exact ⟨_, if_pos hlt, by simp [h]⟩

theorem get_of_append (b : Buffer n) {l t : List UInt8} {y : UInt8}
    (h : b.bytes = l ++ y :: t) : b.get l.length = some y := by
  simp [get, h]

/-- An array that is longer than the text at its start goes on after it. -/
theorem split_at (b : Buffer n) {l t : List UInt8} (h : b.bytes = l ++ t) (hlt : l.length < n) :
    ∃ y t', b.bytes = l ++ y :: t' := by
  cases t with
  | nil =>
      have hsize := b.size
      rw [h, List.append_nil] at hsize
      omega
  | cons y t' => exact ⟨y, t', h⟩

theorem cString_of_append (b : Buffer n) {l t : List UInt8} (h : b.bytes = l ++ 0 :: t)
    (hl : (0 : UInt8) ∉ l) : b.cString = some l := by
  rw [cString, if_pos (by simp [h]), h, Lib.takeWhile_append_cons hl]

end Buffer

/-- `RCV_BUFSIZE`. -/
def receiveBufferSize : ℕ := 64

/-- What one receive buffer holds when it is handed on: at least a byte, at most
`RCV_BUFSIZE` of them. -/
structure Packet where
  bytes : List UInt8
  nonempty : 0 < bytes.length
  fits : bytes.length ≤ receiveBufferSize

/-- `USB_receive(data, length)` with the packet `rec` at the head of the receive queue. The
result is the array and the returned length. -/
def USB_receive {n : ℕ} (rec : List UInt8) (data : Buffer n) (length : ℕ) :
    Option (Buffer n × ℕ) := do
  let len := if rec.length > length then length else rec.length
  let data ← data.memcpy (rec.take len)
  return (data, len)

def newline : UInt8 := 10

/-- The loop `for (i = 0; i < len; ++i)` from index `i` with `remaining` turns to go. The
flag is the `loopRead` it leaves. -/
def copyLine (strFromUSB buffStr : Buffer 96) : (remaining i : ℕ) → Option (Buffer 96 × Bool)
  | 0, _ => some (buffStr, true)
  | remaining + 1, i => do
      let b ← strFromUSB.get i
      if b = newline then
        let buffStr ← buffStr.set i 0
        return (buffStr, false)
      else
        let buffStr ← buffStr.set i b
        copyLine strFromUSB buffStr remaining (i + 1)

/-- The two arrays of `vParserTask`. They are not cleared between lines. -/
structure Reader where
  strFromUSB : Buffer 96
  buffStr : Buffer 96

/-- One turn of `do .. while (loopRead)`. -/
def Reader.receive (r : Reader) (rec : List UInt8) : Option (Reader × Bool) := do
  let (strFromUSB, len) ← USB_receive rec r.strFromUSB 96
  let strFromUSB ← strFromUSB.set len 0
  let (buffStr, loopRead) ← copyLine strFromUSB r.buffStr len 0
  return (⟨strFromUSB, buffStr⟩, loopRead)

/-- The strings that `vParserTask` hands to `parser->read` while it receives the packets,
in order. -/
def vParserTask : Reader → List Packet → Option (List (List UInt8))
  | _, [] => some []
  | r, rec :: packets => do
      let (r, loopRead) ← r.receive rec.bytes
      if loopRead then
        vParserTask r packets
      else
        let line ← r.buffStr.cString
        let lines ← vParserTask r packets
        return line :: lines

/-! ## One packet -/

/-- A packet with a newline leaves its first line in `buffStr`, whatever was there. -/
theorem copyLine_of_newline (str : Buffer 96) {rest l t : List UInt8} (hrest : newline ∉ rest)
    {k : ℕ} (buff : Buffer 96) {old : List UInt8}
    (hstr : str.bytes = l ++ rest ++ newline :: t) (hbuff : buff.bytes = l ++ old)
    (hk : rest.length < k) : ∃ buff' old',
      copyLine str buff k l.length = some (buff', false) ∧
      buff'.bytes = l ++ rest ++ 0 :: old' := by
  induction rest generalizing l k buff old with
  | nil =>
      obtain ⟨k, rfl⟩ : ∃ k', k = k' + 1 := ⟨k - 1, by simp at hk; omega⟩
      have hlt : l.length < 96 := by
        rw [← str.size, hstr]
        simp
      obtain ⟨y, t', hy⟩ := buff.split_at hbuff hlt
      obtain ⟨buff', hset, hbytes⟩ := buff.set_of_append hy 0
      rw [List.append_nil] at hstr
      refine ⟨buff', t', ?_, by rw [hbytes, List.append_nil]⟩
      simp [copyLine, str.get_of_append hstr, hset]
  | cons b rest ih =>
      rw [List.mem_cons, not_or] at hrest
      obtain ⟨k, rfl⟩ : ∃ k', k = k' + 1 := ⟨k - 1, by simp at hk; omega⟩
      have hlt : l.length < 96 := by
        rw [← str.size, hstr]
        simp
      obtain ⟨y, t', hy⟩ := buff.split_at hbuff hlt
      obtain ⟨buff₁, hset, hbytes⟩ := buff.set_of_append hy b
      have hstr' : str.bytes = l ++ b :: (rest ++ newline :: t) := by rw [hstr]; simp
      obtain ⟨buff', old', hcopy, hbuff'⟩ := ih hrest.2 (l := l ++ [b]) (k := k) buff₁
        (by rw [hstr']; simp) (show buff₁.bytes = (l ++ [b]) ++ t' by rw [hbytes]; simp)
        (by simp at hk; omega)
      refine ⟨buff', old', ?_, by rw [hbuff']; simp⟩
      rw [List.length_append, List.length_singleton] at hcopy
      simp [copyLine, str.get_of_append hstr', Ne.symm hrest.1, hset, hcopy]

/-- A packet without a newline leaves `loopRead` as it is. -/
theorem copyLine_of_not_mem (str : Buffer 96) {rest l t : List UInt8} (hrest : newline ∉ rest)
    (buff : Buffer 96) {old : List UInt8} (hstr : str.bytes = l ++ rest ++ t)
    (hbuff : buff.bytes = l ++ old) : ∃ buff',
      copyLine str buff rest.length l.length = some (buff', true) := by
  induction rest generalizing l buff old with
  | nil => exact ⟨buff, rfl⟩
  | cons b rest ih =>
      rw [List.mem_cons, not_or] at hrest
      have hlt : l.length < 96 := by
        rw [← str.size, hstr]
        simp
      obtain ⟨y, t', hy⟩ := buff.split_at hbuff hlt
      obtain ⟨buff₁, hset, hbytes⟩ := buff.set_of_append hy b
      have hstr' : str.bytes = l ++ b :: (rest ++ t) := by rw [hstr]; simp
      obtain ⟨buff', hcopy⟩ := ih hrest.2 (l := l ++ [b]) buff₁
        (by rw [hstr']; simp) (show buff₁.bytes = (l ++ [b]) ++ t' by rw [hbytes]; simp)
      rw [List.length_append, List.length_singleton] at hcopy
      exact ⟨buff', by
        simp [copyLine, str.get_of_append hstr', Ne.symm hrest.1, hset, hcopy]⟩

/-- A packet fits `strFromUSB` with room for the NUL behind it. -/
theorem USB_receive_spec (str : Buffer 96) (rec : Packet) : ∃ data str' t,
    USB_receive rec.bytes str 96 = some (data, rec.bytes.length) ∧
    data.set rec.bytes.length 0 = some str' ∧ str'.bytes = rec.bytes ++ 0 :: t := by
  have hfits : rec.bytes.length < 96 := by
    have := rec.fits
    rw [receiveBufferSize] at this
    omega
  obtain ⟨y, t, hdrop⟩ : ∃ y t, str.bytes.drop rec.bytes.length = y :: t :=
    List.exists_cons_of_length_pos (by rw [List.length_drop, str.size]; omega)
  have hmem : str.memcpy rec.bytes = some
      ⟨rec.bytes ++ y :: t, by
        rw [List.length_append, ← hdrop, List.length_drop, str.size]; omega⟩ := by
    rw [Buffer.memcpy, dif_pos (by omega)]
    simp only [hdrop]
  obtain ⟨str', hset, hbytes⟩ := Buffer.set_of_append (n := 96) ⟨rec.bytes ++ y :: t, by
    rw [List.length_append, ← hdrop, List.length_drop, str.size]; omega⟩ rfl 0
  refine ⟨_, str', t, ?_, hset, hbytes⟩
  rw [USB_receive, if_neg (by omega), List.take_length, hmem]
  rfl

/-- A packet with a newline yields its first line. -/
theorem receive_of_newline (r : Reader) {rec : Packet} {l t : List UInt8} (hl : newline ∉ l)
    (hnul : 0 ∉ l) (hrec : rec.bytes = l ++ newline :: t) :
    ∃ r', r.receive rec.bytes = some (r', false) ∧ r'.buffStr.cString = some l := by
  obtain ⟨data, str', t', hreceive, hset, hbytes⟩ := USB_receive_spec r.strFromUSB rec
  obtain ⟨buff', old', hcopy, hbuff⟩ := copyLine_of_newline str' (l := []) (t := t ++ 0 :: t') hl
    r.buffStr (k := rec.bytes.length) (by rw [hbytes, hrec]; simp) rfl (by rw [hrec]; simp)
  refine ⟨⟨str', buff'⟩, ?_, Buffer.cString_of_append buff' hbuff hnul⟩
  rw [List.length_nil] at hcopy
  simp [Reader.receive, hreceive, hset, hcopy]

/-- A packet without a newline yields nothing: only the arrays change. -/
theorem receive_of_not_mem (r : Reader) {rec : Packet} (hrec : newline ∉ rec.bytes) :
    ∃ r', r.receive rec.bytes = some (r', true) := by
  obtain ⟨data, str', t', hreceive, hset, hbytes⟩ := USB_receive_spec r.strFromUSB rec
  obtain ⟨buff', hcopy⟩ := copyLine_of_not_mem str' (l := []) hrec r.buffStr
    (by rw [hbytes]; rfl) rfl
  refine ⟨⟨str', buff'⟩, ?_⟩
  rw [List.length_nil] at hcopy
  simp [Reader.receive, hreceive, hset, hcopy]

/-! ## All packets -/

/-- The bytes the packets carry. -/
def stream (packets : List Packet) : List UInt8 := (packets.map Packet.bytes).flatten

/-- **What the parser is given**: the part before the first newline of every packet that
has one. No byte of a packet reaches a line that ends in another. -/
theorem vParserTask_eq_chunkHeads (r : Reader) {packets : List Packet}
    (hnul : 0 ∉ stream packets) :
    vParserTask r packets = some (Lib.chunkHeads newline (packets.map Packet.bytes)) := by
  induction packets generalizing r with
  | nil => rfl
  | cons rec packets ih =>
      rw [stream, List.map_cons, List.flatten_cons, List.mem_append, not_or] at hnul
      by_cases hmem : newline ∈ rec.bytes
      · obtain ⟨l, t, hrec, hl⟩ := List.eq_append_cons_of_mem hmem
        have hnull : (0 : UInt8) ∉ l := fun h => hnul.1 (by rw [hrec]; simp [h])
        obtain ⟨r', hreceive, hline⟩ := receive_of_newline r hl hnull hrec
        rw [List.map_cons, hrec, Lib.chunkHeads_cons hl]
        simp [vParserTask, hreceive, hline, ih r' hnul.2]
      · obtain ⟨r', hreceive⟩ := receive_of_not_mem r hmem
        rw [List.map_cons, Lib.chunkHeads_cons_of_not_mem hmem]
        simp [vParserTask, hreceive, ih r' hnul.2]

/-- **Line reassembly.** The parser is given the lines of the stream if and only if the
packets are cut one to a line: none has two newlines, and one that is followed by more
lines ends in its newline. -/
theorem vParserTask_lines_iff (r : Reader) {packets : List Packet} (hnul : 0 ∉ stream packets) :
    vParserTask r packets = some (Lib.terminated newline (stream packets)) ↔
      Lib.OneLineEach newline (packets.map Packet.bytes) := by
  rw [vParserTask_eq_chunkHeads r hnul, Option.some_inj, stream]
  apply Lib.chunkHeads_eq_terminated_iff
  intro c hc
  obtain ⟨rec, -, rfl⟩ := List.mem_map.mp hc
  exact List.ne_nil_of_length_pos rec.nonempty

/-- `"M10\n"`, `"M1 90\n"`, `"G1 X1 \n"` and the beginning of a fourth line, a packet each. -/
def wholeLines : List Packet :=
  [⟨[77, 49, 48, 10], by decide, by decide⟩, ⟨[77, 49, 32, 57, 48, 10], by decide, by decide⟩,
    ⟨[71, 49, 32, 88, 49, 32, 10], by decide, by decide⟩, ⟨[77, 49], by decide, by decide⟩]

/-- The arrays filled with zeros. -/
def Reader.zeroed : Reader := ⟨⟨List.replicate 96 0, rfl⟩, ⟨List.replicate 96 0, rfl⟩⟩

theorem vParserTask_lines_iff_wholeLines : vParserTask Reader.zeroed wholeLines =
    some [[77, 49, 48], [77, 49, 32, 57, 48], [71, 49, 32, 88, 49, 32]] := by
  have hlines : Lib.terminated newline (stream wholeLines) =
      [[77, 49, 48], [77, 49, 32, 57, 48], [71, 49, 32, 88, 49, 32]] := by decide
  have honeEach : Lib.OneLineEach newline (wholeLines.map Packet.bytes) :=
    Lib.oneLineEach_cons.mpr ⟨by decide, Lib.oneLineEach_cons.mpr ⟨by decide,
      Lib.oneLineEach_cons.mpr ⟨by decide, Lib.oneLineEach_of_not_mem (by decide)⟩⟩⟩
  rw [← hlines]
  exact (vParserTask_lines_iff Reader.zeroed (by decide)).mpr honeEach

/-- `"M1"` and `"0\n"`: the line `M10` in two packets. -/
def splitLine : List Packet :=
  [⟨[77, 49], by decide, by decide⟩, ⟨[48, 10], by decide, by decide⟩]

/-- The parser is given `"0"` for the line `M10`: the second packet is copied over the
first. -/
theorem splitLine_loses : vParserTask Reader.zeroed splitLine = some [[48]] ∧
    vParserTask Reader.zeroed splitLine ≠
      some (Lib.terminated newline (stream splitLine)) := by
  decide

end Plotter
