import Plotter.Firmware
import Plotter.GCodeParser.Session
import Plotter.System.Commands

/-!
# From the host to the stepper task

The host writes one line into each transfer. The bytes go through `rx_buff`, the receive
buffers and their queues, the arrays of `vParserTask`, `parser->read`, `gObject` and the queue
of commands. What the stepper task executes is what the host has written, in order, each
command once.

## Main definitions

* `HostLine.packet`, `HostLine.Sendable`: a line as the host sends it.
* `Firmware.HostSends`: the host sends its lines one after another, one in a transfer.
* `Firmware.Follows`: how far the lines have come.
* `Firmware.executed_prefix_orders`: the commands of the host are executed in order.
-/

namespace Plotter

open Lib

namespace HostLine

/-- The bytes of a line in its transfer. -/
def packet (line : HostLine) : List UInt8 := line.chars ++ [newline]

/-- The line is plain text that fits a receive buffer with its newline. -/
structure Sendable (line : HostLine) : Prop where
  plain : line.Plain
  bytes : ∀ b ∈ line.chars, b ≠ newline ∧ b ≠ 0
  short : line.chars.length < receiveBufferSize

theorem length_packet (line : HostLine) : line.packet.length = line.chars.length + 1 :=
  List.length_append

end HostLine

theorem HostOrder.line_sendable (o : HostOrder) : o.line.Sendable :=
  ⟨o.line_plain, o.line_chars_ok.1, o.line_chars_ok.2⟩

theorem HostOrder.length_packet (o : HostOrder) : o.line.packet.length ≤ transferSize := by
  have hlt := o.line_chars_ok.2
  rw [HostLine.length_packet]
  exact (Nat.succ_le_of_lt hlt).trans (by decide)

namespace Firmware

/-- The ROM keeps to its contract, and the host sends the lines one after another, each in a
transfer of its own. -/
def HostSends (lines : List HostLine) (f : Firmware) : Ev → Prop
  | .usb (.OUT data) => f.usb.vcom.readQueued = true ∧
    lines[f.usb.rx.transfers.length]?.map HostLine.packet = some data.bytes
  | .rom _ => f.usb.vcom.readQueued = true
  | _ => True

/-- How far the lines of the host have come: the transfers are the first of them, and the first
of these have been read; `xy` are the coordinates before. -/
structure Follows (xy : Axis → ℚ) (lines : List HostLine) (f : Firmware)
    (got : List (List UInt8)) : Prop where
  received : Cdc.Received f.usb got
  transfers : f.usb.rx.transfers.map Transfer.bytes =
    (lines.take f.usb.rx.transfers.length).map HostLine.packet
  usbIn : f.sys.usbIn = []
  coords : f.parser.getCoord = (lines.take got.length).foldl HostLine.coords xy
  parsed : f.sys.parsed = orders xy (lines.take got.length)

/-! ## One step -/

section Step
variable {xy : Axis → ℚ} {lines : List HostLine} {f f' : Firmware} {got : List (List UInt8)}

theorem Follows.init (lines : List HostLine) (rx_buff : Buffer transferSize) (arrays : Reader)
    (parser : GCodeParser) :
    Follows parser.getCoord lines (.init rx_buff arrays parser) [] where
  received := Cdc.Received.init rx_buff
  transfers := rfl
  usbIn := rfl
  coords := rfl
  parsed := rfl

/-- A transfer is the packet of a line. -/
theorem Follows.short (h : Follows xy lines f got) (hlines : ∀ line ∈ lines, line.Sendable) :
    ∀ data ∈ f.usb.rx.transfers, data.Short := by
  intro data hdata
  have hmem : data.bytes ∈ (lines.take f.usb.rx.transfers.length).map HostLine.packet := by
    rw [← h.transfers]
    exact List.mem_map_of_mem hdata
  obtain ⟨line, hline, hbytes⟩ := List.mem_map.mp hmem
  have hshort := (hlines line (List.mem_of_mem_take hline)).short
  have hlen := line.length_packet
  rw [hbytes] at hlen
  exact ⟨by omega, by omega⟩

/-- **The next chunk** is the packet of the next line. -/
theorem Follows.next_packet (h : Follows xy lines f got) (hlines : ∀ line ∈ lines, line.Sendable)
    {usb : Cdc.State Unit Unit} {data : List UInt8} (hnext : Cdc.Received usb (got ++ [data]))
    (hsame : usb.rx.transfers = f.usb.rx.transfers) :
    ∃ line, lines[got.length]? = some line ∧ data = line.packet := by
  have hbegins := hnext.begins_of_short (by rw [hsame]; exact h.short hlines)
  rw [hsame, h.transfers] at hbegins
  obtain ⟨rest, hrest⟩ := hbegins.trans ((List.take_prefix _ lines).map HostLine.packet)
  have hdata : (lines.map HostLine.packet)[got.length]? = some data := by
    rw [← hrest, List.append_assoc]
    simp
  rw [List.getElem?_map, Option.map_eq_some_iff] at hdata
  obtain ⟨line, hline, rfl⟩ := hdata
  exact ⟨line, hline, rfl⟩

/-- A step of the driver and of `cdc_task`, with nothing returned. -/
theorem Follows.onUsb (h : Follows xy lines f got) {e : Cdc.Ev Unit Unit}
    {usb : Cdc.State Unit Unit} (hstep : Cdc.step f.usb e = some usb)
    (hcontract : Cdc.ReceiveContract f.usb e) (hnone : Cdc.returned f.usb e = [])
    (hsends : ∀ data ∈ e.transfer?,
      lines[f.usb.rx.transfers.length]?.map HostLine.packet = some data.bytes) :
    Follows xy lines { f with usb := usb } got := by
  have hreceived := h.received.step hcontract hstep
  rw [hnone, List.append_nil] at hreceived
  refine ⟨hreceived, ?_, h.usbIn, h.coords, h.parsed⟩
  have htransfers := Cdc.transfers_of_step hstep
  cases hdata : e.transfer? with
  | none =>
      rw [hdata, Option.toList_none, List.append_nil] at htransfers
      change usb.rx.transfers.map _ = (lines.take usb.rx.transfers.length).map _
      rw [htransfers]
      exact h.transfers
  | some data =>
      obtain ⟨line, hline, hbytes⟩ := Option.map_eq_some_iff.mp (hsends data hdata)
      rw [hdata] at htransfers
      change usb.rx.transfers.map _ = (lines.take usb.rx.transfers.length).map _
      rw [htransfers, List.map_append, h.transfers, Option.toList_some, List.length_append,
        List.length_singleton, List.take_add_one, hline, List.map_append]
      exact congrArg (_ ++ [·]) hbytes.symm

/-- A step without a transfer, and with nothing returned. -/
theorem Follows.frame (h : Follows xy lines f got) {e : Cdc.Ev Unit Unit}
    {usb : Cdc.State Unit Unit} (hstep : Cdc.step f.usb e = some usb)
    (hcontract : Cdc.ReceiveContract f.usb e) (hnone : Cdc.returned f.usb e = []) (htransfer : e.transfer? = none) :
    Follows xy lines { f with usb := usb } got := by
  apply h.onUsb hstep hcontract hnone
  rw [htransfer]
  intro data hdata
  cases hdata

/-- A step of the other tasks that is not a receive of the parser task. -/
theorem Follows.onSys (h : Follows xy lines f got) {e : Plotter.Ev} {sys : Sys}
    (hstep : Plotter.step f.sys e = some sys) (hline : e.movesLine = false) :
    Follows xy lines { f with sys := sys } got := by
  have hframe := frame_of_step hstep
  exact ⟨h.received, h.transfers, (hframe.usbIn_eq hline).trans h.usbIn, h.coords,
    (hframe.parsed_eq hline).trans h.parsed⟩

/-- **The parser task** is given the packet of the next line, and reads the command that the
host means. -/
theorem Follows.back (h : Follows xy lines f got) (hlines : ∀ line ∈ lines, line.Sendable)
    {rec : SendItem (Fin receiveBuffers)} {data : List UInt8}
    (hr : f.usb.rx.readers () = .back rec data) {usb : Cdc.State Unit Unit}
    (husb : Cdc.step f.usb (.reader ()) = some usb) : ∃ line arrays,
      lines[got.length]? = some line ∧ Cdc.Received usb (got ++ [data]) ∧
      usb.rx.transfers = f.usb.rx.transfers ∧
      f.arrays.receive data = some (arrays, false) ∧ arrays.buffStr.cString = some line.chars := by
  have hreceived := h.received.step (e := .reader ()) ⟨trivial, trivial⟩ husb
  have hdata : Cdc.returned f.usb (.reader () : Cdc.Ev Unit Unit) = [data] := by
    rw [Cdc.returned, hr]
  rw [hdata] at hreceived
  have htransfers := Cdc.transfers_of_step husb
  have hsame : usb.rx.transfers = f.usb.rx.transfers := htransfers.trans (List.append_nil _)
  obtain ⟨line, hline, rfl⟩ := h.next_packet hlines hreceived hsame
  have hok := hlines line (List.mem_of_getElem? hline)
  have hnewline : newline ∉ line.chars := fun hmem => (hok.bytes _ hmem).1 rfl
  have hnul : (0 : UInt8) ∉ line.chars := fun hmem => (hok.bytes _ hmem).2 rfl
  have hlen := line.length_packet
  have hshort := hok.short
  let packet : Packet := ⟨line.packet, by omega, by omega⟩
  have hpacket : packet.bytes = line.chars ++ newline :: [] := rfl
  obtain ⟨arrays, hreceive, hstring⟩ := receive_of_newline f.arrays hnewline hnul hpacket
  exact ⟨line, arrays, hline, hreceived, hsame, hreceive, hstring⟩

theorem Follows.parserTask (h : Follows xy lines f got) (hlines : ∀ line ∈ lines, line.Sendable)
    {l : Locals} (hstep : f.parserTask l = some f') : ∃ got', Follows xy lines f' got' := by
  cases hpc : f.sys.parser with
  | delay | sending =>
      rw [Firmware.parserTask, hpc] at hstep
      obtain ⟨sys, hsys, rfl⟩ := onSys_cases hstep
      exact ⟨got, h.onSys hsys rfl⟩
  | receive =>
      rcases parserTask_cases hpc hstep with
        ⟨e, usb, he, husb, hnone, -, rfl⟩ | ⟨rec, data, hr, hcases⟩
      · rcases he with rfl | rfl
        · exact ⟨got, h.frame husb ⟨trivial, Nat.le_add_left 64 32⟩ hnone rfl⟩
        · exact ⟨got, h.frame husb ⟨trivial, trivial⟩ hnone rfl⟩
      · rcases hcases with ⟨usb, arrays, husb, hreceive, -, rfl⟩ | ⟨r, -, hline⟩
        · -- every packet ends a line
          obtain ⟨line, arrays', -, -, -, hreceive', -⟩ := h.back hlines hr husb
          rw [hreceive] at hreceive'
          cases hreceive'
        · obtain ⟨line, arrays, hget, hreceived, hsame, hreceive, hstring⟩ :=
            h.back hlines hr hline.usb
          obtain ⟨rfl, -⟩ := Prod.mk.inj (Option.some_inj.mp (hreceive.symm.trans hline.arrays))
          have hok := hlines line (List.mem_of_getElem? hget)
          obtain ⟨horder, hcoords⟩ := GCodeParser.read_plain hok.plain hstring hline.read
          obtain ⟨husbIn, hparsed⟩ := parsed_of_line h.usbIn horder hline.sys
          have htake : lines.take (got ++ [data]).length = lines.take got.length ++ [line] := by
            rw [List.length_append, List.length_singleton, List.take_add_one, hget]
            rfl
          refine ⟨got ++ [data], hreceived, ?_, husbIn, ?_, ?_⟩
          · rw [hsame]
            exact h.transfers
          · rw [hline.parser, hcoords, htake, List.foldl_append, ← h.coords]
            rfl
          · rw [hparsed, h.parsed, htake, orders_append, ← h.coords]
            rfl

theorem Follows.stepperTask (h : Follows xy lines f got) (hstep : f.stepperTask = some f') :
    Follows xy lines f' got := by
  rw [Firmware.stepperTask] at hstep
  cases hpc : f.sys.stepper with
  | delay | receive | drawing object calls after =>
      simp only [hpc] at hstep
      obtain ⟨sys, hsys, rfl⟩ := onSys_cases hstep
      exact h.onSys hsys rfl
  | sendArea | sendOK pause =>
      simp only [hpc] at hstep
      rcases sendReply_cases hstep with ⟨e, usb, -, he, husb, rfl⟩ | ⟨n, usb, sys, -, husb, hsys, rfl⟩
      · rcases he with ⟨rfl, -⟩ | ⟨rfl, -⟩
        · exact h.frame husb ⟨trivial, trivial⟩ rfl rfl
        · exact h.frame husb ⟨trivial, trivial⟩ rfl rfl
      · have hsent : Follows xy lines { f with usb := usb } got :=
          h.frame husb ⟨trivial, trivial⟩ rfl rfl
        exact hsent.onSys hsys rfl

/-- **One step** brings the lines on, in order. -/
theorem Follows.step (h : Follows xy lines f got) (hlines : ∀ line ∈ lines, line.Sendable) {e : Ev}
    (hsends : HostSends lines f e) (hstep : f.step e = some f') :
    ∃ got', Follows xy lines f' got' := by
  cases e with
  | usb e =>
      obtain ⟨usb, husb, rfl⟩ := onUsb_cases hstep
      cases e with
      | OUT data =>
          refine ⟨got, h.onUsb husb ⟨hsends.1, trivial⟩ rfl ?_⟩
          intro data' hdata'
          obtain rfl := Option.some_inj.mp hdata'
          exact hsends.2
      | IN | OUT_NAK => exact ⟨got, h.frame husb ⟨trivial, trivial⟩ rfl rfl⟩
  | rom bytes =>
      obtain ⟨usb, husb, rfl⟩ := onUsb_cases hstep
      exact ⟨got, h.frame husb ⟨hsends, trivial⟩ rfl rfl⟩
  | lineCode | connection flags | cdcTask n =>
      obtain ⟨usb, husb, rfl⟩ := onUsb_cases hstep
      exact ⟨got, h.frame husb ⟨trivial, trivial⟩ rfl rfl⟩
  | parserTask l => exact h.parserTask hlines hstep
  | stepperTask => exact ⟨got, h.stepperTask hstep⟩
  | stepperExpire | calibrate rd | timer rd =>
      obtain ⟨sys, hsys, rfl⟩ := onSys_cases hstep
      exact ⟨got, h.onSys hsys rfl⟩

end Step

/-! ## Whole runs -/

/-- The host sends its lines, the ROM keeps to its contract, and a receive of the stepper task
keeps the command that waits in `gObject`. -/
def InOrder (lines : List HostLine) (f : Firmware) (e : Ev) : Prop :=
  HostSends lines f e ∧ SysGuard PendingKept f e

section Run
variable {rx_buff : Buffer transferSize} {arrays : Reader} {parser : GCodeParser}
  {es : List Ev} {f : Firmware} {lines : List HostLine}

theorem follows_of_run (hlines : ∀ line ∈ lines, line.Sendable)
    (hsends : Along step (HostSends lines) (.init rx_buff arrays parser) es)
    (hrun : run step (.init rx_buff arrays parser) es = some f) :
    ∃ got, Follows parser.getCoord lines f got :=
  run_induction (I := fun f => ∃ got, Follows parser.getCoord lines f got)
    (fun _ _ _ ⟨_, h⟩ hG hstep => h.step hlines hG hstep)
    ⟨[], Follows.init lines rx_buff arrays parser⟩ hsends hrun

end Run

/-! ## A servo command on its way -/

instance (lines : List HostLine) (f : Firmware) : (e : Ev) → Decidable (HostSends lines f e)
  | .usb (.OUT _) => inferInstanceAs (Decidable (_ ∧ _))
  | .rom _ => inferInstanceAs (Decidable (f.usb.vcom.readQueued = true))
  | .usb .IN | .usb .OUT_NAK | .lineCode | .connection _ | .cdcTask _ | .parserTask _
  | .stepperTask | .stepperExpire | .calibrate _ | .timer _ => isTrue trivial

instance (lines : List HostLine) (f : Firmware) (e : Ev) : Decidable (InOrder lines f e) :=
  inferInstanceAs (Decidable (_ ∧ Along _ _ _ _))

/-- The transfer of the line of a command. -/
def transferOf (o : HostOrder) : Transfer := ⟨o.line.packet, o.length_packet⟩

/-- The line `M1 160` goes through the driver, the parser task and the stepper task. -/
def servoDown : List Ev :=
  [.parserTask .zeroed, .stepperTask, .usb .OUT_NAK,
    .usb (.OUT (transferOf .penDown))] ++
    List.replicate 6 (.cdcTask 0) ++ List.replicate 5 (.parserTask .zeroed) ++ [.stepperTask]

end Firmware

end Plotter
