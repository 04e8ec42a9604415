import Plotter.Cdc.Receive

/-!
# The chunks of the receive path

`received` only has the bytes of all calls of `USB_receive` together, but `vParserTask` looks
at what each call returns by itself. A call returns one receive buffer, and the loop of
`cdc_task` fills one with each call of `vcom_bread`. So a transfer of at most `RCV_BUFSIZE`
bytes is returned by one call, as a whole, and one without bytes by none.

## Main definitions

* `Transfer.chunks`: the receive buffers that are filled with a transfer.
* `returned`: what a step lets `USB_receive` return.
* `chunksUnderway`: the chunks on their way, in order.
* `returned_prefix`: the calls return the chunks of the transfers, in order.
-/

namespace Plotter

open Lib

/-- The receive buffers that are filled with a transfer. -/
def Transfer.chunks (data : Transfer) : List (List UInt8) :=
  List.replicate (pieces data.bytes.length) data.head

/-- A transfer that fits into one receive buffer, with something in it. -/
def Transfer.Short (data : Transfer) : Prop :=
  0 < data.bytes.length ∧ data.bytes.length ≤ receiveBufferSize

namespace Transfer
variable {data : Transfer}

theorem chunks_of_short (h : data.Short) : data.chunks = [data.bytes] := by
  have hsize : receiveBufferSize = 64 := rfl
  obtain ⟨hpos, hle⟩ := h
  have hone : pieces data.bytes.length = 1 := by
    rw [pieces]
    omega
  rw [chunks, hone, head, List.take_of_length_le hle]
  rfl

end Transfer

namespace Vcom

/-- The receive buffers still to be filled when `n` bytes are left to count. -/
def chunksLeft (v : Vcom) (n : ℕ) : List (List UInt8) :=
  List.replicate (pieces n) (v.rx_buff.bytes.take (min v.rx_count receiveBufferSize))

theorem chunksLeft_zero (v : Vcom) : v.chunksLeft 0 = [] := rfl

theorem chunksLeft_readEP (v : Vcom) (data : Transfer) :
    (v.readEP data).chunksLeft data.bytes.length = data.chunks := by
  have hhead : (data.bytes ++ v.rx_buff.bytes.drop data.bytes.length).take
      (min data.bytes.length receiveBufferSize) = data.head := by
    rw [List.take_append_of_le_length (min_le_left _ _), ← List.take_take, List.take_take,
      min_comm, ← List.take_take, List.take_length, Transfer.head]
  exact congrArg (List.replicate (pieces data.bytes.length)) hhead

/-- One call of `vcom_bread` fills one receive buffer. -/
theorem chunksLeft_piece (v : Vcom) {rd : ℕ} (hcount : v.rx_count ≠ 0) (hrd : v.AtPiece rd) :
    v.chunksLeft (v.rx_count - rd) =
      v.rx_buff.bytes.take (min v.rx_count receiveBufferSize) ::
        v.chunksLeft (v.rx_count - (rd + min v.rx_count receiveBufferSize)) := by
  obtain ⟨hdvd, hlt⟩ := hrd
  have hsize : receiveBufferSize = 64 := rfl
  have hpieces : pieces (v.rx_count - rd) =
      pieces (v.rx_count - (rd + min v.rx_count receiveBufferSize)) + 1 := by
    rw [pieces, pieces]
    omega
  rw [chunksLeft, chunksLeft, hpieces, List.replicate_succ]

end Vcom

namespace Cdc

/-- What a step lets `USB_receive` return. -/
def returned {τ : Type} (s : State Unit τ) : Ev Unit τ → List (List UInt8)
  | .reader r =>
    match s.rx.readers r with
    | .back _ data => [data]
    | _ => []
  | _ => []

/-! ## The chunks on their way -/

/-- What a reader has taken out of `ReceiveQueue` and not returned. -/
def Reader.chunk (g_rxBuff : Fin receiveBuffers → Buffer receiveBufferSize) :
    Reader → List (List UInt8)
  | .copy rec _ => [(g_rxBuff rec.dptr).bytes.take rec.dlen]
  | .back _ data => [data]
  | _ => []

def readingChunk (rx : Receiving Unit) : List (List UInt8) := (rx.readers ()).chunk rx.g_rxBuff

/-- What waits in `ReceiveQueue`. -/
def waitingChunks (rx : Receiving Unit) : List (List UInt8) :=
  rx.ReceiveQueue.items.map fun item => (rx.g_rxBuff item.dptr).bytes.take item.dlen

/-- The buffer that `cdc_task` has filled. -/
def carriedChunk (rx : Receiving Unit) : Pc → List (List UInt8)
  | .count cnt | .clear cnt | .enqueue cnt =>
    (rx.rcv.dptr.map fun pBuf => (rx.g_rxBuff pBuf).bytes.take cnt).toList
  | _ => []

/-- The buffers still to be filled from `rx_buff`. -/
def unreadChunks (v : Vcom) (pc : Pc) : List (List UInt8) :=
  v.chunksLeft (v.rx_count - (v.rx_rd_count + pc.uncounted))

/-- The chunks on their way, the oldest first. -/
def chunksUnderway (pc : Pc) (v : Vcom) (rx : Receiving Unit) : List (List UInt8) :=
  readingChunk rx ++ (waitingChunks rx ++ (carriedChunk rx pc ++ unreadChunks v pc))

section Path
variable {rx rx' : Receiving Unit} {v v' : Vcom} {pc : Pc}

theorem unreadChunks_of_count_eq_zero (hzero : v.rx_count = 0) (pc : Pc) :
    unreadChunks v pc = [] := by
  rw [unreadChunks, hzero, Nat.zero_sub, Vcom.chunksLeft_zero]

theorem chunksUnderway_congr (h : unreadChunks v' pc = unreadChunks v pc) (rx : Receiving Unit) :
    chunksUnderway pc v' rx = chunksUnderway pc v rx := by
  rw [chunksUnderway, chunksUnderway, h]

/-- What is outside of the receive path leaves the chunks alone. -/
theorem SameRead.chunksUnderway (h : SameRead v v') (pc : Pc) (rx : Receiving Unit) :
    chunksUnderway pc v' rx = chunksUnderway pc v rx := by
  apply chunksUnderway_congr
  rw [unreadChunks, unreadChunks, Vcom.chunksLeft, Vcom.chunksLeft, h.buff, h.count, h.rd]

/-- The loop is not behind a copy while there is nothing to be read. -/
theorem ReadOk.uncounted_eq_zero (h : ReadOk v pc) (hzero : v.rx_count = 0) : pc.uncounted = 0 := by
  cases pc with
  | count cnt => exact absurd hzero h.1
  | alloc | test | copy | clear | enqueue | write | setBusy | writeEP | advance | poll => rfl

/-- The end of a read makes all buffers of the transfer unread. -/
theorem unreadChunks_handle_out (hflags : FlagsOk v) (hqueued : v.readQueued = true)
    (hread : ReadOk v pc) (data : Transfer) :
    unreadChunks v pc = [] ∧ unreadChunks (v.handle (.OUT data)) pc = data.chunks := by
  have hzero := hflags.one hqueued
  obtain ⟨hrd, -, -⟩ := hread.idle hzero
  refine ⟨unreadChunks_of_count_eq_zero hzero pc, ?_⟩
  rw [unreadChunks, hread.uncounted_eq_zero hzero, Vcom.handle_out (hflags.queued.trans hqueued)]
  change (v.readEP data).chunksLeft (data.bytes.length - (v.rx_rd_count + 0)) = _
  rw [hrd]
  exact v.chunksLeft_readEP data

/-- The copy of `vcom_bread` fills a buffer. -/
theorem chunksUnderway_copy (hcoh : Coherent .copy rx) (hread : ReadOk v .copy) {n : ℕ}
    (hcopy : rx.copy v = some (rx', n)) :
    chunksUnderway (.count n) v rx' = chunksUnderway .copy v rx := by
  obtain ⟨hn, pBuf, buf, hdptr, hbuf, rfl⟩ := Receiving.copy_cases hcopy
  have hmem := mem_holds_task hdptr
  have hlen : (v.rx_buff.bytes.take n).length = n := by
    have hsize : receiveBufferSize = 64 := rfl
    have htransfer : transferSize = 512 := rfl
    rw [List.length_take, v.rx_buff.size]
    omega
  have hcarried : carriedChunk { rx with g_rxBuff := Function.update rx.g_rxBuff pBuf buf }
      (.count n) = [v.rx_buff.bytes.take n] := by
    change (rx.rcv.dptr.map fun b => (Function.update rx.g_rxBuff pBuf buf b).bytes.take n).toList =
      _
    rw [hdptr, Option.map_some, Function.update_self, hbuf, List.take_left' hlen]
    rfl
  have hunread : unreadChunks v .copy = v.rx_buff.bytes.take n :: unreadChunks v (.count n) := by
    rw [hn]
    exact v.chunksLeft_piece hread.1 hread.2
  have hwaiting : waitingChunks { rx with g_rxBuff := Function.update rx.g_rxBuff pBuf buf } =
      waitingChunks rx := by
    apply List.map_congr_left
    intro item hitem
    have hne : item.dptr ≠ pBuf := by
      intro heq
      have hqueue : pBuf ∉ rx.holds .receive := hcoh.owned.not_mem_of_ne hmem nofun
      exact hqueue (heq ▸ List.mem_map_of_mem hitem)
    simp only [Function.update_of_ne hne]
  have hreading : readingChunk { rx with g_rxBuff := Function.update rx.g_rxBuff pBuf buf } =
      readingChunk rx := by
    have hreader : pBuf ∉ rx.holds (.reader ()) := hcoh.owned.not_mem_of_ne hmem nofun
    rw [Receiving.holds] at hreader
    rw [readingChunk, readingChunk]
    cases hr : rx.readers () with
    | idle | take length | back rec data => rfl
    | copy rec length =>
        have hne : rec.dptr ≠ pBuf := by
          intro heq
          exact hreader (by rw [hr, ← heq]; exact List.mem_singleton_self _)
        simp only [Reader.chunk, Function.update_of_ne hne]
  rw [chunksUnderway, chunksUnderway, hcarried, hunread, hwaiting, hreading]
  rfl

theorem unreadChunks_count (hflags : FlagsOk v) {cnt : ℕ} (hread : ReadOk v (.count cnt)) :
    unreadChunks (v.count cnt) (.clear cnt) = unreadChunks v (.count cnt) := by
  obtain ⟨hcount, hcnt, -, hlt⟩ := hread
  have hfits : v.rx_count ≤ 512 := hflags.fits
  have hsize : receiveBufferSize = 64 := rfl
  have hrd : (v.rx_rd_count + cnt) % 2 ^ 16 = v.rx_rd_count + cnt :=
    Nat.mod_eq_of_lt (by omega)
  rw [unreadChunks, unreadChunks, Vcom.count, hrd]
  rfl

theorem unreadChunks_clear {cnt : ℕ} : unreadChunks v.clear (.enqueue cnt) =
    unreadChunks v (.clear cnt) := by
  rw [Vcom.clear]
  split_ifs with hend
  · rw [unreadChunks_of_count_eq_zero rfl, unreadChunks]
    change [] = v.chunksLeft (v.rx_count - v.rx_rd_count)
    rw [Nat.sub_eq_zero_of_le hend, Vcom.chunksLeft_zero]
  · rfl

theorem chunksUnderway_alloc (v : Vcom) (rx : Receiving Unit) :
    chunksUnderway .test v rx.alloc = chunksUnderway .alloc v rx := by
  rcases rx.alloc_cases with heq | ⟨bf, q, -, -, heq⟩
  · rw [heq]
    rfl
  · rw [heq]
    rfl

/-- The send puts the filled buffer behind those that wait. -/
theorem chunksUnderway_enqueue {n : ℕ} (hcoh : Coherent (.enqueue n) rx) :
    chunksUnderway .write v (rx.enqueue n) = chunksUnderway (.enqueue n) v rx := by
  obtain ⟨pBuf, q, hdptr, hsend⟩ := hcoh.exists_send
  obtain ⟨-, hitems⟩ := Queue.send_eq_some_iff.mp hsend
  have heq := Receiving.enqueue_eq hdptr hsend
  have hwaiting : waitingChunks (rx.enqueue n) =
      waitingChunks rx ++ [(rx.g_rxBuff pBuf).bytes.take n] := by
    rw [heq, waitingChunks, hitems, List.map_append]
    rfl
  have hcarried : carriedChunk rx (.enqueue n) = [(rx.g_rxBuff pBuf).bytes.take n] := by
    rw [carriedChunk, hdptr]
    rfl
  have hreading : readingChunk (rx.enqueue n) = readingChunk rx := by
    rw [heq]
    rfl
  rw [chunksUnderway, chunksUnderway, hwaiting, hcarried, hreading, List.append_assoc]
  rfl

end Path

/-! ## Steps and runs -/

/-- What the calls have returned, and the chunks on their way, are those of the transfers. -/
def Chunked {τ : Type} (s : State Unit τ) (got : List (List UInt8)) : Prop :=
  got ++ chunksUnderway s.pc s.vcom s.rx = s.rx.transfers.flatMap Transfer.chunks

section Run
variable {τ : Type} {s s' : State Unit τ} {got : List (List UInt8)}

/-- A step that returns nothing and delivers nothing. -/
theorem Chunked.of_same (h : Chunked s got)
    (hunderway : chunksUnderway s'.pc s'.vcom s'.rx = chunksUnderway s.pc s.vcom s.rx)
    (htransfers : s'.rx.transfers = s.rx.transfers) : Chunked s' (got ++ []) := by
  rw [Chunked, hunderway, htransfers, List.append_nil]
  exact h

theorem Chunked.task {n : ℕ} (h : Chunked s got) (hcoh : Coherent s.pc s.rx)
    (hin : Intake s.pc s.vcom s.rx) (htask : s.task n = some s') : Chunked s' (got ++ []) := by
  cases State.taskStep htask with
  | @alloc v rx tx => exact h.of_same (chunksUnderway_alloc v rx) rx.alloc_frame.2.2
  | copy hcopy =>
      have htransfers := Receiving.copy_cases hcopy
      refine h.of_same (chunksUnderway_copy hcoh hin.read hcopy) ?_
      obtain ⟨-, pBuf, buf, -, -, hrx⟩ := htransfers
      rw [hrx]
  | count =>
      refine h.of_same ?_ rfl
      rw [chunksUnderway, unreadChunks_count hin.flags hin.read]
      rfl
  | clear =>
      refine h.of_same ?_ rfl
      rw [chunksUnderway, unreadChunks_clear]
      rfl
  | clearNone =>
      obtain ⟨-, hpos, -⟩ := hin.read.clear hin.flags
      exact absurd hpos (lt_irrefl 0)
  | @enqueue v rx tx rdCnt =>
      exact h.of_same (chunksUnderway_enqueue hcoh) (rx.enqueue_frame rdCnt).2.2
  | read | skip | write | writeNone | writeSkip | setBusy | writeEP | advance | poll =>
      exact h.of_same rfl rfl

theorem Chunked.interrupt (h : Chunked s got) (hin : Intake s.pc s.vcom s.rx) (e : UsbEvent)
    (hrom : RomContract s (.usb e : Ev Unit τ)) : Chunked (s.interrupt e) (got ++ []) := by
  cases e with
  | IN => exact h.of_same ((hin.flags.handle (e := .IN) nofun).2.chunksUnderway _ _) rfl
  | OUT_NAK => exact h.of_same ((hin.flags.handle (e := .OUT_NAK) nofun).2.chunksUnderway _ _) rfl
  | OUT data =>
      obtain ⟨hnone, hchunks⟩ := unreadChunks_handle_out hin.flags hrom hin.read data
      rw [Chunked, chunksUnderway, hnone, List.append_nil] at h
      change got ++ [] ++ (_ ++ (_ ++ (_ ++ unreadChunks (s.vcom.handle (.OUT data)) s.pc))) =
        (s.rx.transfers ++ [data]).flatMap Transfer.chunks
      rw [hchunks, List.flatMap_append, List.flatMap_singleton, ← h]
      simp only [List.append_nil, List.append_assoc]
      rfl

/-- **A reader** takes the chunk that has waited longest, copies all of it and returns it. -/
theorem Chunked.goOn [DecidableEq τ] (h : Chunked s got) (hin : Intake s.pc s.vcom s.rx)
    (hstep : Cdc.step s (.reader ()) = some s') : Chunked s' (got ++ returned s (.reader ())) := by
  obtain ⟨rx, hgo, rfl⟩ := Option.map_eq_some_iff.mp hstep
  have hroom := hin.room
  rcases Receiving.goOn_cases hgo with
    ⟨length, rec, q, hr, hitems, rfl⟩ | ⟨rec, length, hr, rfl⟩ | ⟨rec, data, q, hr, -, rfl⟩
  · have hret : returned s (.reader () : Ev Unit τ) = [] := by rw [returned, hr]
    have hwaiting : waitingChunks s.rx = (s.rx.g_rxBuff rec.dptr).bytes.take rec.dlen ::
        waitingChunks { s.rx with ReceiveQueue := q } := by
      rw [waitingChunks, hitems]
      rfl
    rw [hret]
    refine h.of_same ?_ rfl
    rw [chunksUnderway, chunksUnderway, hwaiting]
    simp only [readingChunk, hr, Function.update_self, Reader.chunk]
    rfl
  · have hret : returned s (.reader () : Ev Unit τ) = [] := by rw [returned, hr]
    rw [hr] at hroom
    have hlong : receiveBufferSize ≤ length := hroom
    have hdata : (s.rx.g_rxBuff rec.dptr).bytes.take (min rec.dlen length) =
        (s.rx.g_rxBuff rec.dptr).bytes.take rec.dlen := by
      have hsize := (s.rx.g_rxBuff rec.dptr).size
      rw [← List.take_take, List.take_of_length_le (hsize.trans_le hlong)]
    rw [hret]
    refine h.of_same ?_ rfl
    rw [chunksUnderway, chunksUnderway]
    simp only [readingChunk, hr, Function.update_self, Reader.chunk, hdata]
    rfl
  · have hret : returned s (.reader () : Ev Unit τ) = [data] := by rw [returned, hr]
    rw [hret]
    rw [Chunked, chunksUnderway, readingChunk, hr] at h
    rw [Chunked, chunksUnderway, readingChunk]
    simp only [Function.update_self, Reader.chunk, List.nil_append, List.append_assoc] at h ⊢
    exact h

variable [DecidableEq τ]

/-- **Every step keeps the chunks**: the oldest on its way is the next that is returned. -/
theorem Chunked.step {e : Ev Unit τ} (h : Chunked s got) (hcoh : Coherent s.pc s.rx)
    (hin : Intake s.pc s.vcom s.rx) (hrom : RomContract s e) (hstep : Cdc.step s e = some s') :
    Chunked s' (got ++ returned s e) := by
  cases e with
  | usb e =>
      rw [← Option.some_inj.mp hstep]
      exact h.interrupt hin e hrom
  | rom bytes =>
      rw [← Option.some_inj.mp hstep]
      have hzero := hin.flags.one hrom
      refine h.of_same (chunksUnderway_congr ?_ s.rx) rfl
      rw [unreadChunks_of_count_eq_zero hzero]
      exact @unreadChunks_of_count_eq_zero { s.vcom with rx_buff := bytes } hzero s.pc
  | lineCode | connection flags =>
      rw [← Option.some_inj.mp hstep]
      exact h.of_same (SameRead.chunksUnderway ⟨rfl, rfl, rfl⟩ _ _) rfl
  | task n => exact h.task hcoh hin hstep
  | receiveCall r length =>
      obtain ⟨rx, hcall, rfl⟩ := Option.map_eq_some_iff.mp hstep
      obtain ⟨hidle, rfl⟩ := Receiving.call_cases hcall
      refine h.of_same ?_ rfl
      rw [chunksUnderway, chunksUnderway]
      simp only [readingChunk, hidle, Function.update_self]
      rfl
  | reader r => exact h.goOn hin hstep
  | sendCall t data length | sender t | store t data =>
      obtain ⟨tx, -, rfl⟩ := Option.map_eq_some_iff.mp hstep
      exact h.of_same rfl rfl

omit [DecidableEq τ] in
theorem Chunked.init (rx_buff : Buffer transferSize) : Chunked (.init Unit τ rx_buff) [] := by
  rw [Chunked, chunksUnderway]
  exact unreadChunks_of_count_eq_zero rfl .alloc

/-- What holds of the receive path along a run, with what was returned before. -/
structure Received (s : State Unit τ) (got : List (List UInt8)) : Prop where
  coherent : Coherent s.pc s.rx
  intake : Intake s.pc s.vcom s.rx
  chunked : Chunked s got

omit [DecidableEq τ] in
theorem Received.init (rx_buff : Buffer transferSize) : Received (.init Unit τ rx_buff) [] :=
  ⟨Coherent.init, Intake.init rx_buff, Chunked.init rx_buff⟩

theorem Received.step {e : Ev Unit τ} (h : Received s got) (hG : ReceiveContract s e)
    (hstep : Cdc.step s e = some s') : Received s' (got ++ returned s e) :=
  ⟨h.coherent.step hstep, h.intake.step h.coherent hG.1 hG.2 hstep,
    h.chunked.step h.coherent h.intake hG.1 hstep⟩

omit [DecidableEq τ] in
/-- What was returned begins the chunks of the transfers. -/
theorem Received.begins (h : Received s got) :
    got <+: s.rx.transfers.flatMap Transfer.chunks := ⟨_, h.chunked⟩

theorem received_of_run {rx_buff : Buffer transferSize} {es : List (Ev Unit τ)}
    (hrun : run Cdc.step (.init Unit τ rx_buff) es = some s)
    (hcontract : Along Cdc.step ReceiveContract (.init Unit τ rx_buff) es) :
    Received s (outputs Cdc.step returned (.init Unit τ rx_buff) es) :=
  run_outputs (I := Received) (fun _ _ _ _ h hG hstep => h.step hG hstep)
    (Received.init rx_buff) hcontract hrun

/-- **The chunks.** In every run the calls of `USB_receive` return the chunks of the
transfers, in order: for each transfer its first `RCV_BUFSIZE` bytes, as many times as it
needs receive buffers. -/
theorem returned_prefix {rx_buff : Buffer transferSize} {es : List (Ev Unit τ)}
    (hrun : run Cdc.step (.init Unit τ rx_buff) es = some s)
    (hcontract : Along Cdc.step ReceiveContract (.init Unit τ rx_buff) es) :
    outputs Cdc.step returned (.init Unit τ rx_buff) es <+:
      s.rx.transfers.flatMap Transfer.chunks :=
  (received_of_run hrun hcontract).begins

/-- The chunks of transfers that fit a receive buffer. -/
theorem flatMap_chunks_of_short {transfers : List Transfer} (hshort : ∀ data ∈ transfers, data.Short) :
    transfers.flatMap Transfer.chunks = transfers.map Transfer.bytes := by
  rw [List.map_eq_flatMap]
  apply List.flatMap_congr
  intro data hdata
  exact Transfer.chunks_of_short (hshort data hdata)

omit [DecidableEq τ] in
/-- Transfers that fit a receive buffer are returned whole, by one call each, in order. -/
theorem Received.begins_of_short (h : Received s got)
    (hshort : ∀ data ∈ s.rx.transfers, data.Short) : got <+: s.rx.transfers.map Transfer.bytes := by
  rw [← flatMap_chunks_of_short hshort]
  exact h.begins

end Run

theorem returned_prefix_twoBytes : ∃ s,
    run step (.init Unit Unit clearBuff) (twoBytes ++ [.reader ()]) = some s ∧
      s.rx.received = [65, 66] ∧
      outputs step returned (.init Unit Unit clearBuff) (twoBytes ++ [.reader ()]) <+:
        s.rx.transfers.flatMap Transfer.chunks := by
  have hcontract : Along step ReceiveContract (.init Unit Unit clearBuff)
      (twoBytes ++ [.reader ()]) := by decide +kernel
  obtain ⟨s, hrun, hback⟩ := exists_of_run
    (P := fun s : State Unit Unit => s.rx.received = [65, 66])
    (show (run step (.init Unit Unit clearBuff) (twoBytes ++ [.reader ()])).any _ = true by
      decide +kernel)
  exact ⟨s, hrun, hback, returned_prefix hrun hcontract⟩

end Cdc

end Plotter
