import Plotter.Cdc.Buffers
import Plotter.Lib.Pipe

/-!
# The bytes of the receive path

`vcom_bread` counts what it has read of a transfer in `rx_rd_count`, but copies from the start
of `rx_buff` every time. A transfer that needs more than one receive buffer is therefore
received as its first `RCV_BUFSIZE` bytes, as many times as it needs buffers. With such
transfers the path is a pipe of these bytes, in order; it is one of the delivered
bytes if each transfer is its own head, repeated.

## Main definitions

* `Transfer.copies`: what `vcom_bread` makes of a transfer.
* `RomContract`, `LongReads`: what the path relies on.
* `ReadOk`: the counters and flags of the driver, at each place in the loop.
* `path`: the bytes on their way, as a pipe.
* `received_prefix`: when the received bytes are those delivered.
-/

namespace Plotter

open Lib

/-- How many receive buffers `n` bytes need. -/
def pieces (n : ℕ) : ℕ := (n + 63) / 64

/-- The part of a transfer that fits into one receive buffer. -/
def Transfer.head (data : Transfer) : List UInt8 := data.bytes.take receiveBufferSize

/-- What the calls of `vcom_bread` make of a transfer. -/
def Transfer.copies (data : Transfer) : List UInt8 :=
  (List.replicate (pieces data.bytes.length) data.head).flatten

/-- The transfer is its head, repeated: it has at most `RCV_BUFSIZE` bytes, or they repeat. -/
def Transfer.HeadRepeated (data : Transfer) : Prop :=
  ∃ k, data.bytes = (List.replicate k data.head).flatten

namespace Transfer
variable {data : Transfer}

theorem headRepeated_of_le (h : data.bytes.length ≤ receiveBufferSize) : data.HeadRepeated := by
  refine ⟨1, ?_⟩
  rw [head, List.take_of_length_le h, List.replicate_one, List.flatten_singleton]

/-- The copies of such a transfer are the transfer. -/
theorem copies_eq_of_headRepeated (h : data.HeadRepeated) : data.copies = data.bytes := by
  obtain ⟨k, hk⟩ := h
  have hlen : data.bytes.length = k * min 64 data.bytes.length := by
    have hflat := congrArg List.length hk
    rw [List.length_flatten, List.map_replicate, List.sum_replicate_nat, head,
      List.length_take] at hflat
    exact hflat
  rw [copies]
  rcases Nat.eq_zero_or_pos data.bytes.length with hnil | hpos
  · rw [hnil, List.length_eq_zero_iff.mp hnil]
    rfl
  have hpieces : pieces data.bytes.length = k := by
    rcases Nat.le_total data.bytes.length 64 with hle | hge
    · rw [min_eq_right hle] at hlen
      have hone : k = 1 := by
        have hcancel : 1 * data.bytes.length = k * data.bytes.length := by
          rw [Nat.one_mul]
          exact hlen
        exact (Nat.eq_of_mul_eq_mul_right hpos hcancel).symm
      rw [pieces, hone]
      omega
    · rw [min_eq_left hge] at hlen
      rw [pieces]
      omega
  rw [hpieces, ← hk]

end Transfer

namespace Vcom

/-- What is read of the transfer in `rx_buff` when `n` bytes of it are left to count. -/
def copiesLeft (v : Vcom) (n : ℕ) : List UInt8 :=
  (List.replicate (pieces n) (v.rx_buff.bytes.take (min v.rx_count receiveBufferSize))).flatten

/-- The counter is at the start of a piece. -/
def AtPiece (v : Vcom) (rd : ℕ) : Prop := 64 ∣ rd ∧ (rd = 0 ∨ rd < v.rx_count)

theorem copiesLeft_zero (v : Vcom) : v.copiesLeft 0 = [] := rfl

/-- A delivered transfer is to be read from its start. -/
theorem copiesLeft_readEP (v : Vcom) (data : Transfer) :
    (v.readEP data).copiesLeft data.bytes.length = data.copies := by
  have hhead : (data.bytes ++ v.rx_buff.bytes.drop data.bytes.length).take
      (min data.bytes.length receiveBufferSize) = data.head := by
    rw [List.take_append_of_le_length (min_le_left _ _), Transfer.head]
    rcases le_total data.bytes.length receiveBufferSize with hle | hge
    · rw [min_eq_left hle, List.take_of_length_le hle, List.take_length]
    · rw [min_eq_right hge]
  rw [copiesLeft, Transfer.copies]
  exact congrArg (fun l => (List.replicate (pieces data.bytes.length) l).flatten) hhead

/-- One call reads one piece. -/
theorem copiesLeft_piece (v : Vcom) {rd : ℕ} (hcount : v.rx_count ≠ 0) (hrd : v.AtPiece rd) :
    v.copiesLeft (v.rx_count - rd) =
      v.rx_buff.bytes.take (min v.rx_count receiveBufferSize) ++
        v.copiesLeft (v.rx_count - (rd + min v.rx_count receiveBufferSize)) := by
  obtain ⟨hdvd, hlt⟩ := hrd
  have hpieces : pieces (v.rx_count - rd) =
      pieces (v.rx_count - (rd + min v.rx_count 64)) + 1 := by
    rw [pieces, pieces]
    omega
  have hsize : receiveBufferSize = 64 := rfl
  rw [copiesLeft, copiesLeft, hsize, hpieces, List.replicate_succ, List.flatten_cons]

end Vcom

namespace Cdc

/-! ## The driver -/

/-- The ROM raises `USB_EVT_OUT` and touches `rx_buff` only with a read under way. -/
def RomContract {ρ τ : Type} (s : State ρ τ) : Ev ρ τ → Prop
  | .usb (.OUT _) => s.vcom.readQueued = true
  | .rom _ => s.vcom.readQueued = true
  | _ => True

/-- The callers of `USB_receive` have room for a receive buffer. -/
def LongReads {ρ τ : Type} : Ev ρ τ → Prop
  | .receiveCall _ length => receiveBufferSize ≤ length
  | _ => True

/-- The transfer that an event delivers. -/
def Ev.transfer? {ρ τ : Type} : Ev ρ τ → Option Transfer
  | .usb (.OUT data) => some data
  | _ => none

/-- `BUF_QUEUED` is set while the ROM has a read under way, `BUF_FULL` while there is a
transfer to be read, and never both. -/
structure FlagsOk (v : Vcom) : Prop where
  queued : v.rx_flags.BUF_QUEUED = v.readQueued
  full : v.rx_flags.BUF_FULL = decide (v.rx_count ≠ 0)
  one : v.readQueued = true → v.rx_count = 0
  fits : v.rx_count ≤ transferSize

/-- Where the counter is, at each place in the loop. -/
def ReadOk (v : Vcom) : Pc → Prop
  | .copy => v.rx_count ≠ 0 ∧ v.AtPiece v.rx_rd_count
  | .count cnt =>
    v.rx_count ≠ 0 ∧ cnt = min v.rx_count receiveBufferSize ∧ v.AtPiece v.rx_rd_count
  | .clear cnt => v.rx_count ≠ 0 ∧ cnt = min v.rx_count receiveBufferSize ∧
    ∃ rd, v.rx_rd_count = rd + cnt ∧ v.AtPiece rd
  | _ => v.AtPiece v.rx_rd_count

/-- What has been copied and is not counted yet. -/
def Pc.uncounted : Pc → ℕ
  | .count cnt => cnt
  | _ => 0

/-- The pieces still to be copied out of `rx_buff`. -/
def unread (v : Vcom) (pc : Pc) : List UInt8 :=
  v.copiesLeft (v.rx_count - (v.rx_rd_count + pc.uncounted))

section Driver
variable {v : Vcom} {pc : Pc}

/-- With nothing to be read the loop is not in `vcom_bread`, and nothing is left. -/
theorem ReadOk.idle (h : ReadOk v pc) (hzero : v.rx_count = 0) :
    v.rx_rd_count = 0 ∧ unread v pc = [] ∧
      ∀ v' : Vcom, v'.rx_rd_count = 0 → ReadOk v' pc ∧
        unread v' pc = v'.copiesLeft v'.rx_count := by
  cases pc with
  | copy => exact absurd hzero h.1
  | count cnt => exact absurd hzero h.1
  | clear cnt => exact absurd hzero h.1
  | alloc | test | enqueue | write | setBusy | writeEP | advance | poll =>
      have hrd : v.rx_rd_count = 0 := by
        rcases h.2 with hrd | hlt
        · exact hrd
        · omega
      refine ⟨hrd, ?_, fun v' hv' => ⟨⟨?_, .inl hv'⟩, ?_⟩⟩
      · rw [unread, hzero, Nat.zero_sub]
        rfl
      · rw [hv']
        exact Nat.dvd_zero 64
      · rw [unread, hv']
        rfl

/-- What does not touch the receive side of the driver. -/
structure SameRead (v v' : Vcom) : Prop where
  buff : v'.rx_buff = v.rx_buff
  count : v'.rx_count = v.rx_count
  rd : v'.rx_rd_count = v.rx_rd_count

theorem SameRead.readOk {v' : Vcom} (h : SameRead v v') (hread : ReadOk v pc) : ReadOk v' pc := by
  cases pc <;> simpa only [ReadOk, Vcom.AtPiece, h.count, h.rd] using hread

theorem SameRead.unread {v' : Vcom} (h : SameRead v v') (pc : Pc) :
    unread v' pc = unread v pc := by
  rw [Cdc.unread, Cdc.unread, Vcom.copiesLeft, Vcom.copiesLeft, h.buff, h.count, h.rd]

/-- `USB_EVT_OUT_NAK` and `USB_EVT_IN` leave the receive side of the driver alone. -/
theorem FlagsOk.handle (h : FlagsOk v) {e : UsbEvent} (he : ∀ data, e ≠ .OUT data) :
    FlagsOk (v.handle e) ∧ SameRead v (v.handle e) := by
  cases e with
  | IN => exact ⟨⟨h.queued, h.full, h.one, h.fits⟩, ⟨rfl, rfl, rfl⟩⟩
  | OUT data => exact absurd rfl (he data)
  | OUT_NAK =>
      rw [Vcom.handle, VCOM_bulk_out_hdlr]
      split_ifs with hfree
      · rw [h.full, h.queued, Bool.and_eq_true, Bool.not_eq_true', Bool.not_eq_true',
          decide_eq_false_iff_not, not_not] at hfree
        exact ⟨⟨rfl, h.full, fun _ => hfree.1, h.fits⟩, ⟨rfl, rfl, rfl⟩⟩
      · exact ⟨h, ⟨rfl, rfl, rfl⟩⟩

/-- `USB_EVT_OUT`, when the read ends, makes the whole transfer unread. -/
theorem FlagsOk.handle_out (h : FlagsOk v) (hqueued : v.readQueued = true) (hread : ReadOk v pc)
    (data : Transfer) :
    FlagsOk (v.handle (.OUT data)) ∧ ReadOk (v.handle (.OUT data)) pc ∧
      unread v pc = [] ∧ unread (v.handle (.OUT data)) pc = data.copies := by
  have hzero := h.one hqueued
  obtain ⟨hrd, hnone, hnew⟩ := hread.idle hzero
  have hhandle := Vcom.handle_out (h.queued.trans hqueued) data
  obtain ⟨hread', hunread⟩ := hnew (v.handle (.OUT data)) (by rw [hhandle]; exact hrd)
  refine ⟨?_, hread', hnone, ?_⟩
  · rw [hhandle]
    refine ⟨rfl, ?_, ?_, data.fits⟩
    · change (v.rx_flags.BUF_FULL || _) = _
      rw [h.full, hzero]
      rfl
    · intro hfalse
      cases hfalse
  · rw [hunread, hhandle]
    exact v.copiesLeft_readEP data

/-- With a read under way, `rx_buff` holds nothing to be read. -/
theorem FlagsOk.touch (h : FlagsOk v) (hqueued : v.readQueued = true) (hread : ReadOk v pc)
    (bytes : Buffer transferSize) :
    FlagsOk { v with rx_buff := bytes } ∧ ReadOk { v with rx_buff := bytes } pc ∧
      unread { v with rx_buff := bytes } pc = unread v pc := by
  have hzero := h.one hqueued
  obtain ⟨hrd, hnone, hnew⟩ := hread.idle hzero
  obtain ⟨hread', hunread⟩ := hnew { v with rx_buff := bytes } hrd
  refine ⟨⟨h.queued, h.full, h.one, h.fits⟩, hread', ?_⟩
  rw [hunread, hnone]
  exact congrArg (fun n => Vcom.copiesLeft { v with rx_buff := bytes } n) hzero

/-- The counter does not overflow. -/
theorem ReadOk.count (h : FlagsOk v) {cnt : ℕ} (hread : ReadOk v (.count cnt)) :
    ReadOk (v.count cnt) (.clear cnt) ∧ unread (v.count cnt) (.clear cnt) = unread v (.count cnt) := by
  obtain ⟨hcount, hcnt, hat⟩ := hread
  have hfits : v.rx_count ≤ 512 := h.fits
  have hsize : receiveBufferSize = 64 := rfl
  have hrd : (v.rx_rd_count + cnt) % 2 ^ 16 = v.rx_rd_count + cnt := by
    obtain ⟨-, hlt⟩ := hat
    rw [hsize] at hcnt
    exact Nat.mod_eq_of_lt (by omega)
  refine ⟨⟨hcount, hcnt, v.rx_rd_count, hrd, hat⟩, ?_⟩
  rw [unread, unread, Vcom.count, hrd]
  rfl

/-- The critical section clears a transfer that has been counted to its end. -/
theorem ReadOk.clear (h : FlagsOk v) {cnt : ℕ} (hread : ReadOk v (.clear cnt)) :
    FlagsOk v.clear ∧ 0 < cnt ∧ v.clear.AtPiece v.clear.rx_rd_count ∧
      v.clear.copiesLeft (v.clear.rx_count - v.clear.rx_rd_count) = unread v (.clear cnt) := by
  obtain ⟨hcount, hcnt, rd, hrd, hat⟩ := hread
  have hsize : receiveBufferSize = 64 := rfl
  rw [hsize] at hcnt
  have hpos : 0 < cnt := by omega
  by_cases hend : v.rx_rd_count ≥ v.rx_count
  · have hclear : v.clear =
        { v with rx_flags.BUF_FULL := false, rx_rd_count := 0, rx_count := 0 } := if_pos hend
    rw [hclear]
    refine ⟨⟨h.queued, rfl, fun _ => rfl, Nat.zero_le _⟩, hpos, ⟨Nat.dvd_zero 64, .inl rfl⟩, ?_⟩
    have hnone : v.rx_count - (v.rx_rd_count + (Pc.clear cnt).uncounted) = 0 :=
      Nat.sub_eq_zero_of_le hend
    rw [unread, hnone, Vcom.copiesLeft_zero]
    exact Vcom.copiesLeft_zero _
  · have hclear : v.clear = v := if_neg hend
    rw [hclear]
    refine ⟨h, hpos, ⟨?_, .inr (by omega)⟩, rfl⟩
    -- the piece was not the last, so it was a full one
    have hfull : cnt = 64 := by omega
    rw [hrd, hfull]
    exact Nat.dvd_add_self_right.mpr hat.1

end Driver

/-! ## The bytes on their way -/

section Path
variable {rx rx' : Receiving Unit} {v : Vcom} {pc : Pc}

/-- What a reader has taken out of `ReceiveQueue` and not returned. -/
def Reader.bytes (g_rxBuff : Fin receiveBuffers → Buffer receiveBufferSize) :
    Reader → List UInt8
  | .copy rec _ => (g_rxBuff rec.dptr).bytes.take rec.dlen
  | .back _ data => data
  | _ => []

/-- A reader has room for a receive buffer. -/
def Reader.Room : Reader → Prop
  | .take length | .copy _ length => receiveBufferSize ≤ length
  | _ => True

def reading (rx : Receiving Unit) : List UInt8 := (rx.readers ()).bytes rx.g_rxBuff

/-- What waits in `ReceiveQueue`. -/
def waiting {ρ : Type} (rx : Receiving ρ) : List UInt8 :=
  rx.ReceiveQueue.items.flatMap fun item => (rx.g_rxBuff item.dptr).bytes.take item.dlen

/-- What `cdc_task` has read into its buffer. -/
def carried {ρ : Type} (rx : Receiving ρ) : Pc → List UInt8
  | .count cnt | .clear cnt | .enqueue cnt =>
    (rx.rcv.dptr.map fun pBuf => (rx.g_rxBuff pBuf).bytes.take cnt).getD []
  | _ => []

/-- The receive path as a pipe: what was received, and what is on its way. -/
def path (pc : Pc) (v : Vcom) (rx : Receiving Unit) : Pipe UInt8 where
  delivered := rx.received
  waiting := reading rx ++ (waiting rx ++ (carried rx pc ++ unread v pc))

/-- The path has accepted the copies of all transfers, and a caller has room for a receive
buffer. -/
structure Intake (pc : Pc) (v : Vcom) (rx : Receiving Unit) : Prop where
  flags : FlagsOk v
  read : ReadOk v pc
  bytes : (path pc v rx).accepted = rx.transfers.flatMap Transfer.copies
  room : (rx.readers ()).Room

/-- A buffer that is written while it is elsewhere changes nothing that waits. -/
theorem waiting_update {ρ : Type} {rx : Receiving ρ} {pBuf : Fin receiveBuffers}
    (hfree : pBuf ∉ rx.holds .receive) (buf : Buffer receiveBufferSize) :
    waiting { rx with g_rxBuff := Function.update rx.g_rxBuff pBuf buf } = waiting rx := by
  apply List.flatMap_congr
  intro item hitem
  have hne : item.dptr ≠ pBuf := by
    rintro rfl
    exact hfree (List.mem_map_of_mem hitem)
  simp only [Function.update_of_ne hne]

theorem reading_update {pBuf : Fin receiveBuffers} (hfree : pBuf ∉ rx.holds (.reader ()))
    (buf : Buffer receiveBufferSize) :
    reading { rx with g_rxBuff := Function.update rx.g_rxBuff pBuf buf } = reading rx := by
  rw [Receiving.holds] at hfree
  rw [reading, reading]
  cases hr : rx.readers () with
  | idle | take length | back rec data => rfl
  | copy rec length =>
      have hne : rec.dptr ≠ pBuf := by
        rintro rfl
        exact hfree (by rw [hr]; exact List.mem_singleton_self _)
      simp only [Reader.bytes, Function.update_of_ne hne]

/-- **One copy** takes a piece of the transfer into the buffer of the loop. -/
theorem accepted_copy (hcoh : Coherent .copy rx) (hread : ReadOk v .copy) {n : ℕ}
    (hcopy : rx.copy v = some (rx', n)) :
    ReadOk v (.count n) ∧ (path (.count n) v rx').accepted = (path .copy v rx).accepted := by
  obtain ⟨hn, pBuf, buf, hdptr, hbuf, rfl⟩ := Receiving.copy_cases hcopy
  have hmem := mem_holds_task hdptr
  have hlen : (v.rx_buff.bytes.take n).length = n := by
    have hsize : receiveBufferSize = 64 := rfl
    have htransfer : transferSize = 512 := rfl
    rw [List.length_take, v.rx_buff.size]
    omega
  have hcarried : carried { rx with g_rxBuff := Function.update rx.g_rxBuff pBuf buf } (.count n) =
      v.rx_buff.bytes.take n := by
    change (rx.rcv.dptr.map fun b => (Function.update rx.g_rxBuff pBuf buf b).bytes.take n).getD
      [] = _
    rw [hdptr, Option.map_some, Option.getD_some, Function.update_self, hbuf]
    exact List.take_left' hlen
  have hunread : unread v .copy = v.rx_buff.bytes.take n ++ unread v (.count n) := by
    rw [hn]
    exact v.copiesLeft_piece hread.1 hread.2
  refine ⟨⟨hread.1, hn, hread.2⟩, ?_⟩
  have hqueue : pBuf ∉ rx.holds .receive := hcoh.owned.not_mem_of_ne hmem nofun
  have hreader : pBuf ∉ rx.holds (.reader ()) := hcoh.owned.not_mem_of_ne hmem nofun
  rw [Pipe.accepted, Pipe.accepted, path, path, hcarried, hunread, waiting_update hqueue,
    reading_update hreader]
  rfl

theorem path_alloc (v : Vcom) (rx : Receiving Unit) : path .test v rx.alloc = path .alloc v rx := by
  rcases rx.alloc_cases with heq | ⟨bf, q, -, -, heq⟩
  · rw [heq]
    rfl
  · rw [heq]
    rfl

/-- **The send** puts what was read behind what waits. -/
theorem accepted_enqueue {n : ℕ} (hcoh : Coherent (.enqueue n) rx) :
    (path .write v (rx.enqueue n)).accepted = (path (.enqueue n) v rx).accepted := by
  obtain ⟨pBuf, q, hdptr, hsend⟩ := hcoh.exists_send
  obtain ⟨-, hitems⟩ := Queue.send_eq_some_iff.mp hsend
  have heq := Receiving.enqueue_eq hdptr hsend
  have hwaiting : waiting (rx.enqueue n) = waiting rx ++ (rx.g_rxBuff pBuf).bytes.take n := by
    rw [heq, waiting, hitems, List.flatMap_append, List.flatMap_singleton]
    rfl
  have hcarried : carried rx (.enqueue n) = (rx.g_rxBuff pBuf).bytes.take n := by
    rw [carried, hdptr]
    rfl
  have hreading : reading (rx.enqueue n) = reading rx := by
    rw [heq]
    rfl
  have hreceived : (rx.enqueue n).received = rx.received := by rw [heq]
  rw [Pipe.accepted, Pipe.accepted, path, path, hwaiting, hcarried, hreading, hreceived]
  simp only [List.append_assoc]
  rfl

theorem Intake.call (h : Intake pc v rx) {length : ℕ} (hlong : receiveBufferSize ≤ length)
    (hcall : rx.call () length = some rx') : Intake pc v rx' := by
  obtain ⟨hidle, rfl⟩ := Receiving.call_cases hcall
  refine ⟨h.flags, h.read, ?_, ?_⟩
  · rw [← h.bytes, Pipe.accepted, Pipe.accepted, path, path]
    simp only [reading, hidle, Function.update_self]
    rfl
  · simp only [Function.update_self]
    exact hlong

/-- **A reader** takes what has waited longest, copies all of it and returns it. -/
theorem Intake.goOn (h : Intake pc v rx) (hgo : rx.goOn () = some rx') : Intake pc v rx' := by
  have hroom := h.room
  rcases Receiving.goOn_cases hgo with
    ⟨length, rec, q, hr, hitems, rfl⟩ | ⟨rec, length, hr, rfl⟩ | ⟨rec, data, q, hr, -, rfl⟩
  · rw [hr] at hroom
    have hwaiting : waiting rx = (rx.g_rxBuff rec.dptr).bytes.take rec.dlen ++
        waiting { rx with ReceiveQueue := q } := by
      rw [waiting, hitems, List.flatMap_cons]
      rfl
    refine ⟨h.flags, h.read, ?_, ?_⟩
    · rw [← h.bytes, Pipe.accepted, Pipe.accepted, path, path, hwaiting]
      simp only [reading, hr, Function.update_self, Reader.bytes, List.nil_append, List.append_assoc]
      rfl
    · simp only [Function.update_self]
      exact hroom
  · rw [hr] at hroom
    have hlong : receiveBufferSize ≤ length := hroom
    have hdata : (rx.g_rxBuff rec.dptr).bytes.take (min rec.dlen length) =
        (rx.g_rxBuff rec.dptr).bytes.take rec.dlen := by
      rcases Nat.le_total rec.dlen length with hle | hge
      · rw [min_eq_left hle]
      · -- the whole buffer, with either length
        have hsize := (rx.g_rxBuff rec.dptr).size
        rw [min_eq_right hge, List.take_of_length_le (hsize.trans_le hlong),
          List.take_of_length_le (hsize.trans_le (hlong.trans hge))]
    refine ⟨h.flags, h.read, ?_, ?_⟩
    · rw [← h.bytes, Pipe.accepted, Pipe.accepted, path, path]
      simp only [reading, hr, Function.update_self, Reader.bytes, hdata]
      rfl
    · simp only [Function.update_self]
      trivial
  · refine ⟨h.flags, h.read, ?_, ?_⟩
    · rw [← h.bytes, Pipe.accepted, Pipe.accepted, path, path]
      simp only [reading, hr, Function.update_self, Reader.bytes, List.nil_append, List.append_assoc]
      rfl
    · simp only [Function.update_self]
      trivial

/-- A step of the loop that leaves the tasks in `USB_receive` alone. -/
theorem Intake.goTo {pc' : Pc} {v' : Vcom} (h : Intake pc v rx) (hflags : FlagsOk v')
    (hread : ReadOk v' pc') (hreaders : rx'.readers = rx.readers)
    (htransfers : rx'.transfers = rx.transfers)
    (hpath : (path pc' v' rx').accepted = (path pc v rx).accepted) : Intake pc' v' rx' where
  flags := hflags
  read := hread
  bytes := by rw [hpath, h.bytes, htransfers]
  room := by
    rw [hreaders]
    exact h.room

end Path

section Run
variable {τ : Type} {s s' : State Unit τ}

theorem Intake.task {n : ℕ} (h : Intake s.pc s.vcom s.rx) (hcoh : Coherent s.pc s.rx)
    (htask : s.task n = some s') : Intake s'.pc s'.vcom s'.rx := by
  cases State.taskStep htask with
  | @alloc v rx tx =>
      obtain ⟨-, hreaders, htransfers⟩ := rx.alloc_frame
      exact h.goTo h.flags h.read hreaders htransfers (by rw [path_alloc])
  | read _ hcount => exact h.goTo h.flags ⟨hcount, h.read⟩ rfl rfl rfl
  | copy hcopy =>
      obtain ⟨hread, hpath⟩ := accepted_copy hcoh h.read hcopy
      obtain ⟨-, pBuf, buf, -, -, hrx⟩ := Receiving.copy_cases hcopy
      exact h.goTo h.flags hread (by rw [hrx]) (by rw [hrx]) hpath
  | count =>
      obtain ⟨hread, hunread⟩ := h.read.count h.flags
      refine h.goTo ⟨h.flags.queued, h.flags.full, h.flags.one, h.flags.fits⟩ hread rfl rfl ?_
      rw [path, path, hunread]
      rfl
  | clear =>
      obtain ⟨hflags, -, hat, hunread⟩ := h.read.clear h.flags
      refine h.goTo hflags hat rfl rfl ?_
      rw [path, path, ← hunread]
      rfl
  | clearNone =>
      obtain ⟨-, hpos, -⟩ := h.read.clear h.flags
      exact absurd hpos (lt_irrefl 0)
  | @enqueue v rx tx rdCnt =>
      obtain ⟨-, hreaders, htransfers⟩ := rx.enqueue_frame rdCnt
      exact h.goTo h.flags h.read hreaders htransfers (accepted_enqueue hcoh)
  | setBusy =>
      exact h.goTo ⟨h.flags.queued, h.flags.full, h.flags.one, h.flags.fits⟩ h.read rfl rfl rfl
  | skip | write | writeNone | writeSkip | writeEP | advance | poll =>
      exact h.goTo h.flags h.read rfl rfl rfl

/-- What is outside of the receive path leaves it alone. -/
theorem Intake.same {v v' : Vcom} {pc : Pc} {rx : Receiving Unit} (h : Intake pc v rx)
    (hflags : FlagsOk v') (hsame : SameRead v v') : Intake pc v' rx :=
  h.goTo hflags (hsame.readOk h.read) rfl rfl (by rw [path, path, hsame.unread])

/-- The interrupt makes a transfer unread, with nothing unread before it. -/
theorem Intake.interrupt (h : Intake s.pc s.vcom s.rx) (e : UsbEvent)
    (hrom : RomContract s (.usb e : Ev Unit τ)) :
    Intake (s.interrupt e).pc (s.interrupt e).vcom (s.interrupt e).rx := by
  cases e with
  | IN =>
      obtain ⟨hflags, hsame⟩ := h.flags.handle (e := .IN) nofun
      exact h.same hflags hsame
  | OUT_NAK =>
      obtain ⟨hflags, hsame⟩ := h.flags.handle (e := .OUT_NAK) nofun
      exact h.same hflags hsame
  | OUT data =>
      obtain ⟨hflags, hread, hnone, hcopies⟩ := h.flags.handle_out hrom h.read data
      refine ⟨hflags, hread, ?_, h.room⟩
      have hbytes := h.bytes
      rw [Pipe.accepted, path, hnone, List.append_nil] at hbytes
      change _ = (s.rx.transfers ++ [data]).flatMap Transfer.copies
      rw [List.flatMap_append, List.flatMap_singleton, ← hbytes, Pipe.accepted, path]
      change _ ++ (_ ++ (_ ++ (_ ++ unread (s.vcom.handle (.OUT data)) s.pc))) = _
      rw [hcopies]
      simp only [List.append_assoc]
      rfl

variable [DecidableEq τ]

/-- **Every step keeps the bytes of the receive path.** -/
theorem Intake.step {e : Ev Unit τ} (h : Intake s.pc s.vcom s.rx) (hcoh : Coherent s.pc s.rx)
    (hrom : RomContract s e) (hlong : LongReads e) (hstep : step s e = some s') :
    Intake s'.pc s'.vcom s'.rx := by
  cases e with
  | usb e =>
      rw [← Option.some_inj.mp hstep]
      exact h.interrupt e hrom
  | rom bytes =>
      rw [← Option.some_inj.mp hstep]
      obtain ⟨hflags, hread, hunread⟩ := h.flags.touch hrom h.read bytes
      exact h.goTo hflags hread rfl rfl (by rw [path, path, hunread])
  | lineCode | connection flags =>
      rw [← Option.some_inj.mp hstep]
      exact h.same ⟨h.flags.queued, h.flags.full, h.flags.one, h.flags.fits⟩ ⟨rfl, rfl, rfl⟩
  | task n => exact h.task hcoh hstep
  | receiveCall r length =>
      obtain ⟨rx, hrx, rfl⟩ := Option.map_eq_some_iff.mp hstep
      exact h.call hlong hrx
  | reader r =>
      obtain ⟨rx, hrx, rfl⟩ := Option.map_eq_some_iff.mp hstep
      exact h.goOn hrx
  | sendCall t data length | sender t | store t data =>
      obtain ⟨tx, -, rfl⟩ := Option.map_eq_some_iff.mp hstep
      exact h

/-- A step delivers at most one transfer. -/
theorem transfers_of_step {e : Ev Unit τ} (hstep : Cdc.step s e = some s') :
    s'.rx.transfers = s.rx.transfers ++ e.transfer?.toList := by
  have hnone : s.rx.transfers ++ (none : Option Transfer).toList = s.rx.transfers :=
    List.append_nil _
  cases e with
  | usb e =>
      rw [← Option.some_inj.mp hstep]
      cases e with
      | OUT data => rfl
      | IN | OUT_NAK => exact hnone.symm
  | rom bytes | lineCode | connection flags =>
      rw [← Option.some_inj.mp hstep]
      exact hnone.symm
  | task n =>
      refine Eq.trans ?_ hnone.symm
      cases State.taskStep hstep with
      | alloc => rw [Receiving.alloc_frame _ |>.2.2]
      | copy hcopy =>
          obtain ⟨-, pBuf, buf, -, -, rfl⟩ := Receiving.copy_cases hcopy
          rfl
      | enqueue => rw [Receiving.enqueue_frame _ _ |>.2.2]
      | read | skip | count | clear | clearNone | write | writeNone | writeSkip | setBusy | writeEP
      | advance | poll => rfl
  | receiveCall r length =>
      obtain ⟨rx, hrx, rfl⟩ := Option.map_eq_some_iff.mp hstep
      obtain ⟨-, rfl⟩ := Receiving.call_cases hrx
      exact hnone.symm
  | reader r =>
      obtain ⟨rx, hrx, rfl⟩ := Option.map_eq_some_iff.mp hstep
      refine Eq.trans ?_ hnone.symm
      rcases Receiving.goOn_cases hrx with
        ⟨_, _, _, -, -, rfl⟩ | ⟨_, _, -, rfl⟩ | ⟨_, _, _, -, -, rfl⟩ <;> rfl
  | sendCall t data length | sender t | store t data =>
      obtain ⟨tx, -, rfl⟩ := Option.map_eq_some_iff.mp hstep
      exact hnone.symm

theorem Intake.init (rx_buff : Buffer transferSize) :
    Intake .alloc { rx_buff := rx_buff } (Receiving.init Unit) where
  flags := ⟨rfl, rfl, nofun, Nat.zero_le _⟩
  read := ⟨Nat.dvd_zero 64, .inl rfl⟩
  bytes := by
    have hnone : unread { rx_buff := rx_buff } .alloc = [] := Vcom.copiesLeft_zero _
    rw [Pipe.accepted, path, hnone]
    rfl
  room := trivial

/-- What the ROM and the callers of `USB_receive` keep to. -/
def ReceiveContract (s : State Unit τ) (e : Ev Unit τ) : Prop := RomContract s e ∧ LongReads e

/-- **The copies.** Whatever the transfers are, the received bytes are the beginning of their
copies, in order. -/
theorem received_prefix_copies {rx_buff : Buffer transferSize} {es : List (Ev Unit τ)}
    (hrun : run Cdc.step (.init Unit τ rx_buff) es = some s)
    (hcontract : Along Cdc.step ReceiveContract (.init Unit τ rx_buff) es) :
    s.rx.received <+: s.rx.transfers.flatMap Transfer.copies := by
  have h : Coherent s.pc s.rx ∧ Intake s.pc s.vcom s.rx :=
    run_induction (I := fun s => Coherent s.pc s.rx ∧ Intake s.pc s.vcom s.rx)
      (fun s e s' h hG hstep => ⟨h.1.step hstep, h.2.step h.1 hG.1 hG.2 hstep⟩)
      ⟨Coherent.init, Intake.init rx_buff⟩ hcontract hrun
  rw [← h.2.bytes]
  exact Pipe.delivered_prefix (path s.pc s.vcom s.rx)

theorem transfers_of_run {s₀ : State Unit τ} {es : List (Ev Unit τ)}
    (hrun : run Cdc.step s₀ es = some s) :
    s.rx.transfers = s₀.rx.transfers ++ es.filterMap Ev.transfer? := by
  induction es generalizing s₀ with
  | nil =>
      rw [← Option.some_inj.mp hrun]
      exact (List.append_nil _).symm
  | cons e es ih =>
      obtain ⟨s₁, hstep, hrest⟩ := run_cons_eq_some.mp hrun
      rw [ih hrest, transfers_of_step hstep, List.append_assoc]
      cases htransfer : e.transfer? with
      | none => rw [List.filterMap_cons_none htransfer]; rfl
      | some data => rw [List.filterMap_cons_some htransfer]; rfl

/-- **The received bytes** are the beginning of those delivered, in every run in which each
transfer is its head, repeated. -/
theorem received_prefix {rx_buff : Buffer transferSize} {es : List (Ev Unit τ)}
    (hrun : run Cdc.step (.init Unit τ rx_buff) es = some s)
    (hcontract : Along Cdc.step ReceiveContract (.init Unit τ rx_buff) es)
    (hheads : ∀ e ∈ es, ∀ data ∈ e.transfer?, data.HeadRepeated) :
    s.rx.received <+: s.rx.transfers.flatMap Transfer.bytes := by
  have hcopies : s.rx.transfers.flatMap Transfer.copies =
      s.rx.transfers.flatMap Transfer.bytes := by
    apply List.flatMap_congr
    intro data hdata
    rw [transfers_of_run hrun] at hdata
    obtain ⟨e, he, htransfer⟩ := List.mem_filterMap.mp hdata
    exact Transfer.copies_eq_of_headRepeated (hheads e he data htransfer)
  rw [← hcopies]
  exact received_prefix_copies hrun hcontract

end Run

/-! ## A short transfer and a long one -/

instance {ρ τ : Type} (s : State ρ τ) : (e : Ev ρ τ) → Decidable (RomContract s e)
  | .usb (.OUT _) | .rom _ => inferInstanceAs (Decidable (s.vcom.readQueued = true))
  | .usb .IN | .usb .OUT_NAK | .lineCode | .connection _ | .task _ | .receiveCall _ _
  | .reader _ | .sendCall _ _ _ | .sender _ | .store _ _ => isTrue trivial

instance {ρ τ : Type} : (e : Ev ρ τ) → Decidable (LongReads e)
  | .receiveCall _ length => inferInstanceAs (Decidable (receiveBufferSize ≤ length))
  | .usb _ | .rom _ | .lineCode | .connection _ | .task _
  | .reader _ | .sendCall _ _ _ | .sender _ | .store _ _ => isTrue trivial

instance (s : State Unit Unit) (e : Ev Unit Unit) : Decidable (ReceiveContract s e) :=
  inferInstanceAs (Decidable (_ ∧ _))

theorem received_prefix_twoBytes : ∃ s,
    run step (.init Unit Unit clearBuff) (twoBytes ++ [.reader ()]) = some s ∧
      s.rx.received = [65, 66] ∧ s.rx.received <+: s.rx.transfers.flatMap Transfer.bytes := by
  have hcontract : Along step ReceiveContract (.init Unit Unit clearBuff)
      (twoBytes ++ [.reader ()]) := by decide +kernel
  have hshort : ∀ e ∈ twoBytes ++ [.reader ()], ∀ data ∈ e.transfer?,
      data.bytes.length ≤ receiveBufferSize := by decide
  obtain ⟨s, hrun, hback⟩ := exists_of_run
    (P := fun s : State Unit Unit => s.rx.received = [65, 66])
    (show (run step (.init Unit Unit clearBuff) (twoBytes ++ [.reader ()])).any _ = true by
      decide +kernel)
  exact ⟨s, hrun, hback, received_prefix hrun hcontract fun e he data hdata =>
    Transfer.headRepeated_of_le (hshort e he data hdata)⟩

/-- A transfer of 65 different bytes. -/
def sixtyFive : Transfer := ⟨(List.range 65).map UInt8.ofNat, by decide⟩

/-- The loop reads the transfer in two turns, and a reader takes both buffers. -/
def longTransfer : List (Ev Unit Unit) :=
  [.usb .OUT_NAK, .usb (.OUT sixtyFive)] ++ List.replicate 16 (.task 0) ++
    [.receiveCall () 96, .reader (), .reader (), .reader (),
      .receiveCall () 96, .reader (), .reader (), .reader ()]

/-- The second buffer repeats the first one: 128 bytes are received of 65. -/
theorem longTransfer_repeats : ∃ s, run step (.init Unit Unit clearBuff) longTransfer = some s ∧
    Along step ReceiveContract (.init Unit Unit clearBuff) longTransfer ∧
      ¬ s.rx.received <+: s.rx.transfers.flatMap Transfer.bytes := by
  have hcontract : Along step ReceiveContract (.init Unit Unit clearBuff) longTransfer := by
    decide +kernel
  obtain ⟨s, hrun, hnot⟩ := exists_of_run
    (P := fun s : State Unit Unit => ¬ s.rx.received <+: s.rx.transfers.flatMap Transfer.bytes)
    (show (run step (.init Unit Unit clearBuff) longTransfer).any _ = true by decide +kernel)
  exact ⟨s, hrun, hcontract, hnot⟩

end Cdc

end Plotter
