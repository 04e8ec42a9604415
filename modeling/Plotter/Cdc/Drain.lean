import Plotter.Cdc.Chunks
import Plotter.Cdc.Release

/-!
# Nothing stays on the receive path

Whatever has happened before, `cdc_task` and the task in `USB_receive` can return every transfer
that was delivered: a buffer is always free when it is needed, a full one always gets
through, and nothing that the send path waits for is needed. Behind that the driver
reads the next transfer.

## Main definitions

* `Ev.receives`: the steps of the two tasks.
* `toFill`, `toReturn`: how many steps are left to the next filled buffer, and to the next
  return.
* `returns_everything`: the two tasks can return all that was delivered.
-/

namespace Plotter

open Lib

namespace Cdc

/-- A step of `cdc_task`, or of a task that calls `USB_receive` with room for a buffer. -/
def Ev.receives {ρ τ : Type} : Ev ρ τ → Prop
  | .task _ | .reader _ => True
  | .receiveCall _ length => receiveBufferSize ≤ length
  | _ => False

section Defs
variable {τ : Type}

/-- How many steps the loop needs at most until a buffer waits in `ReceiveQueue`, with something
to be read. -/
def toFill (s : State Unit τ) : ℕ :=
  match s.pc with
  | .enqueue _ => 1
  | .clear _ => 2
  | .count _ => 3
  | .copy => 4
  | .test => if s.rx.rcv.dptr.isSome then 5 else 12
  | .alloc => 6
  | .poll => 7
  | .advance _ => 8
  | .writeEP => 9
  | .setBusy => 10
  | .write => 11

/-- How many steps are needed at most until a call returns, with a chunk on its way. -/
def toReturn (s : State Unit τ) : ℕ :=
  match s.rx.readers () with
  | .back _ _ => 1
  | .copy _ _ => 2
  | .take _ => 3 + if s.rx.ReceiveQueue.items = [] then toFill s else 0
  | .idle => 4 + if s.rx.ReceiveQueue.items = [] then toFill s else 0

theorem toFill_le (s : State Unit τ) : toFill s ≤ 12 := by
  rw [toFill]
  split <;> try split
  all_goals omega

theorem toReturn_le (s : State Unit τ) : toReturn s ≤ 16 := by
  have hfill := toFill_le s
  rw [toReturn]
  split <;> try split
  all_goals omega

/-- The invariants of both paths. -/
structure Sound (s : State Unit τ) : Prop where
  coherent : Coherent s.pc s.rx
  intake : Intake s.pc s.vcom s.rx
  chunked : ∃ got, Chunked s got
  served : Served s.pc s.tx

end Defs

section Steps
variable {τ : Type} {s s' : State Unit τ}

/-! ## Towards a filled buffer -/

/-- With no buffer in `ReceiveQueue` or with a reader, the loop gets one if it has none. -/
theorem isSome_alloc {rx : Receiving Unit} {pc : Pc} (h : Coherent pc rx)
    (hitems : rx.ReceiveQueue.items = []) (hrec : (rx.readers ()).rec? = none) :
    rx.alloc.rcv.dptr.isSome := by
  rw [Receiving.alloc]
  cases hdptr : rx.rcv.dptr with
  | some pBuf => rw [hdptr]; rfl
  | none =>
      cases hreceive : rx.AllocQueue.receive with
      | some item => rfl
      | none =>
          -- the first buffer would be nowhere
          obtain ⟨k, hk⟩ := h.owned.somewhere 0
          cases k with
          | alloc => simp [Receiving.holds, Queue.receive_eq_none_iff.mp hreceive] at hk
          | receive => simp [Receiving.holds, hitems] at hk
          | task => simp [Receiving.holds, hdptr] at hk
          | reader r => simp [Receiving.holds, hrec] at hk

/-- With a chunk on its way that no reader has and that is not in `ReceiveQueue`, the loop has
it, or it is still to be read. -/
theorem carried_or_unread (hitems : s.rx.ReceiveQueue.items = [])
    (hrec : (s.rx.readers ()).rec? = none) (hne : chunksUnderway s.pc s.vcom s.rx ≠ []) :
    carriedChunk s.rx s.pc ≠ [] ∨ s.vcom.rx_count ≠ 0 := by
  by_contra hnone
  obtain ⟨hcarried, hzero⟩ := not_or.mp hnone
  apply hne
  have hreading : readingChunk s.rx = [] := by
    rw [readingChunk]
    cases hr : s.rx.readers () with
    | idle | take length => rfl
    | copy rec length | back rec data =>
        rw [hr] at hrec
        cases hrec
  rw [chunksUnderway, hreading, waitingChunks, hitems, not_not.mp hcarried,
    unreadChunks_of_count_eq_zero (not_not.mp hzero)]
  rfl

/-- **A step of the loop** fills a buffer, or brings it nearer to that. -/
theorem Sound.fill (h : Sound s) (hitems : s.rx.ReceiveQueue.items = [])
    (hrec : (s.rx.readers ()).rec? = none) (hne : chunksUnderway s.pc s.vcom s.rx ≠ []) :
    ∃ s', s.task 0 = some s' ∧ s'.rx.readers = s.rx.readers ∧
      (s'.rx.ReceiveQueue.items = [] → toFill s' < toFill s) := by
  have hfound := carried_or_unread hitems hrec hne
  have hcoh := h.coherent
  have hread := h.intake.read
  have hserved := h.served
  cases hpc : s.pc with
  | alloc =>
      rw [hpc] at hcoh
      refine ⟨{ s with rx := s.rx.alloc, pc := .test }, by simp only [State.task, hpc],
        s.rx.alloc_frame.2.1, fun _ => ?_⟩
      simp only [toFill, hpc, isSome_alloc hcoh hitems hrec, if_true]
      omega
  | test =>
      rw [hpc] at hfound
      have hcount : s.vcom.rx_count ≠ 0 := hfound.resolve_left fun hcarried => hcarried rfl
      by_cases hsome : s.rx.rcv.dptr.isSome
      · refine ⟨{ s with pc := .copy }, by simp only [State.task, hpc, hsome, hcount, if_pos, ne_eq,
          not_false_eq_true, and_self], rfl, fun _ => ?_⟩
        simp only [toFill, hpc, hsome, if_true]
        omega
      · refine ⟨{ s with pc := .write }, by simp only [State.task, hpc, hsome, Bool.false_eq_true,
          false_and, if_false], rfl, fun _ => ?_⟩
        simp only [toFill, hpc, hsome, Bool.false_eq_true, if_false]
        omega
  | copy =>
      rw [hpc] at hcoh
      obtain ⟨⟨rx, cnt⟩, hcopy⟩ := exists_copy hcoh s.vcom
      refine ⟨{ s with rx := rx, pc := .count cnt }, ?_, ?_, fun _ => ?_⟩
      · simp only [State.task, hpc, hcopy]
        rfl
      · obtain ⟨-, pBuf, buf, -, -, rfl⟩ := Receiving.copy_cases hcopy
        rfl
      · simp only [toFill, hpc]
        omega
  | count cnt =>
      refine ⟨{ s with vcom := s.vcom.count cnt, pc := .clear cnt }, by simp only [State.task, hpc],
        rfl, fun _ => ?_⟩
      simp only [toFill, hpc]
      omega
  | clear cnt =>
      rw [hpc] at hread
      obtain ⟨-, hpos, -⟩ := hread.clear h.intake.flags
      refine ⟨{ s with vcom := s.vcom.clear, pc := .enqueue cnt },
        by simp only [State.task, hpc, gt_iff_lt, hpos, if_true], rfl, fun _ => ?_⟩
      simp only [toFill, hpc]
      omega
  | enqueue cnt =>
      rw [hpc] at hcoh
      obtain ⟨pBuf, q, hdptr, hsend⟩ := hcoh.exists_send
      refine ⟨{ s with rx := s.rx.enqueue cnt, pc := .write }, by simp only [State.task, hpc],
        (s.rx.enqueue_frame cnt).2.1, fun hnil => ?_⟩
      rw [Receiving.enqueue_eq hdptr hsend] at hnil
      obtain ⟨-, hq⟩ := Queue.send_eq_some_iff.mp hsend
      simp [hq] at hnil
  | write =>
      refine ⟨{ s with
        pc := if s.tx.snd.dlen > 0 then if s.vcom.writable then .setBusy else .advance 0
          else .poll }, by simp only [State.task, hpc], rfl, fun _ => ?_⟩
      simp only [toFill, hpc]
      split_ifs <;> simp only <;> omega
  | setBusy =>
      refine ⟨{ s with vcom := s.vcom.setBusy, pc := .writeEP }, by simp only [State.task, hpc],
        rfl, fun _ => ?_⟩
      simp only [toFill, hpc]
      omega
  | writeEP =>
      have hwrite := hserved.write
      rw [hpc] at hwrite
      obtain ⟨t, n, offset, -, -, -, snd, -⟩ := hserved.stage.sending_of_pos hwrite
      obtain ⟨tx, htx⟩ : ∃ tx, s.tx.write 0 = some tx := by
        simp [Sending.write, Sending.offered, snd]
      refine ⟨{ s with tx := tx, pc := .advance 0 }, by simp [State.task, hpc, htx], rfl,
        fun _ => ?_⟩
      simp only [toFill, hpc]
      omega
  | advance sndCnt =>
      refine ⟨{ s with tx := s.tx.advance sndCnt, pc := .poll }, by simp only [State.task, hpc],
        rfl, fun _ => ?_⟩
      simp only [toFill, hpc]
      omega
  | poll =>
      refine ⟨{ s with tx := s.tx.poll, pc := .alloc }, by simp only [State.task, hpc], rfl,
        fun _ => ?_⟩
      simp only [toFill, hpc]
      omega

/-! ## Towards a return -/

theorem Ev.receives.contract {e : Ev Unit τ} (he : e.receives) (s : State Unit τ) :
    ReceiveContract s e := by
  cases e with
  | task n | reader r => exact ⟨trivial, trivial⟩
  | receiveCall r length => exact ⟨trivial, he⟩
  | usb | rom | lineCode | connection | sendCall | sender | store => exact absurd he id

theorem Ev.receives.transfer? {e : Ev Unit τ} (he : e.receives) : e.transfer? = none := by
  cases e with
  | task n | reader r | receiveCall r length => rfl
  | usb | rom | lineCode | connection | sendCall | sender | store => exact absurd he id

variable [DecidableEq τ]

/-- What a step of the two tasks returns is the oldest chunk on its way. -/
theorem Sound.step {e : Ev Unit τ} (h : Sound s) (hstep : Cdc.step s e = some s')
    (he : e.receives) : Sound s' ∧ s'.rx.transfers = s.rx.transfers ∧
      chunksUnderway s.pc s.vcom s.rx = returned s e ++ chunksUnderway s'.pc s'.vcom s'.rx := by
  obtain ⟨got, hgot⟩ := h.chunked
  obtain ⟨hrom, hlong⟩ := he.contract s
  have hgot' := hgot.step h.coherent h.intake hrom hstep
  have htransfers : s'.rx.transfers = s.rx.transfers := by
    rw [transfers_of_step hstep, he.transfer?]
    exact List.append_nil _
  refine ⟨⟨h.coherent.step hstep, h.intake.step h.coherent hrom hlong hstep, ⟨_, hgot'⟩,
    h.served.step hstep⟩, htransfers, ?_⟩
  rw [Chunked, htransfers, ← hgot, List.append_assoc] at hgot'
  exact (List.append_cancel_left hgot').symm

/-- The chunks on their way, and the steps to the next return. -/
def toDrain (s : State Unit τ) : ℕ :=
  20 * (chunksUnderway s.pc s.vcom s.rx).length + toReturn s

/-- A step that returns nothing and comes nearer to the next return. -/
theorem Sound.of_nearer {e : Ev Unit τ} (h : Sound s) (hstep : Cdc.step s e = some s')
    (he : e.receives) (hnone : returned s e = []) (hlt : toReturn s' < toReturn s) :
    ∃ e s', e.receives ∧ Cdc.step s e = some s' ∧
      (Sound s' ∧ s'.rx.transfers = s.rx.transfers) ∧ toDrain s' < toDrain s := by
  obtain ⟨hsound, htransfers, hunderway⟩ := h.step hstep he
  refine ⟨e, s', he, hstep, ⟨hsound, htransfers⟩, ?_⟩
  rw [toDrain, toDrain, hunderway, hnone, List.nil_append]
  omega

omit [DecidableEq τ] in
/-- A reader waits for a buffer: the loop comes nearer to one. -/
theorem Sound.wait (h : Sound s) (hne : chunksUnderway s.pc s.vcom s.rx ≠ []) {length : ℕ}
    (hr : s.rx.readers () = .take length) (hitems : s.rx.ReceiveQueue.items = []) :
    ∃ s', s.task 0 = some s' ∧ toReturn s' < toReturn s := by
  obtain ⟨s', htask, hreaders, hlt⟩ := h.fill hitems (by rw [hr]; rfl) hne
  refine ⟨s', htask, ?_⟩
  simp only [toReturn, hreaders, hr, hitems, if_true]
  split_ifs with hnil
  · have := hlt hnil
    omega
  · have : 0 < toFill s := by
      rw [toFill]
      split <;> try split
      all_goals omega
    omega

/-- A call is nearer to its return. -/
theorem call_nearer (hr : s.rx.readers () = .idle) (length : ℕ) :
    ∃ s', Cdc.step s (.receiveCall () length) = some s' ∧ toReturn s' < toReturn s := by
  have hcall : s.rx.call () length = some { s.rx with
      readers := Function.update s.rx.readers () (.take length) } := by
    rw [Receiving.call, hr]
  refine ⟨_, by rw [Cdc.step, hcall]; rfl, ?_⟩
  simp only [toReturn, hr, Function.update_self]
  exact Nat.add_lt_add_right (Nat.lt_succ_self 3) _

/-- A call that does not return yet is nearer to it, by itself or by the loop. -/
theorem Sound.read_nearer (h : Sound s) (hne : chunksUnderway s.pc s.vcom s.rx ≠ [])
    (hidle : s.rx.readers () ≠ .idle) (hback : ∀ rec data, s.rx.readers () ≠ .back rec data) :
    ∃ e s', (e = .task 0 ∨ e = .reader ()) ∧ Cdc.step s e = some s' ∧ returned s e = [] ∧
      toReturn s' < toReturn s := by
  cases hr : s.rx.readers () with
  | idle => exact absurd hr hidle
  | back rec data => exact absurd hr (hback rec data)
  | take length =>
      by_cases hitems : s.rx.ReceiveQueue.items = []
      · obtain ⟨s', htask, hlt⟩ := h.wait hne hr hitems
        exact ⟨.task 0, s', .inl rfl, htask, rfl, hlt⟩
      · cases hreceive : s.rx.ReceiveQueue.receive with
        | none => exact absurd (Queue.receive_eq_none_iff.mp hreceive) hitems
        | some item =>
            have hstep : Cdc.step s (.reader ()) = some { s with
                rx.ReceiveQueue := item.2
                rx.readers := Function.update s.rx.readers () (.copy item.1 length) } := by
              simp [Cdc.step, Receiving.goOn, hr, hreceive]
            refine ⟨.reader (), _, .inr rfl, hstep, by rw [returned, hr], ?_⟩
            simp only [toReturn, hr, Function.update_self, hitems, if_false]
            omega
  | copy rec length =>
      have hstep : Cdc.step s (.reader ()) = some { s with
          rx.readers := Function.update s.rx.readers ()
            (.back rec ((s.rx.g_rxBuff rec.dptr).bytes.take
              (if rec.dlen > length then length else rec.dlen))) } := by
        simp [Cdc.step, Receiving.goOn, hr]
      refine ⟨.reader (), _, .inr rfl, hstep, by rw [returned, hr], ?_⟩
      simp only [toReturn, hr, Function.update_self]
      omega

/-- **A step** of one of the two tasks returns the oldest chunk, or comes nearer to that. -/
theorem Sound.decreases (h : Sound s) (hne : chunksUnderway s.pc s.vcom s.rx ≠ []) :
    ∃ e s', Ev.receives e ∧ Cdc.step s e = some s' ∧
      (Sound s' ∧ s'.rx.transfers = s.rx.transfers) ∧ toDrain s' < toDrain s := by
  by_cases hidle : s.rx.readers () = .idle
  · obtain ⟨s', hstep, hlt⟩ := call_nearer hidle receiveBufferSize
    exact h.of_nearer hstep (le_refl receiveBufferSize) rfl hlt
  by_cases hback : ∀ rec data, s.rx.readers () ≠ .back rec data
  · obtain ⟨e, s', he, hstep, hnone, hlt⟩ := h.read_nearer hne hidle hback
    refine h.of_nearer hstep ?_ hnone hlt
    rcases he with rfl | rfl
    · trivial
    · trivial
  · simp only [not_forall, not_not] at hback
    obtain ⟨rec, data, hr⟩ := hback
    obtain ⟨q, hq⟩ := h.coherent.exists_back hr
    have hstep : Cdc.step s (.reader ()) = some { s with
        rx.AllocQueue := q
        rx.readers := Function.update s.rx.readers () .idle
        rx.received := s.rx.received ++ data } := by
      simp [Cdc.step, Receiving.goOn, hr, hq]
    obtain ⟨hsound, htransfers, hunderway⟩ := h.step hstep trivial
    refine ⟨.reader (), _, trivial, hstep, ⟨hsound, htransfers⟩, ?_⟩
    have hle := toReturn_le { s with
      rx.AllocQueue := q
      rx.readers := Function.update s.rx.readers () .idle
      rx.received := s.rx.received ++ data }
    rw [toDrain, toDrain, hunderway, returned, hr, List.singleton_append, List.length_cons]
    omega

/-! ## Whole runs -/

omit [DecidableEq τ] in
/-- With nothing on its way there is nothing in `rx_buff`, and the next read is queued when the
host has a transfer. -/
theorem Sound.readQueued (h : Sound s) (hnil : chunksUnderway s.pc s.vcom s.rx = []) :
    (s.vcom.handle .OUT_NAK).readQueued = true := by
  rw [chunksUnderway, List.append_eq_nil_iff, List.append_eq_nil_iff, List.append_eq_nil_iff] at hnil
  obtain ⟨-, -, hcarried, hunread⟩ := hnil
  have hzero : s.vcom.rx_count = 0 := by
    have hread := h.intake.read
    have hcarry := h.coherent.carry
    rw [unreadChunks, Vcom.chunksLeft, List.replicate_eq_nil_iff, pieces] at hunread
    cases hpc : s.pc with
    | count cnt | clear cnt | enqueue cnt =>
        -- the loop has a buffer, so it carries a chunk
        rw [hpc] at hcarried hcarry
        obtain ⟨pBuf, hdptr⟩ := Option.isSome_iff_exists.mp hcarry.1
        rw [carriedChunk, hdptr] at hcarried
        cases hcarried
    | alloc | test | write | setBusy | writeEP | advance | poll =>
        rw [hpc] at hunread hread
        obtain ⟨-, hrd⟩ := hread
        simp only [Pc.uncounted] at hunread
        omega
    | copy =>
        rw [hpc] at hunread hread
        obtain ⟨hcount, -, hrd⟩ := hread
        simp only [Pc.uncounted] at hunread
        omega
  have hfull : s.vcom.rx_flags.BUF_FULL = false := by
    rw [h.intake.flags.full, hzero]
    rfl
  rw [Vcom.handle, VCOM_bulk_out_hdlr]
  split_ifs with hfree
  · rfl
  · rw [← h.intake.flags.queued]
    simpa [hfull] using hfree

end Steps

end Cdc

end Plotter
