import Plotter.Cdc

/-!
# Who has a receive buffer

Every receive buffer is in one place: in `AllocQueue`, in `ReceiveQueue`, in the local `rcv` of
`cdc_task` or in the local `rec` of a call of `USB_receive`. Each of the two queues has room
for all of them, so there is always room for one that is elsewhere: no send of a buffer fails
or blocks. The number of tasks does not matter, nor what the driver in the ROM does.

## Main definitions

* `Place`, `Receiving.holds`: the places, and the buffers in each.
* `Coherent`: the invariant of the receive path.
* `buffers_owned`: the ownership of the buffers in every run.
-/

namespace Plotter

open Lib

namespace Cdc

/-- Where a receive buffer can be. -/
inductive Place (ρ : Type)
  | alloc
  | receive
  | task
  | reader (r : ρ)
  deriving DecidableEq

/-- The local `rec` of a call of `USB_receive`. -/
def Reader.rec? : Reader → Option (SendItem (Fin receiveBuffers))
  | .copy rec _ => some rec
  | .back rec _ => some rec
  | _ => none

/-- The buffers in a place. -/
def Receiving.holds {ρ : Type} (rx : Receiving ρ) : Place ρ → List (Fin receiveBuffers)
  | .alloc => rx.AllocQueue.items.map SendItem.dptr
  | .receive => rx.ReceiveQueue.items.map SendItem.dptr
  | .task => rx.rcv.dptr.toList
  | .reader r => ((rx.readers r).rec?.map SendItem.dptr).toList

/-- Between the test of `rcv.dptr` and the send to `ReceiveQueue` the loop has a buffer; what
was read into it fits. -/
def CarryOk (dptr : Option (Fin receiveBuffers)) : Pc → Prop
  | .copy => dptr.isSome
  | .count n | .clear n => dptr.isSome ∧ n ≤ receiveBufferSize
  | .enqueue n => dptr.isSome ∧ 0 < n ∧ n ≤ receiveBufferSize
  | _ => True

/-- The invariant of the receive path. -/
structure Coherent {ρ : Type} (pc : Pc) (rx : Receiving ρ) : Prop where
  owned : Owned rx.holds
  lengths : ∀ item ∈ rx.ReceiveQueue.items, 1 ≤ item.dlen ∧ item.dlen ≤ receiveBufferSize
  carry : CarryOk rx.rcv.dptr pc

section Receiving
variable {ρ : Type} {rx rx' : Receiving ρ}

theorem mem_holds_task {pBuf : Fin receiveBuffers} (h : rx.rcv.dptr = some pBuf) :
    pBuf ∈ rx.holds .task := by
  rw [Receiving.holds, h]
  exact List.mem_singleton_self pBuf

theorem mem_holds_reader {r : ρ} {rec : SendItem (Fin receiveBuffers)}
    (h : (rx.readers r).rec? = some rec) : rec.dptr ∈ rx.holds (.reader r) := by
  rw [Receiving.holds, h]
  exact List.mem_singleton_self rec.dptr

/-- There is room in `ReceiveQueue` for a buffer that is elsewhere. -/
theorem exists_send_receive (h : Owned rx.holds) {pBuf : Fin receiveBuffers} {k : Place ρ}
    (hk : pBuf ∈ rx.holds k) (hne : k ≠ .receive) (n : ℕ) :
    ∃ q, rx.ReceiveQueue.send ⟨pBuf, n⟩ = some q := by
  have hroom := h.length_lt_card (h.not_mem_of_ne hk hne.symm)
  rw [Receiving.holds, List.length_map, Fintype.card_fin] at hroom
  exact Queue.exists_send_iff.mpr hroom

/-- There is room in `AllocQueue` for a buffer that is elsewhere. -/
theorem exists_send_alloc (h : Owned rx.holds) {rec : SendItem (Fin receiveBuffers)} {k : Place ρ}
    (hk : rec.dptr ∈ rx.holds k) (hne : k ≠ .alloc) : ∃ q, rx.AllocQueue.send rec = some q := by
  have hroom := h.length_lt_card (h.not_mem_of_ne hk hne.symm)
  rw [Receiving.holds, List.length_map, Fintype.card_fin] at hroom
  exact Queue.exists_send_iff.mpr hroom

theorem Coherent.init : Coherent .alloc (Receiving.init ρ) where
  owned := by
    have hall : (Receiving.init ρ).holds .alloc = List.finRange receiveBuffers := by
      rw [Receiving.holds, Receiving.init, List.map_map]
      exact List.map_id _
    have hnone : ∀ k, k ≠ .alloc → (Receiving.init ρ).holds k = [] := by
      intro k hk
      cases k with
      | alloc => exact absurd rfl hk
      | receive | task | reader r => rfl
    refine ⟨fun k => ?_, fun i k k' hk hk' => ?_, fun i => ⟨.alloc, ?_⟩⟩
    · by_cases hka : k = .alloc
      · rw [hka, hall]
        exact List.nodup_finRange _
      · rw [hnone k hka]
        exact List.nodup_nil
    · have honly : ∀ k, i ∈ (Receiving.init ρ).holds k → k = .alloc := by
        intro k hk
        by_contra hka
        rw [hnone k hka] at hk
        cases hk
      rw [honly k hk, honly k' hk']
    · rw [hall]
      exact List.mem_finRange i
  lengths := by
    intro item hitem
    cases hitem
  carry := trivial

/-- Behind a test the loop goes on with its buffer, or without one that it needs. -/
theorem Coherent.goTo {pc pc' : Pc} (h : Coherent pc rx) (hcarry : CarryOk rx.rcv.dptr pc') :
    Coherent pc' rx := ⟨h.owned, h.lengths, hcarry⟩

/-- A buffer from `AllocQueue` becomes the `rcv` of the loop. -/
theorem Coherent.alloc (h : Coherent .alloc rx) : Coherent .test rx.alloc := by
  rcases rx.alloc_cases with heq | ⟨bf, q, hnone, hitems, heq⟩
  · rw [heq]
    exact ⟨h.owned, h.lengths, trivial⟩
  · rw [heq]
    refine ⟨h.owned.move .alloc .task bf.dptr nofun ?_ ?_ ?_, h.lengths, trivial⟩
    · rw [Receiving.holds, hitems, List.map_cons]
      rfl
    · rw [Receiving.holds, Receiving.holds, hnone]
      rfl
    · intro k hsrc hdst
      cases k with
      | alloc => exact absurd rfl hsrc
      | task => exact absurd rfl hdst
      | receive | reader r => rfl

/-- The copy of `vcom_bread` hands on no buffer. -/
theorem Coherent.copy (h : Coherent .copy rx) {v : Vcom} {n : ℕ}
    (hcopy : rx.copy v = some (rx', n)) : Coherent (.count n) rx' := by
  obtain ⟨hn, pBuf, buf, -, -, rfl⟩ := Receiving.copy_cases hcopy
  refine ⟨h.owned, h.lengths, h.carry, ?_⟩
  omega

/-- `ReceiveQueue` has room for the buffer that was filled. -/
theorem Coherent.exists_send {n : ℕ} (h : Coherent (.enqueue n) rx) :
    ∃ pBuf q, rx.rcv.dptr = some pBuf ∧ rx.ReceiveQueue.send ⟨pBuf, n⟩ = some q := by
  obtain ⟨pBuf, hdptr⟩ := Option.isSome_iff_exists.mp h.carry.1
  obtain ⟨q, hsend⟩ := exists_send_receive h.owned (mem_holds_task hdptr) nofun n
  exact ⟨pBuf, q, hdptr, hsend⟩

/-- The buffer that was filled goes to `ReceiveQueue`. -/
theorem Coherent.enqueue {n : ℕ} (h : Coherent (.enqueue n) rx) :
    Coherent .write (rx.enqueue n) := by
  obtain ⟨-, hpos, hle⟩ := h.carry
  obtain ⟨pBuf, q, hdptr, hsend⟩ := h.exists_send
  obtain ⟨-, hitems⟩ := Queue.send_eq_some_iff.mp hsend
  rw [Receiving.enqueue_eq hdptr hsend]
  refine ⟨h.owned.move .task .receive pBuf nofun ?_ ?_ ?_, ?_, trivial⟩
  · rw [Receiving.holds, hdptr]
    rfl
  · rw [Receiving.holds, Receiving.holds, hitems, List.map_append]
    rfl
  · intro k hsrc hdst
    cases k with
    | task => exact absurd rfl hsrc
    | receive => exact absurd rfl hdst
    | alloc | reader r => rfl
  · intro item hitem
    rw [hitems, List.mem_append, List.mem_singleton] at hitem
    rcases hitem with hitem | rfl
    · exact h.lengths item hitem
    · exact ⟨hpos, hle⟩

/-- What `USB_receive` waits for when it gives a buffer back. -/
theorem Coherent.exists_back {pc : Pc} (h : Coherent pc rx) {r : ρ}
    {rec : SendItem (Fin receiveBuffers)} {data : List UInt8} (hr : rx.readers r = .back rec data) :
    ∃ q, rx.AllocQueue.send rec = some q := by
  exact exists_send_alloc h.owned (mem_holds_reader (r := r) (by rw [hr]; rfl)) nofun

variable [DecidableEq ρ]

/-- A reader that keeps its buffer. -/
theorem holds_update_of_rec? {r : ρ} {x : Reader} (h : x.rec? = (rx.readers r).rec?) (r' : ρ) :
    ((Function.update rx.readers r x r').rec?.map SendItem.dptr).toList =
      rx.holds (.reader r') := by
  by_cases hr : r' = r
  · rw [hr, Function.update_self, h]
    rfl
  · rw [Function.update_of_ne hr]
    rfl

/-- What another reader holds. -/
theorem holds_update_of_ne {r r' : ρ} (x : Reader) (h : Place.reader r' ≠ .reader r) :
    ((Function.update rx.readers r x r').rec?.map SendItem.dptr).toList =
      rx.holds (.reader r') := by
  rw [Function.update_of_ne fun hr => h (by rw [hr])]
  rfl

/-- A call of `USB_receive` hands on no buffer. -/
theorem Coherent.call {pc : Pc} (h : Coherent pc rx) {r : ρ} {length : ℕ}
    (hcall : rx.call r length = some rx') : Coherent pc rx' := by
  obtain ⟨hidle, rfl⟩ := Receiving.call_cases hcall
  refine ⟨h.owned.congr fun k => ?_, h.lengths, h.carry⟩
  cases k with
  | alloc | receive | task => rfl
  | reader r' => exact holds_update_of_rec? (by rw [hidle]; rfl) r'

theorem Coherent.goOn {pc : Pc} (h : Coherent pc rx) {r : ρ} (hgo : rx.goOn r = some rx') :
    Coherent pc rx' := by
  rcases Receiving.goOn_cases hgo with
    ⟨length, rec, q, hr, hitems, rfl⟩ | ⟨rec, length, hr, rfl⟩ | ⟨rec, data, q, hr, hq, rfl⟩
  · -- from `ReceiveQueue` to the reader
    refine ⟨h.owned.move .receive (.reader r) rec.dptr nofun ?_ ?_ ?_, ?_, h.carry⟩
    · rw [Receiving.holds, hitems, List.map_cons]
      rfl
    · change ((Function.update rx.readers r (.copy rec length) r).rec?.map SendItem.dptr).toList =
        rx.holds (.reader r) ++ [rec.dptr]
      rw [Function.update_self, Receiving.holds, hr]
      rfl
    · intro k hsrc hdst
      cases k with
      | receive => exact absurd rfl hsrc
      | alloc | task => rfl
      | reader r' => exact holds_update_of_ne _ hdst
    · intro item hitem
      exact h.lengths item (by rw [hitems]; exact List.mem_cons_of_mem rec hitem)
  · refine ⟨h.owned.congr fun k => ?_, h.lengths, h.carry⟩
    cases k with
    | alloc | receive | task => rfl
    | reader r' => exact holds_update_of_rec? (by rw [hr]; rfl) r'
  · -- from the reader to `AllocQueue`
    obtain ⟨-, hitems⟩ := Queue.send_eq_some_iff.mp hq
    refine ⟨h.owned.move (.reader r) .alloc rec.dptr nofun ?_ ?_ ?_, h.lengths, h.carry⟩
    · change rx.holds (.reader r) =
        rec.dptr :: ((Function.update rx.readers r .idle r).rec?.map SendItem.dptr).toList
      rw [Function.update_self, Receiving.holds, hr]
      rfl
    · rw [Receiving.holds, Receiving.holds, hitems, List.map_append]
      rfl
    · intro k hsrc hdst
      cases k with
      | alloc => exact absurd rfl hdst
      | receive | task => rfl
      | reader r' => exact holds_update_of_ne _ hsrc

end Receiving

section Run
variable {ρ τ : Type} {s s' : State ρ τ}

theorem Coherent.task {n : ℕ} (h : Coherent s.pc s.rx) (htask : s.task n = some s') :
    Coherent s'.pc s'.rx := by
  cases State.taskStep htask with
  | alloc => exact h.alloc
  | read hdptr => exact h.goTo hdptr
  | copy hcopy => exact h.copy hcopy
  | count => exact h.goTo h.carry
  | clear hpos => exact h.goTo ⟨h.carry.1, hpos, h.carry.2⟩
  | enqueue => exact h.enqueue
  | skip | clearNone | write | writeNone | writeSkip | setBusy | writeEP | advance | poll =>
      exact h.goTo trivial

variable [DecidableEq ρ] [DecidableEq τ]

/-- **Every step keeps the receive path coherent.** -/
theorem Coherent.step {e : Ev ρ τ} (h : Coherent s.pc s.rx) (hstep : step s e = some s') :
    Coherent s'.pc s'.rx := by
  cases e with
  | usb e | rom bytes | lineCode | connection flags =>
      rw [← Option.some_inj.mp hstep]
      exact ⟨h.owned, h.lengths, h.carry⟩
  | task n => exact h.task hstep
  | receiveCall r length =>
      obtain ⟨rx, hrx, rfl⟩ := Option.map_eq_some_iff.mp hstep
      exact h.call hrx
  | reader r =>
      obtain ⟨rx, hrx, rfl⟩ := Option.map_eq_some_iff.mp hstep
      exact h.goOn hrx
  | sendCall t data length | sender t | store t data =>
      obtain ⟨tx, -, rfl⟩ := Option.map_eq_some_iff.mp hstep
      exact h

theorem coherent_of_run {rx_buff : Buffer transferSize} {es : List (Ev ρ τ)}
    (hrun : run step (.init ρ τ rx_buff) es = some s) : Coherent s.pc s.rx :=
  run_induction_all (I := fun s => Coherent s.pc s.rx) (fun _ _ _ h hstep => h.step hstep)
    Coherent.init hrun

/-- A step writes to no receive buffer but the one that `cdc_task` has. -/
theorem g_rxBuff_of_step {e : Ev ρ τ} (hstep : step s e = some s') {pBuf : Fin receiveBuffers}
    (hfree : pBuf ∉ s.rx.holds .task) : s'.rx.g_rxBuff pBuf = s.rx.g_rxBuff pBuf := by
  cases e with
  | usb e =>
      rw [← Option.some_inj.mp hstep]
      rfl
  | rom bytes | lineCode | connection flags => rw [← Option.some_inj.mp hstep]
  | receiveCall r length =>
      obtain ⟨rx, hrx, rfl⟩ := Option.map_eq_some_iff.mp hstep
      obtain ⟨-, rfl⟩ := Receiving.call_cases hrx
      rfl
  | reader r =>
      obtain ⟨rx, hrx, rfl⟩ := Option.map_eq_some_iff.mp hstep
      rcases Receiving.goOn_cases hrx with
        ⟨_, _, _, -, -, rfl⟩ | ⟨_, _, -, rfl⟩ | ⟨_, _, _, -, -, rfl⟩ <;> rfl
  | sendCall t data length | sender t | store t data =>
      obtain ⟨tx, -, rfl⟩ := Option.map_eq_some_iff.mp hstep
      rfl
  | task n =>
      cases State.taskStep hstep with
      | alloc => rw [Receiving.alloc_frame _ |>.1]
      | copy hcopy =>
          obtain ⟨-, pBuf', buf, hdptr, -, rfl⟩ := Receiving.copy_cases hcopy
          have hne : pBuf ≠ pBuf' := by
            rintro rfl
            exact hfree (mem_holds_task hdptr)
          exact Function.update_of_ne hne ..
      | enqueue => rw [Receiving.enqueue_frame _ _ |>.1]
      | read | skip | count | clear | clearNone | write | writeNone | writeSkip | setBusy | writeEP
      | advance | poll => rfl

/-- **The buffers.** In every run each buffer is in one place, once; what waits in
`ReceiveQueue` is not empty and fits a buffer; the send to it without waiting succeeds; a
buffer that `cdc_task` does not have is not written; and a reader that gives its buffer back
does not wait. -/
theorem buffers_owned {rx_buff : Buffer transferSize} {es : List (Ev ρ τ)}
    (hrun : run step (.init ρ τ rx_buff) es = some s) :
    (∀ pBuf, ∃! k, pBuf ∈ s.rx.holds k) ∧ (∀ k, (s.rx.holds k).Nodup) ∧
    (∀ item ∈ s.rx.ReceiveQueue.items, 1 ≤ item.dlen ∧ item.dlen ≤ receiveBufferSize) ∧
    (∀ rdCnt, s.pc = .enqueue rdCnt → ∃ pBuf q, s.rx.rcv.dptr = some pBuf ∧
      s.rx.ReceiveQueue.send ⟨pBuf, rdCnt⟩ = some q) ∧
    (∀ k, k ≠ .task → ∀ pBuf ∈ s.rx.holds k, ∀ e s', step s e = some s' →
      s'.rx.g_rxBuff pBuf = s.rx.g_rxBuff pBuf) ∧
    (∀ r rec data, s.rx.readers r = .back rec data → ∃ s', step s (.reader r) = some s') := by
  have h := coherent_of_run hrun
  refine ⟨h.owned.existsUnique, h.owned.nodup, h.lengths, ?_, ?_, ?_⟩
  · intro rdCnt hpc
    rw [hpc] at h
    exact h.exists_send
  · intro k hk pBuf hmem e s' hstep
    exact g_rxBuff_of_step hstep (h.owned.not_mem_of_ne hmem hk.symm)
  · intro r rec data hr
    obtain ⟨q, hq⟩ := h.exists_back hr
    have hgo : ∃ rx, s.rx.goOn r = some rx := by
      simp only [Receiving.goOn, hr, hq]
      exact ⟨_, rfl⟩
    obtain ⟨rx, hrx⟩ := hgo
    exact ⟨_, Option.map_eq_some_iff.mpr ⟨rx, hrx, rfl⟩⟩

/-- A driver with nothing in `rx_buff`. -/
def clearBuff : Buffer transferSize := ⟨List.replicate transferSize 0, List.length_replicate⟩

/-- Two bytes arrive, and a reader has copied them. -/
def twoBytes : List (Ev Unit Unit) :=
  [.usb .OUT_NAK, .usb (.OUT ⟨[65, 66], by decide⟩), .task 0, .task 0, .task 0, .task 0, .task 0,
    .task 0, .receiveCall () 96, .reader (), .reader ()]

theorem buffers_owned_twoBytes : ∃ s, run step (.init Unit Unit clearBuff) twoBytes = some s ∧
    s.rx.readers () = .back ⟨0, 2⟩ [65, 66] ∧ ∃ s', step s (.reader ()) = some s' := by
  obtain ⟨s, hrun, hback⟩ := exists_of_run
    (P := fun s : State Unit Unit => s.rx.readers () = .back ⟨0, 2⟩ [65, 66])
    (show (run step (.init Unit Unit clearBuff) twoBytes).any _ = true by decide +kernel)
  exact ⟨s, hrun, hback, (buffers_owned hrun).2.2.2.2.2 () _ _ hback⟩

end Run

end Cdc

end Plotter
