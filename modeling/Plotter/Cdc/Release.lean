import Plotter.Cdc.Buffers
import Plotter.Cdc.Send

/-!
# No abandoned sender

`cdc_task` takes `snd.dlen` both for what is left of a request and for the sign that it has
none. A request of no bytes that it takes from `SendQueue` is gone at once, without a
token for its caller, who keeps `SendMutex` for ever. Any other request is in the queue, in `snd`
or finished, and its caller can always be released.

## Main definitions

* `InCustody`: the request of a task is in the queue, in `snd`, or its token has been given.
* `Releasable`: the system can go on to where the caller has returned.
* `sender_not_abandoned`: what holds as long as no request is empty.
-/

namespace Plotter

open Lib

namespace Cdc

/-- The length that an event passes to `USB_send`. -/
def Ev.sendLength? {ρ τ : Type} : Ev ρ τ → Option ℕ
  | .sendCall _ _ length => some length
  | _ => none

/-- The length of the request of a task in `USB_send`. -/
def Sender.length? : Sender → Option ℕ
  | .idle => none
  | .take n | .queue n | .wake n | .wait n | .give n => some n

/-- Something is left that will release the task. -/
def InCustody {τ : Type} (tx : Sending τ) (t : τ) : Prop :=
  t ∈ tx.SendQueue.items.map (fun item => item.dptr.caller) ∨
    (0 < tx.snd.dlen ∧ tx.snd.dptr.map Pointer.caller = some t) ∨ tx.SendComplete = true

/-- No request is empty. -/
def NonEmpty {τ : Type} (tx : Sending τ) : Prop :=
  ∀ t, ∀ n ∈ (tx.senders t).length?, 0 < n

section Custody
variable {τ : Type} {tx tx' : Sending τ} {pc : Pc} {t : τ}

/-- **A request that is not empty is somewhere.** -/
theorem Stage.inCustody (h : Stage pc tx) (hmutex : tx.SendMutex = some t) {n : ℕ}
    (hwaits : (tx.senders t).Waits n) (hpos : 0 < n) : InCustody tx t := by
  rcases h.of_mutex hmutex with ⟨m, -, sender, -⟩ | ⟨m, sender, hwhere⟩ | ⟨m, -, sender, -⟩
  · rw [sender] at hwaits
    cases hwaits
  · obtain rfl := sender.unique hwaits
    rcases hwhere with ⟨queue, -⟩ | ⟨offset, lt, snd, -⟩ | ⟨-, -, -, complete⟩
    · left
      rw [queue]
      exact List.mem_singleton_self t
    · right
      left
      rw [snd]
      exact ⟨Nat.sub_pos_of_lt lt, rfl⟩
    · right
      right
      exact complete.resolve_right hpos.ne'
  · rw [sender] at hwaits
    cases hwaits

variable [DecidableEq τ]

/-- A task that changes its place keeps the length of its request. -/
theorem NonEmpty.update (h : NonEmpty tx) {x : Sender}
    (hsenders : tx'.senders = Function.update tx.senders t x) (hx : ∀ n ∈ x.length?, 0 < n) :
    NonEmpty tx' := by
  intro t' n hn
  rw [hsenders] at hn
  by_cases heq : t' = t
  · rw [heq, Function.update_self] at hn
    exact hx n hn
  · rw [Function.update_of_ne heq] at hn
    exact h t' n hn

theorem NonEmpty.goOn (h : NonEmpty tx) (hgo : tx.goOn t = some tx') : NonEmpty tx' := by
  have hold : ∀ {x : Sender}, x.length? = (tx.senders t).length? → ∀ n ∈ x.length?, 0 < n := by
    intro x heq
    rw [heq]
    exact h t
  rcases Sending.goOn_cases hgo with ⟨length, hs, -, rfl⟩ | ⟨length, q, hs, -, rfl⟩ |
    ⟨length, hs, rfl⟩ | ⟨length, hs, -, rfl⟩ | ⟨length, hs, rfl⟩
  · exact h.update rfl (hold (by rw [hs]; rfl))
  · exact h.update rfl (hold (by rw [hs]; rfl))
  · exact h.update rfl (hold (by rw [hs]; rfl))
  · exact h.update rfl (hold (by rw [hs]; rfl))
  · exact h.update rfl nofun

end Custody

section Run
variable {ρ τ : Type} [DecidableEq ρ] [DecidableEq τ] {s s' : State ρ τ}

/-- Calls with a length keep every request from being empty. -/
theorem NonEmpty.step {e : Ev ρ τ} (h : NonEmpty s.tx) (he : ∀ n ∈ e.sendLength?, 0 < n)
    (hstep : step s e = some s') : NonEmpty s'.tx := by
  cases e with
  | usb e | lineCode | rom bytes | connection flags =>
      rw [← Option.some_inj.mp hstep]
      exact h
  | task n =>
      intro t
      rw [(task_senders hstep).1]
      exact h t
  | receiveCall r length | reader r =>
      obtain ⟨rx, -, rfl⟩ := Option.map_eq_some_iff.mp hstep
      exact h
  | sendCall t data length =>
      obtain ⟨tx, htx, rfl⟩ := Option.map_eq_some_iff.mp hstep
      obtain ⟨-, -, rfl⟩ := Sending.call_cases htx
      exact h.update rfl he
  | sender t =>
      obtain ⟨tx, htx, rfl⟩ := Option.map_eq_some_iff.mp hstep
      exact h.goOn htx
  | store t data =>
      obtain ⟨tx, htx, rfl⟩ := Option.map_eq_some_iff.mp hstep
      obtain ⟨-, rfl⟩ := Sending.store_cases htx
      exact h

theorem nonEmpty_of_run {rx_buff : Buffer transferSize} {es : List (Ev ρ τ)}
    (hrun : run Cdc.step (.init ρ τ rx_buff) es = some s)
    (hes : ∀ e ∈ es, ∀ n ∈ e.sendLength?, 0 < n) : NonEmpty s.tx :=
  run_induction (I := fun s => NonEmpty s.tx) (fun _ _ _ h he hstep => h.step he hstep)
    (by intro t n hn; cases hn) (along_of_forall_mem hes) hrun

/-! ## The way to the return -/

/-- The system can go on to where `t` has returned from `USB_send` and the mutex is free. -/
def Releasable (s : State ρ τ) (t : τ) : Prop :=
  ∃ es s', run Cdc.step s es = some s' ∧ s'.tx.senders t = .idle ∧ s'.tx.SendMutex = none

theorem Releasable.of_step {e : Ev ρ τ} {t : τ} (hstep : Cdc.step s e = some s')
    (h : Releasable s' t) : Releasable s t := by
  obtain ⟨es, u, hrun, hu⟩ := h
  exact ⟨e :: es, u, run_cons_eq_some.mpr ⟨s', hstep, hrun⟩, hu⟩

theorem releasable_of_give {t : τ} {n : ℕ} (hs : s.tx.senders t = .give n) : Releasable s t := by
  have hstep : Cdc.step s (.sender t) = some { s with
      tx.SendMutex := none
      tx.senders := Function.update s.tx.senders t .idle } := by
    simp [Cdc.step, Sending.goOn, hs]
  exact .of_step hstep ⟨[], _, rfl, Function.update_self .., rfl⟩

theorem releasable_of_wait {t : τ} {n : ℕ} (hs : s.tx.senders t = .wait n)
    (htoken : s.tx.SendComplete = true) : Releasable s t := by
  have hstep : Cdc.step s (.sender t) = some { s with
      tx.SendComplete := false
      tx.senders := Function.update s.tx.senders t (.give n) } := by
    simp [Cdc.step, Sending.goOn, hs, htoken]
  exact .of_step hstep (releasable_of_give (Function.update_self ..))

/-- A caller whose token has been given takes it and returns. -/
theorem releasable_of_token {t : τ} {n : ℕ} (hwaits : (s.tx.senders t).Waits n)
    (htoken : s.tx.SendComplete = true) : Releasable s t := by
  cases hs : s.tx.senders t with
  | wait m => exact releasable_of_wait hs htoken
  | wake m =>
      have hstep : Cdc.step s (.sender t) = some { s with
          tx.xCDCEventSemaphore := true
          tx.senders := Function.update s.tx.senders t (.wait m) } := by
        simp [Cdc.step, Sending.goOn, hs]
      exact .of_step hstep (releasable_of_wait (Function.update_self ..) htoken)
  | idle | take m | queue m | give m =>
      rw [hs] at hwaits
      cases hwaits

/-- The invariants, and a caller that waits for a request that is not empty. -/
structure Underway (s : State ρ τ) (t : τ) (n : ℕ) : Prop where
  coherent : Coherent s.pc s.rx
  served : Served s.pc s.tx
  waits : (s.tx.senders t).Waits n
  pos : 0 < n

namespace Underway
variable {t : τ} {n : ℕ}

omit [DecidableEq ρ] [DecidableEq τ] in
theorem task (h : Underway s t n) {k : ℕ} (htask : s.task k = some s') : Underway s' t n :=
  ⟨h.coherent.task htask, h.served.task htask, by rw [(task_senders htask).1]; exact h.waits, h.pos⟩

omit [DecidableEq ρ] [DecidableEq τ] in
/-- Behind `WriteEP` the loop gives the token if nothing is left. -/
theorem advance (h : Underway s t n) {k : ℕ} (hpc : s.pc = .advance k) :
    ∃ s', s.task 0 = some s' ∧ Underway s' t n ∧ s'.pc = .poll ∧
      s'.tx.snd.dlen = s.tx.snd.dlen - k ∧
      (s'.tx.snd.dlen = 0 → s'.tx.SendComplete = true) := by
  have htask : s.task 0 = some { s with tx := s.tx.advance k, pc := .poll } := by
    simp [State.task, hpc]
  refine ⟨_, htask, h.task htask, rfl, ?_⟩
  simp only [Sending.advance]
  split_ifs with hend
  · exact ⟨rfl, fun _ => rfl⟩
  · exact ⟨rfl, fun hzero => absurd hzero hend⟩

/-- From the critical section of `vcom_write`, with all that is left accepted. -/
theorem releasable_of_writeEP (h : Underway s t n) (hpc : s.pc = .writeEP) : Releasable s t := by
  have hwrite := h.served.write
  rw [hpc] at hwrite
  obtain ⟨t', m, offset, -, -, -, snd, -⟩ := h.served.stage.sending_of_pos hwrite
  obtain ⟨tx, htx⟩ : ∃ tx, s.tx.write s.tx.snd.dlen = some tx := by
    simp [Sending.write, Sending.offered, snd]
  have hdlen : tx.snd.dlen = s.tx.snd.dlen := by
    obtain ⟨p, -, -, rfl⟩ := Sending.write_cases htx
    rfl
  have htask : s.task s.tx.snd.dlen =
      some { s with tx := tx, pc := .advance s.tx.snd.dlen } := by
    simp [State.task, hpc, htx]
  have hs₁ := h.task htask
  obtain ⟨s₂, hadvance, hs₂, -, hleft, htoken⟩ := hs₁.advance rfl
  have hzero : s₂.tx.snd.dlen = 0 := by
    rw [hleft]
    change tx.snd.dlen - s.tx.snd.dlen = 0
    omega
  have hstep : Cdc.step s (.task s.tx.snd.dlen) = _ := htask
  exact .of_step hstep (.of_step (e := .task 0) hadvance (releasable_of_token hs₂.waits
    (htoken hzero)))

theorem releasable_of_setBusy (h : Underway s t n) (hpc : s.pc = .setBusy) : Releasable s t := by
  have htask : s.task 0 = some { s with vcom := s.vcom.setBusy, pc := .writeEP } := by
    simp [State.task, hpc]
  exact .of_step (e := .task 0) htask ((h.task htask).releasable_of_writeEP rfl)

/-- From the test of the flags, with a connection that is not busy. -/
theorem releasable_of_write (h : Underway s t n) (hpc : s.pc = .write) (hdlen : 0 < s.tx.snd.dlen) :
    Releasable s t := by
  have hconnect : Cdc.step s (.connection ⟨true, false⟩) =
      some { s with vcom.tx_flags := ⟨true, false⟩ } := rfl
  have hs₁ : Underway { s with vcom.tx_flags := ⟨true, false⟩ } t n :=
    ⟨h.coherent, h.served, h.waits, h.pos⟩
  have htask : State.task { s with vcom.tx_flags := ⟨true, false⟩ } 0 =
      some { s with vcom.tx_flags := ⟨true, false⟩, pc := .setBusy } := by
    simp [State.task, hpc, hdlen, Vcom.writable]
  exact .of_step hconnect (.of_step (e := .task 0) htask
    ((hs₁.task htask).releasable_of_setBusy rfl))

end Underway

/-! ### The receive part of the loop -/

/-- How many steps the loop needs at most to `vcom_write`. -/
def Pc.toWrite : Pc → Option ℕ
  | .alloc => some 6
  | .test => some 5
  | .copy => some 4
  | .count _ => some 3
  | .clear _ => some 2
  | .enqueue _ => some 1
  | .write => some 0
  | _ => none

omit [DecidableEq ρ] in
/-- The copy of `vcom_bread` fits. -/
theorem exists_copy {rx : Receiving ρ} (h : Coherent .copy rx) (v : Vcom) :
    ∃ r, rx.copy v = some r := by
  obtain ⟨pBuf, hdptr⟩ := Option.isSome_iff_exists.mp h.carry
  have hfits : (v.rx_buff.bytes.take (v.cnt receiveBufferSize)).length ≤ receiveBufferSize := by
    rw [List.length_take, Vcom.cnt_eq_min]
    omega
  obtain ⟨buf, hbuf⟩ : ∃ buf, (rx.g_rxBuff pBuf).memcpy
      (v.rx_buff.bytes.take (v.cnt receiveBufferSize)) = some buf := ⟨_, dif_pos hfits⟩
  refine ⟨({ rx with g_rxBuff := Function.update rx.g_rxBuff pBuf buf }, v.cnt receiveBufferSize), ?_⟩
  simp only [Receiving.copy, hdptr, Option.bind_eq_bind, Option.bind_some, hbuf]
  rfl

omit [DecidableEq ρ] [DecidableEq τ] in
/-- A step brings the loop nearer to `vcom_write`, without touching the send path. -/
theorem task_toWrite (h : Coherent s.pc s.rx) {m : ℕ} (hm : s.pc.toWrite = some (m + 1)) :
    ∃ s' k, s.task 0 = some s' ∧ s'.tx = s.tx ∧ s'.pc.toWrite = some k ∧ k ≤ m := by
  cases hpc : s.pc with
  | alloc =>
      simp only [hpc, Pc.toWrite, Option.some.injEq] at hm
      exact ⟨{ s with rx := s.rx.alloc, pc := .test }, 5, by simp only [State.task, hpc], rfl, rfl,
        by omega⟩
  | test =>
      simp only [hpc, Pc.toWrite, Option.some.injEq] at hm
      by_cases hcopy : s.rx.rcv.dptr.isSome ∧ s.vcom.rx_count ≠ 0
      · exact ⟨{ s with pc := .copy }, 4, by simp only [State.task, hpc, if_pos hcopy], rfl, rfl,
          by omega⟩
      · exact ⟨{ s with pc := .write }, 0, by simp only [State.task, hpc, if_neg hcopy], rfl, rfl,
          by omega⟩
  | copy =>
      simp only [hpc, Pc.toWrite, Option.some.injEq] at hm
      rw [hpc] at h
      obtain ⟨⟨rx, cnt⟩, hcopy⟩ := exists_copy h s.vcom
      refine ⟨{ s with rx := rx, pc := .count cnt }, 3, ?_, rfl, rfl, by omega⟩
      simp only [State.task, hpc, hcopy]
      rfl
  | count cnt =>
      simp only [hpc, Pc.toWrite, Option.some.injEq] at hm
      exact ⟨{ s with vcom := s.vcom.count cnt, pc := .clear cnt }, 2, by simp only [State.task, hpc],
        rfl, rfl, by omega⟩
  | clear cnt =>
      simp only [hpc, Pc.toWrite, Option.some.injEq] at hm
      by_cases hpos : cnt > 0
      · exact ⟨{ s with vcom := s.vcom.clear, pc := .enqueue cnt }, 1,
          by simp only [State.task, hpc, if_pos hpos], rfl, rfl, by omega⟩
      · exact ⟨{ s with vcom := s.vcom.clear, pc := .write }, 0,
          by simp only [State.task, hpc, if_neg hpos], rfl, rfl, by omega⟩
  | enqueue cnt =>
      exact ⟨{ s with rx := s.rx.enqueue cnt, pc := .write }, 0, by simp only [State.task, hpc], rfl,
        rfl, Nat.zero_le m⟩
  | write | setBusy | writeEP | advance | poll =>
      rw [hpc] at hm
      cases hm

namespace Underway
variable {t : τ} {n : ℕ}

/-- **The receive part does not hold up a sender**: what can be released at `vcom_write` can be
released before it. -/
theorem releasable_of_toWrite (h : Underway s t n) {m : ℕ} (hm : s.pc.toWrite = some m)
    (hwrite : ∀ s' : State ρ τ, Underway s' t n → s'.pc = .write → s'.tx = s.tx →
      Releasable s' t) : Releasable s t := by
  induction m using Nat.strongRecOn generalizing s with
  | ind m ih =>
      cases m with
      | zero =>
          have hpc : s.pc = .write := by
            cases hpc : s.pc with
            | write => rfl
            | alloc | test | copy | count | clear | enqueue | setBusy | writeEP | advance | poll =>
                rw [hpc] at hm
                cases hm
          exact hwrite s h hpc rfl
      | succ m =>
          obtain ⟨s', k, htask, htx, hk, hle⟩ := task_toWrite h.coherent hm
          exact .of_step (e := .task 0) htask (ih k (by omega) (h.task htask) hk
            fun u hu hpc heq => hwrite u hu hpc (heq.trans htx))

/-- With something in `snd`, from the receive part of the loop. -/
theorem releasable_of_receive (h : Underway s t n) {m : ℕ} (hm : s.pc.toWrite = some m)
    (hdlen : 0 < s.tx.snd.dlen) : Releasable s t := by
  apply h.releasable_of_toWrite hm
  intro s' hs' hpc htx
  exact hs'.releasable_of_write hpc (by rw [htx]; exact hdlen)

/-- With something in `snd`, which the poll leaves there. -/
theorem releasable_of_poll_dlen (h : Underway s t n) (hpc : s.pc = .poll)
    (hdlen : 0 < s.tx.snd.dlen) : Releasable s t := by
  have htask : s.task 0 = some { s with tx := s.tx.poll, pc := .alloc } := by
    simp only [State.task, hpc]
  have hsame : s.tx.poll = s.tx := if_neg hdlen.ne'
  refine .of_step (e := .task 0) htask ((h.task htask).releasable_of_receive (m := 6) rfl ?_)
  simpa only [hsame] using hdlen

/-- With something in `snd`, from anywhere in the loop. -/
theorem releasable_of_dlen (h : Underway s t n) (hdlen : 0 < s.tx.snd.dlen) : Releasable s t := by
  cases hpc : s.pc with
  | alloc | test | copy | count cnt | clear cnt | enqueue cnt | write =>
      exact h.releasable_of_receive (by rw [hpc]; rfl) hdlen
  | setBusy => exact h.releasable_of_setBusy hpc
  | writeEP => exact h.releasable_of_writeEP hpc
  | poll => exact h.releasable_of_poll_dlen hpc hdlen
  | advance k =>
      obtain ⟨s₁, htask, hs₁, hpc₁, -, htoken⟩ := h.advance hpc
      refine .of_step (e := .task 0) htask ?_
      rcases Nat.eq_zero_or_pos s₁.tx.snd.dlen with hzero | hpos
      · exact releasable_of_token hs₁.waits (htoken hzero)
      · exact hs₁.releasable_of_poll_dlen hpc₁ hpos

/-- With the request in the queue, where the poll takes it: it is not empty. -/
theorem releasable_of_poll_queue (h : Underway s t n) (hpc : s.pc = .poll)
    (hqueue : s.tx.SendQueue.items ≠ []) : Releasable s t := by
  have htask : s.task 0 = some { s with tx := s.tx.poll, pc := .alloc } := by
    simp only [State.task, hpc]
  refine .of_step (e := .task 0) htask ((h.task htask).releasable_of_dlen ?_)
  obtain ⟨item, rest, hitems⟩ := List.exists_cons_of_ne_nil hqueue
  obtain ⟨t', m, serving, sender, hitem, -, hzero, -⟩ := h.served.stage.queued_of_items hitems
  rcases s.tx.poll_cases with ⟨-, hpos | hnil⟩ | ⟨send, q, -, hsend, heq⟩
  · exact absurd hzero hpos.ne'
  · exact absurd hnil hqueue
  · obtain rfl := serving.eq_of_mutex (h.served.holder t h.waits.holds)
    obtain ⟨rfl, -⟩ := List.cons_eq_cons.mp (hitems.symm.trans hsend)
    have hm := sender.unique h.waits
    simp only [heq, hitem, hm]
    exact h.pos

/-- With the request in the queue, from anywhere in the loop. -/
theorem releasable_of_queue (h : Underway s t n) (hqueue : s.tx.SendQueue.items ≠ []) :
    Releasable s t := by
  obtain ⟨item, rest, hitems⟩ := List.exists_cons_of_ne_nil hqueue
  obtain ⟨-, -, -, -, -, -, hzero, -⟩ := h.served.stage.queued_of_items hitems
  have hwrite := h.served.write
  cases hpc : s.pc with
  | alloc | test | copy | count cnt | clear cnt | enqueue cnt | write =>
      apply h.releasable_of_toWrite (by rw [hpc]; rfl)
      intro s' hs' hpc' htx
      have hskip : ¬ s'.tx.snd.dlen > 0 := by
        rw [htx, hzero]
        exact lt_irrefl 0
      have htask : s'.task 0 = some { s' with pc := .poll } := by
        simp only [State.task, hpc', if_neg hskip]
      exact .of_step (e := .task 0) htask
        ((hs'.task htask).releasable_of_poll_queue rfl (by rw [htx]; exact hqueue))
  | poll => exact h.releasable_of_poll_queue hpc hqueue
  | setBusy | writeEP =>
      rw [hpc, hzero] at hwrite
      exact absurd hwrite (lt_irrefl 0)
  | advance k =>
      rw [hpc, hzero] at hwrite
      exact absurd hwrite.1 (lt_irrefl 0)

/-- A caller that waits can always be released. -/
theorem releasable (h : Underway s t n) : Releasable s t := by
  rcases h.served.stage.inCustody (h.served.holder t h.waits.holds) h.waits h.pos with
    hqueue | ⟨hdlen, -⟩ | htoken
  · refine h.releasable_of_queue ?_
    intro hnil
    rw [hnil] at hqueue
    cases hqueue
  · exact h.releasable_of_dlen hdlen
  · exact releasable_of_token h.waits htoken

end Underway

/-! ## An abandoned sender -/

/-- A task waits for its token with nothing left that would give it. -/
structure Abandoned (s : State ρ τ) (t : τ) : Prop where
  served : Served s.pc s.tx
  mutex : s.tx.SendMutex = some t
  waits : ∃ n, s.tx.senders t = .wait n
  quiet : Quiet s.tx

omit [DecidableEq ρ] [DecidableEq τ] in
theorem Abandoned.of_not_inCustody {t : τ} {n : ℕ} (h : Served s.pc s.tx)
    (hmutex : s.tx.SendMutex = some t) (hwait : s.tx.senders t = .wait n)
    (hnot : ¬ InCustody s.tx t) : Abandoned s t := by
  rw [InCustody, not_or, not_or] at hnot
  obtain ⟨hqueue, hsnd, htoken⟩ := hnot
  refine ⟨h, hmutex, ⟨n, hwait⟩, ?_, ?_, Bool.eq_false_iff.mpr htoken⟩
  · by_contra hne
    obtain ⟨item, rest, hitems⟩ := List.exists_cons_of_ne_nil hne
    obtain ⟨t', m, serving, -, rfl, -⟩ := h.stage.queued_of_items hitems
    refine hqueue ?_
    rw [hitems, ← serving.eq_of_mutex hmutex]
    exact List.mem_cons_self
  · by_contra hne
    obtain ⟨t', m, offset, serving, -, -, snd, -⟩ :=
      h.stage.sending_of_pos (Nat.pos_of_ne_zero hne)
    refine hsnd ⟨Nat.pos_of_ne_zero hne, ?_⟩
    rw [snd, ← serving.eq_of_mutex hmutex]
    rfl

omit [DecidableEq ρ] [DecidableEq τ] in
/-- The loop has nothing to do for an abandoned task. -/
theorem Abandoned.task {t : τ} (h : Abandoned s t) {n : ℕ} (htask : s.task n = some s') :
    s'.tx = s.tx := by
  have hwrite := h.served.write
  rw [h.quiet.dlen] at hwrite
  cases State.taskStep htask with
  | writeEP => exact absurd hwrite (lt_irrefl 0)
  | advance => exact absurd hwrite.1 (lt_irrefl 0)
  | @poll v rx tx =>
      rcases tx.poll_cases with ⟨heq, -⟩ | ⟨send, q, -, hsend, -⟩
      · exact heq
      · exact absurd (hsend.symm.trans h.quiet.queue) (List.cons_ne_nil _ _)
  | alloc | read | skip | copy | count | clear | clearNone | enqueue | write | writeNone | writeSkip
  | setBusy => rfl

/-- No step helps it, and no other task gets the mutex. -/
theorem Abandoned.step {t : τ} {e : Ev ρ τ} (h : Abandoned s t) (hstep : Cdc.step s e = some s') :
    Abandoned s' t := by
  have hserved := h.served.step hstep
  obtain ⟨n, hwait⟩ := h.waits
  -- another task that changes its place
  have hother : ∀ {t' : τ} {x : Sender}, s.tx.senders t' = .idle →
      Function.update s.tx.senders t' x t = .wait n := by
    intro t' x hidle
    rw [Function.update_of_ne, hwait]
    rintro rfl
    rw [hwait] at hidle
    cases hidle
  cases e with
  | usb e | lineCode | rom bytes | connection flags =>
      rw [← Option.some_inj.mp hstep] at hserved ⊢
      exact ⟨hserved, h.mutex, h.waits, h.quiet.queue, h.quiet.dlen, h.quiet.complete⟩
  | task m =>
      have htx := h.task hstep
      exact ⟨hserved, by rw [htx, h.mutex], by rw [htx]; exact h.waits, by rw [htx]; exact h.quiet⟩
  | receiveCall r length | reader r =>
      obtain ⟨rx, -, rfl⟩ := Option.map_eq_some_iff.mp hstep
      exact ⟨hserved, h.mutex, h.waits, h.quiet⟩
  | sendCall t' data length =>
      obtain ⟨tx, htx, rfl⟩ := Option.map_eq_some_iff.mp hstep
      obtain ⟨hidle, -, rfl⟩ := Sending.call_cases htx
      exact ⟨hserved, h.mutex, ⟨n, hother hidle⟩, h.quiet.queue, h.quiet.dlen, h.quiet.complete⟩
  | store t' data =>
      obtain ⟨tx, htx, rfl⟩ := Option.map_eq_some_iff.mp hstep
      obtain ⟨-, rfl⟩ := Sending.store_cases htx
      exact ⟨hserved, h.mutex, h.waits, h.quiet.queue, h.quiet.dlen, h.quiet.complete⟩
  | sender t' =>
      -- only the holder could go on, and it has no token
      have hnone : ∀ {x : Sender}, s.tx.senders t' = x → x.Holds → ∃ m, x = .wait m := by
        intro x hs hx
        have hholder := h.served.holder t' (by rw [hs]; exact hx)
        rw [h.mutex, Option.some_inj] at hholder
        exact ⟨n, by rw [← hs, ← hholder, hwait]⟩
      obtain ⟨tx, htx, rfl⟩ := Option.map_eq_some_iff.mp hstep
      rcases Sending.goOn_cases htx with ⟨length, hs, hmutex, -⟩ | ⟨length, q, hs, -⟩ |
        ⟨length, hs, -⟩ | ⟨length, -, htoken, -⟩ | ⟨length, hs, -⟩
      · rw [h.mutex] at hmutex
        cases hmutex
      · obtain ⟨m, hm⟩ := hnone hs trivial
        cases hm
      · obtain ⟨m, hm⟩ := hnone hs trivial
        cases hm
      · rw [h.quiet.complete] at htoken
        cases htoken
      · obtain ⟨m, hm⟩ := hnone hs trivial
        cases hm

/-- **For ever.** An abandoned task never returns. -/
theorem Abandoned.not_releasable {t : τ} (h : Abandoned s t) : ¬ Releasable s t := by
  rintro ⟨es, s', hrun, hidle, -⟩
  obtain ⟨n, hwait⟩ := (run_induction_all (I := fun s => Abandoned s t)
    (fun _ _ _ h hstep => h.step hstep) h hrun).waits
  rw [hwait] at hidle
  cases hidle

/-! ## The result -/

/-- **No abandoned sender.** In every run in which no call of `USB_send` passes the length zero,
the request of a task that has the mutex and waits for its token is in `SendQueue`, in `snd` or
finished, and the system can go on to where the task has returned. -/
theorem sender_not_abandoned {rx_buff : Buffer transferSize} {es : List (Ev ρ τ)}
    (hrun : run Cdc.step (.init ρ τ rx_buff) es = some s)
    (hes : ∀ e ∈ es, ∀ n ∈ e.sendLength?, 0 < n) {t : τ} {n : ℕ}
    (hmutex : s.tx.SendMutex = some t) (hwait : s.tx.senders t = .wait n) :
    InCustody s.tx t ∧ Releasable s t := by
  have hwaits : (s.tx.senders t).Waits n := by
    rw [hwait]
    rfl
  have hpos : 0 < n := nonEmpty_of_run hrun hes t n (by rw [hwait]; rfl)
  have h : Underway s t n := ⟨coherent_of_run hrun, served_of_run hrun, hwaits, hpos⟩
  exact ⟨h.served.stage.inCustody hmutex hwaits hpos, h.releasable⟩

end Run

/-- The caller waits for its token, and the loop has taken its request of `length` bytes. -/
def oneRequest (length : ℕ) : List (Ev Unit Unit) :=
  [.sendCall () [79, 75] length, .sender (), .sender (), .sender ()] ++ List.replicate 4 (.task 0)

instance {τ : Type} [DecidableEq τ] (tx : Sending τ) (t : τ) : Decidable (InCustody tx t) :=
  inferInstanceAs (Decidable (_ ∨ _))

theorem sender_not_abandoned_oneRequest : ∃ s,
    run step (.init Unit Unit clearBuff) (oneRequest 2) = some s ∧ s.tx.senders () = .wait 2 ∧
      InCustody s.tx () ∧ Releasable s () := by
  obtain ⟨s, hrun, hmutex, hwait⟩ := exists_of_run
    (P := fun s : State Unit Unit => s.tx.SendMutex = some () ∧ s.tx.senders () = .wait 2)
    (show (run step (.init Unit Unit clearBuff) (oneRequest 2)).any _ = true by decide +kernel)
  exact ⟨s, hrun, hwait, sender_not_abandoned hrun (by decide) hmutex hwait⟩

/-- A request of no bytes: its caller is abandoned, for ever. -/
theorem emptyRequest_abandoned : ∃ s,
    run step (.init Unit Unit clearBuff) (oneRequest 0) = some s ∧ s.tx.SendMutex = some () ∧
      s.tx.senders () = .wait 0 ∧ ¬ InCustody s.tx () ∧ ¬ Releasable s () := by
  obtain ⟨s, hrun, hmutex, hwait, hnot⟩ := exists_of_run
    (P := fun s : State Unit Unit => s.tx.SendMutex = some () ∧ s.tx.senders () = .wait 0 ∧
      ¬ InCustody s.tx ())
    (show (run step (.init Unit Unit clearBuff) (oneRequest 0)).any _ = true by decide +kernel)
  exact ⟨s, hrun, hmutex, hwait, hnot,
    (Abandoned.of_not_inCustody (served_of_run hrun) hmutex hwait hnot).not_releasable⟩

end Cdc

end Plotter
