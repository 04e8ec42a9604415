import Plotter.Cdc.Release

/-!
# Nothing stays on the send path

A request that is not empty comes to its token within a few rounds of `cdc_task`, as long as
the host is there and takes what `WriteEP` has accepted; and the caller is held up nowhere
else in `USB_send`.

## Main definitions

* `Ev.sends`: the steps of the loop, and what the host does to take a reply.
* `toComplete`: how many steps are left until `SendComplete` is given.
* `toGive`: how many are left until the caller gives the mutex back.
-/

namespace Plotter

open Lib

namespace Cdc

/-- A step of `cdc_task`; or the host has taken a packet, or connects. -/
def Ev.sends {ρ τ : Type} : Ev ρ τ → Prop
  | .task _ | .usb .IN | .lineCode => True
  | _ => False

/-- How many steps are needed at most to complete a request that is in the queue or in `snd`. -/
def toComplete {ρ τ : Type} (s : State ρ τ) : ℕ :=
  match s.pc.toWrite with
  | some k => (if s.tx.snd.dlen = 0 then 15 else if k = 0 ∧ s.vcom.writable then 4 else 5) + k
  | none =>
    if s.tx.snd.dlen = 0 then 14
    else
      match s.pc with
      | .advance n => if n = s.tx.snd.dlen then 1 else 13
      | .writeEP => 2
      | .setBusy => 3
      | _ => 12

theorem Pc.toWrite_le {pc : Pc} {k : ℕ} (h : pc.toWrite = some k) : k ≤ 6 := by
  cases pc with
  | alloc | test | copy | count | clear | enqueue | write =>
      obtain rfl := Option.some_inj.mp h
      decide
  | setBusy | writeEP | advance | poll => cases h

theorem toComplete_le {ρ τ : Type} (s : State ρ τ) : toComplete s ≤ 21 := by
  rw [toComplete]
  cases hk : s.pc.toWrite with
  | some k =>
      have hle := Pc.toWrite_le hk
      simp only
      split_ifs <;> omega
  | none =>
      simp only
      split_ifs
      · omega
      · split <;> try split
        all_goals omega

section Complete
variable {ρ τ : Type} [DecidableEq ρ] [DecidableEq τ] {s s' : State ρ τ} {t : τ} {n : ℕ}

/-- The host has taken a packet, or connects: then `vcom_write` can write. -/
theorem exists_writable (s : State ρ τ) : ∃ (e : Ev ρ τ) (s' : State ρ τ), e.sends ∧
    step s e = some s' ∧ s'.vcom.writable = true ∧ s'.pc = s.pc ∧ s'.rx = s.rx ∧
      s'.tx = { s.tx with xCDCEventSemaphore := true } := by
  cases hconnected : s.vcom.tx_flags.CONNECTED with
  | true =>
      refine ⟨.usb .IN, s.interrupt .IN, trivial, rfl, ?_, rfl, rfl, rfl⟩
      simp [State.interrupt, Vcom.handle, VCOM_bulk_in_hdlr, Vcom.writable, hconnected]
  | false => exact ⟨.lineCode, _, trivial, rfl, rfl, rfl, rfl, rfl⟩

omit [DecidableEq ρ] [DecidableEq τ] in
/-- At the poll, with the request in the queue: the loop takes it. -/
theorem Underway.poll_queue (h : Underway s t n) (hpc : s.pc = .poll) (hdlen : s.tx.snd.dlen = 0)
    (hcomplete : s.tx.SendComplete = false) :
    ∃ s', s.task 0 = some s' ∧ s'.pc = .alloc ∧ 0 < s'.tx.snd.dlen := by
  have htask : s.task 0 = some { s with tx := s.tx.poll, pc := .alloc } := by
    simp only [State.task, hpc]
  refine ⟨_, htask, rfl, ?_⟩
  have hmutex := h.served.holder t h.waits.holds
  have hitems : s.tx.SendQueue.items = [⟨⟨t, 0⟩, n⟩] := by
    rcases h.served.stage.of_mutex hmutex with ⟨m, -, sender, -⟩ | ⟨m, sender, hwhere⟩ |
      ⟨m, -, sender, -⟩
    · have hwaits := h.waits
      rw [sender] at hwaits
      cases hwaits
    · obtain rfl := sender.unique h.waits
      rcases hwhere with ⟨queue, -⟩ | ⟨offset, lt, snd, -⟩ | ⟨-, -, -, complete⟩
      · exact queue
      · rw [snd] at hdlen
        simp only at hdlen
        omega
      · rcases complete with complete | rfl
        · rw [hcomplete] at complete
          cases complete
        · exact absurd h.pos (lt_irrefl 0)
    · have hwaits := h.waits
      rw [sender] at hwaits
      cases hwaits
  rcases s.tx.poll_cases with ⟨-, hpos | hnil⟩ | ⟨send, q, -, hitems', heq⟩
  · omega
  · rw [hitems] at hnil
    cases hnil
  · obtain ⟨rfl, -⟩ := List.cons_eq_cons.mp (hitems.symm.trans hitems')
    simp only [heq]
    exact h.pos

/-- **A step towards the token**: it is given, or it is nearer. -/
theorem Underway.nearer (h : Underway s t n) (hcomplete : s.tx.SendComplete = false) :
    ∃ (e : Ev ρ τ) (s' : State ρ τ), e.sends ∧ step s e = some s' ∧ s'.tx.senders = s.tx.senders ∧
      (s'.tx.SendComplete = true ∨ toComplete s' < toComplete s) := by
  have hsenders : ∀ {k : ℕ} {s' : State ρ τ}, s.task k = some s' →
      s'.tx.senders = s.tx.senders := fun htask => (task_senders htask).1
  have hwrite := h.served.write
  cases hm : s.pc.toWrite with
  | some m =>
      cases m with
      | succ m =>
          obtain ⟨s', k, htask, htx, hk, hle⟩ := task_toWrite h.coherent hm
          refine ⟨.task 0, s', trivial, htask, hsenders htask, .inr ?_⟩
          rw [toComplete, toComplete, hk, hm, htx]
          simp only [Nat.add_eq_zero_iff, one_ne_zero, and_false, false_and, if_false]
          split_ifs <;> omega
      | zero =>
          have hpc : s.pc = .write := by
            cases hpc : s.pc with
            | write => rfl
            | alloc | test | copy | count | clear | enqueue | setBusy | writeEP | advance | poll =>
                rw [hpc] at hm
                cases hm
          by_cases hdlen : s.tx.snd.dlen = 0
          · have htask : s.task 0 = some { s with pc := .poll } := by
              simp only [State.task, hpc, hdlen, gt_iff_lt, lt_irrefl, if_false]
            refine ⟨.task 0, _, trivial, htask, rfl, .inr ?_⟩
            simp [toComplete, hpc, Pc.toWrite, hdlen]
          · cases hwritable : s.vcom.writable with
            | false =>
                obtain ⟨e, s', he, hstep, hs', hpc', -, htx⟩ := exists_writable s
                refine ⟨e, s', he, hstep, by rw [htx], .inr ?_⟩
                simp [toComplete, hpc, hpc', Pc.toWrite, hdlen, htx, hs', hwritable]
            | true =>
                have htask : s.task 0 = some { s with pc := .setBusy } := by
                  simp only [State.task, hpc, gt_iff_lt, Nat.pos_of_ne_zero hdlen, if_true, hwritable]
                refine ⟨.task 0, _, trivial, htask, rfl, .inr ?_⟩
                simp [toComplete, hpc, Pc.toWrite, hdlen, hwritable]
  | none =>
      cases hpc : s.pc with
      | alloc | test | copy | count | clear | enqueue | write =>
          rw [hpc] at hm
          cases hm
      | setBusy =>
          rw [hpc] at hwrite
          have hdlen : s.tx.snd.dlen ≠ 0 := Nat.pos_iff_ne_zero.mp hwrite
          have htask : s.task 0 = some { s with vcom := s.vcom.setBusy, pc := .writeEP } := by
            simp only [State.task, hpc]
          refine ⟨.task 0, _, trivial, htask, rfl, .inr ?_⟩
          simp [toComplete, hpc, Pc.toWrite, hdlen]
      | writeEP =>
          -- the host accepts all that is left
          rw [hpc] at hwrite
          have hdlen : s.tx.snd.dlen ≠ 0 := Nat.pos_iff_ne_zero.mp hwrite
          obtain ⟨t', m, offset, -, -, -, snd, -⟩ := h.served.stage.sending_of_pos hwrite
          obtain ⟨tx, htx⟩ : ∃ tx, s.tx.write s.tx.snd.dlen = some tx := by
            simp [Sending.write, Sending.offered, snd]
          have hsnd : tx.snd = s.tx.snd := by
            obtain ⟨p, -, -, rfl⟩ := Sending.write_cases htx
            rfl
          have htask : s.task s.tx.snd.dlen =
              some { s with tx := tx, pc := .advance s.tx.snd.dlen } := by
            simp [State.task, hpc, htx]
          refine ⟨.task s.tx.snd.dlen, _, trivial, htask, hsenders htask, .inr ?_⟩
          simp [toComplete, hpc, Pc.toWrite, hsnd, hdlen]
      | advance k =>
          rw [hpc] at hwrite
          have hdlen : s.tx.snd.dlen ≠ 0 := Nat.pos_iff_ne_zero.mp hwrite.1
          obtain ⟨s', htask, -, hpc', hleft, htoken⟩ := h.advance hpc
          refine ⟨.task 0, s', trivial, htask, hsenders htask, ?_⟩
          by_cases hk : k = s.tx.snd.dlen
          · exact .inl (htoken (by omega))
          · have hle := hwrite.2
            have hrest : s'.tx.snd.dlen ≠ 0 := by omega
            right
            simp [toComplete, hpc, hpc', Pc.toWrite, hdlen, hrest, hk]
      | poll =>
          by_cases hdlen : s.tx.snd.dlen = 0
          · obtain ⟨s', htask, hpc', hpos⟩ := h.poll_queue hpc hdlen hcomplete
            refine ⟨.task 0, s', trivial, htask, hsenders htask, .inr ?_⟩
            simp [toComplete, hpc, hpc', Pc.toWrite, hdlen, hpos.ne']
          · have hsame : s.tx.poll = s.tx := if_neg hdlen
            have htask : s.task 0 = some { s with pc := .alloc } := by
              simp only [State.task, hpc, hsame]
            refine ⟨.task 0, _, trivial, htask, rfl, .inr ?_⟩
            simp [toComplete, hpc, Pc.toWrite, hdlen]

end Complete

/-! ## The call -/

section Give
variable {ρ : Type} {s s' : State ρ Unit}

/-- How many steps are needed at most until the caller gives `SendMutex` back. -/
def toGive (s : State ρ Unit) : ℕ :=
  match s.tx.senders () with
  | .give _ => 0
  | .wait _ => if s.tx.SendComplete then 1 else 2 + toComplete s
  | .wake _ => 24
  | .queue _ => 25
  | .take _ => 26
  | .idle => 27

theorem toGive_le {n : ℕ} (hs : s.tx.senders () = .wait n) : toGive s ≤ 23 := by
  have hle := toComplete_le s
  rw [toGive, hs]
  simp only
  split_ifs <;> omega

/-- **The caller goes on**, unless it waits for the token. -/
theorem Served.exists_goOn (h : Served s.pc s.tx) (hidle : s.tx.senders () ≠ .idle)
    (hgive : ∀ n, s.tx.senders () ≠ .give n)
    (hwait : ∀ n, s.tx.senders () = .wait n → s.tx.SendComplete = true) :
    ∃ tx, s.tx.goOn () = some tx ∧ toGive { s with tx := tx } < toGive s := by
  cases hs : s.tx.senders () with
  | idle => exact absurd hs hidle
  | give n => exact absurd hs (hgive n)
  | take n =>
      have hmutex : s.tx.SendMutex = none := by
        by_contra hsome
        obtain ⟨u, hu⟩ := Option.ne_none_iff_exists'.mp hsome
        have hholds := h.stage.holds hu
        rw [hs] at hholds
        exact hholds
      refine ⟨_, by simp only [Sending.goOn, hs, hmutex, if_true]; rfl, ?_⟩
      simp [toGive, hs]
  | queue n =>
      have hmutex := h.holder () (by rw [hs]; trivial)
      obtain ⟨q, hq⟩ : ∃ q, s.tx.SendQueue.send ⟨⟨(), 0⟩, n⟩ = some q := by
        rw [Queue.exists_send_iff]
        rcases h.stage.of_mutex hmutex with ⟨m, -, -, hquiet⟩ | ⟨m, sender, -⟩ | ⟨m, -, sender, -⟩
        · rw [hquiet.queue]
          exact Nat.zero_lt_one
        · rw [hs] at sender
          cases sender
        · rw [hs] at sender
          cases sender
      refine ⟨_, by simp only [Sending.goOn, hs, hq]; rfl, ?_⟩
      simp [toGive, hs]
  | wake n =>
      refine ⟨_, by simp only [Sending.goOn, hs]; rfl, ?_⟩
      have hle := @toGive_le ρ { s with
        tx.xCDCEventSemaphore := true
        tx.senders := Function.update s.tx.senders () (.wait n) } n
        (by simp only [Function.update_self])
      apply hle.trans_lt
      simp [toGive, hs]
  | wait n =>
      have htoken := hwait n hs
      refine ⟨_, by simp only [Sending.goOn, hs, htoken, if_true]; rfl, ?_⟩
      simp [toGive, hs, htoken]

end Give

end Cdc

end Plotter
