import Plotter.Cdc

/-!
# The bytes of the send path

A request goes from its caller through `SendQueue` to the local `snd` of `cdc_task`, which has
`WriteEP` accept it piece by piece and gives `SendComplete` when nothing is left of it. The
mutex makes the request of its holder the only one on the way, and the token that the
holder takes is its own.

## Main definitions

* `Quiet`: nothing is on the way.
* `Serving`: how much of the request of the holder has been accepted.
* `Stage`: where the request is.
* `Served`: the invariant of the send path.
* `accepted_prefix`: the accepted bytes are those of the requests, in order.
-/

namespace Plotter

open Lib

namespace Cdc

/-- The task has `SendMutex`. -/
def Sender.Holds : Sender → Prop
  | .idle | .take _ => False
  | _ => True

/-- The task waits for its request of `n` bytes to be sent. -/
def Sender.Waits (n : ℕ) : Sender → Prop
  | .wake m | .wait m => m = n
  | _ => False

theorem Sender.Waits.unique {x : Sender} {m n : ℕ} (hm : x.Waits m) (hn : x.Waits n) : m = n := by
  cases x with
  | wake k | wait k => exact Eq.trans (Eq.symm hm) hn
  | idle | take k | queue k | give k => cases hm

theorem Sender.Waits.holds {x : Sender} {n : ℕ} (hx : x.Waits n) : x.Holds := by
  cases x with
  | wake m | wait m => trivial
  | idle | take m | queue m | give m => cases hx

/-- What `WriteEP` has accepted and `snd` does not show yet. -/
def Pc.written : Pc → ℕ
  | .advance n => n
  | _ => 0

section Defs
variable {τ : Type}

/-- Nothing is in `SendQueue`, in `snd` or in `SendComplete`. -/
structure Quiet (tx : Sending τ) : Prop where
  queue : tx.SendQueue.items = []
  dlen : tx.snd.dlen = 0
  complete : tx.SendComplete = false

/-- The request of `t`, of `n` bytes, is the last one, and the first `k` of them have been
accepted. -/
structure Serving (tx : Sending τ) (t : τ) (n k : ℕ) : Prop where
  mutex : tx.SendMutex = some t
  fits : n ≤ (tx.memory t).length
  bytes : ∃ before, tx.requests = before ++ [(t, (tx.memory t).take n)] ∧
    tx.accepted = before.flatMap Prod.snd ++ (tx.memory t).take k

/-- Where the request of the holder of `SendMutex` is. -/
inductive Stage (pc : Pc) (tx : Sending τ) : Prop
  | free (mutex : tx.SendMutex = none) (bytes : tx.accepted = tx.requests.flatMap Prod.snd)
      (quiet : Quiet tx)
  | taken (t : τ) (n : ℕ) (serving : Serving tx t n 0) (sender : tx.senders t = .queue n)
      (quiet : Quiet tx)
  | queued (t : τ) (n : ℕ) (serving : Serving tx t n 0) (sender : (tx.senders t).Waits n)
      (queue : tx.SendQueue.items = [⟨⟨t, 0⟩, n⟩]) (dlen : tx.snd.dlen = 0)
      (complete : tx.SendComplete = false)
  | sending (t : τ) (n offset : ℕ) (serving : Serving tx t n (offset + pc.written))
      (sender : (tx.senders t).Waits n) (queue : tx.SendQueue.items = [])
      (snd : tx.snd = ⟨some ⟨t, offset⟩, n - offset⟩) (lt : offset < n)
      (complete : tx.SendComplete = false)
  | finished (t : τ) (n : ℕ) (serving : Serving tx t n n) (sender : (tx.senders t).Waits n)
      (queue : tx.SendQueue.items = []) (dlen : tx.snd.dlen = 0)
      (complete : tx.SendComplete = true ∨ n = 0)
  | given (t : τ) (n : ℕ) (serving : Serving tx t n n) (sender : tx.senders t = .give n)
      (quiet : Quiet tx)

/-- In `vcom_write` and behind it there is something to be sent. -/
def WriteOk (dlen : ℕ) : Pc → Prop
  | .setBusy | .writeEP => 0 < dlen
  | .advance n => 0 < dlen ∧ n ≤ dlen
  | _ => True

/-- The invariant of the send path. -/
structure Served (pc : Pc) (tx : Sending τ) : Prop where
  holder : ∀ t, (tx.senders t).Holds → tx.SendMutex = some t
  fits : ∀ t n, tx.senders t = .take n → n ≤ (tx.memory t).length
  write : WriteOk tx.snd.dlen pc
  stage : Stage pc tx

end Defs

section Stages
variable {τ : Type} {tx tx' : Sending τ} {pc : Pc}

theorem Serving.eq_of_mutex {t t' : τ} {n k : ℕ} (h : Serving tx t n k)
    (hmutex : tx.SendMutex = some t') : t = t' := Option.some_inj.mp (h.mutex.symm.trans hmutex)

/-- What was accepted of the request begins it. -/
theorem Serving.accepted_begins {t : τ} {n k : ℕ} (h : Serving tx t n k) (hk : k ≤ n) :
    tx.accepted <+: tx.requests.flatMap Prod.snd := by
  obtain ⟨before, hrequests, haccepted⟩ := h.bytes
  rw [hrequests, haccepted, List.flatMap_append, List.flatMap_singleton]
  exact List.prefix_append_right_inj _ |>.mpr (List.take_prefix_take_left hk)

theorem Serving.accepted_eq {t : τ} {n : ℕ} (h : Serving tx t n n) :
    tx.accepted = tx.requests.flatMap Prod.snd := by
  obtain ⟨before, hrequests, haccepted⟩ := h.bytes
  rw [hrequests, haccepted, List.flatMap_append, List.flatMap_singleton]

/-- The holder of the mutex has not queued its request, or waits for it, or has its token. -/
theorem Stage.of_mutex (h : Stage pc tx) {t : τ} (hmutex : tx.SendMutex = some t) :
    (∃ n, Serving tx t n 0 ∧ tx.senders t = .queue n ∧ Quiet tx) ∨
    (∃ n, (tx.senders t).Waits n ∧
      ((tx.SendQueue.items = [⟨⟨t, 0⟩, n⟩] ∧ tx.SendComplete = false) ∨
        (∃ offset < n, tx.snd = ⟨some ⟨t, offset⟩, n - offset⟩ ∧ tx.SendComplete = false) ∨
        (Serving tx t n n ∧ tx.SendQueue.items = [] ∧ tx.snd.dlen = 0 ∧
          (tx.SendComplete = true ∨ n = 0)))) ∨
    ∃ n, Serving tx t n n ∧ tx.senders t = .give n ∧ Quiet tx := by
  cases h with
  | free mutex =>
      rw [mutex] at hmutex
      cases hmutex
  | taken t' n serving sender quiet =>
      obtain rfl := serving.eq_of_mutex hmutex
      exact .inl ⟨n, serving, sender, quiet⟩
  | queued t' n serving sender queue dlen complete =>
      obtain rfl := serving.eq_of_mutex hmutex
      exact .inr (.inl ⟨n, sender, .inl ⟨queue, complete⟩⟩)
  | sending t' n offset serving sender queue snd lt complete =>
      obtain rfl := serving.eq_of_mutex hmutex
      exact .inr (.inl ⟨n, sender, .inr (.inl ⟨offset, lt, snd, complete⟩)⟩)
  | finished t' n serving sender queue dlen complete =>
      obtain rfl := serving.eq_of_mutex hmutex
      exact .inr (.inl ⟨n, sender, .inr (.inr ⟨serving, queue, dlen, complete⟩)⟩)
  | given t' n serving sender quiet =>
      obtain rfl := serving.eq_of_mutex hmutex
      exact .inr (.inr ⟨n, serving, sender, quiet⟩)

/-- The holder of the mutex is in `USB_send`. -/
theorem Stage.holds (h : Stage pc tx) {t : τ} (hmutex : tx.SendMutex = some t) :
    (tx.senders t).Holds := by
  rcases h.of_mutex hmutex with ⟨n, -, sender, -⟩ | ⟨n, sender, -⟩ | ⟨n, -, sender, -⟩
  · rw [sender]
    trivial
  · exact sender.holds
  · rw [sender]
    trivial

section Frame
variable {senders : τ → Sender} {memory : τ → List UInt8} (event : Bool)

theorem Serving.frame {t : τ} {n k : ℕ} (h : Serving tx t n k) (hmemory : memory t = tx.memory t) :
    Serving { tx with senders := senders, memory := memory, xCDCEventSemaphore := event } t n k where
  mutex := h.mutex
  fits := by simpa only [hmemory] using h.fits
  bytes := by simpa only [hmemory] using h.bytes

/-- **Frame.** A request stays where it is as long as its caller stays and its memory. -/
theorem Stage.frame (h : Stage pc tx) (hsame : ∀ t, tx.SendMutex = some t →
      (senders t = tx.senders t ∨ ∃ n, tx.senders t = .wake n ∧ senders t = .wait n) ∧
        memory t = tx.memory t) :
    Stage pc { tx with senders := senders, memory := memory, xCDCEventSemaphore := event } := by
  have hwaits : ∀ {t n}, tx.SendMutex = some t → (tx.senders t).Waits n → (senders t).Waits n := by
    intro t n hmutex hx
    rcases (hsame t hmutex).1 with heq | ⟨m, hwake, hwait⟩
    · rwa [heq]
    · rw [hwake] at hx
      rw [hwait]
      exact hx
  have hkeep : ∀ {t x}, tx.SendMutex = some t → tx.senders t = x → (∀ n, x ≠ .wake n) →
      senders t = x := by
    intro t x hmutex hx hne
    rcases (hsame t hmutex).1 with heq | ⟨m, hwake, -⟩
    · rw [heq, hx]
    · exact absurd (hx.symm.trans hwake) (hne m)
  cases h with
  | free mutex bytes quiet => exact .free mutex bytes ⟨quiet.queue, quiet.dlen, quiet.complete⟩
  | taken t n serving sender quiet =>
      exact .taken t n (serving.frame event (hsame t serving.mutex).2)
        (hkeep serving.mutex sender nofun) ⟨quiet.queue, quiet.dlen, quiet.complete⟩
  | queued t n serving sender queue dlen complete =>
      exact .queued t n (serving.frame event (hsame t serving.mutex).2)
        (hwaits serving.mutex sender) queue dlen complete
  | sending t n offset serving sender queue snd lt complete =>
      exact .sending t n offset (serving.frame event (hsame t serving.mutex).2)
        (hwaits serving.mutex sender) queue snd lt complete
  | finished t n serving sender queue dlen complete =>
      exact .finished t n (serving.frame event (hsame t serving.mutex).2)
        (hwaits serving.mutex sender) queue dlen complete
  | given t n serving sender quiet =>
      exact .given t n (serving.frame event (hsame t serving.mutex).2)
        (hkeep serving.mutex sender nofun) ⟨quiet.queue, quiet.dlen, quiet.complete⟩

end Frame

end Stages

section Senders
variable {τ : Type} [DecidableEq τ] {tx tx' : Sending τ} {pc : Pc} {t : τ}

/-- What a task does that is not the holder leaves the request alone. -/
theorem Served.outside (h : Served pc tx) (hout : ¬ (tx.senders t).Holds) {x : Sender}
    (hx : ¬ x.Holds) (m : List UInt8) (hfits : ∀ n, x = .take n → n ≤ m.length) :
    Served pc { tx with
      memory := Function.update tx.memory t m
      senders := Function.update tx.senders t x } where
  holder := by
    intro t' ht'
    by_cases heq : t' = t
    · subst heq
      simp only [Function.update_self] at ht'
      exact absurd ht' hx
    · simp only [Function.update_of_ne heq] at ht'
      exact h.holder t' ht'
  fits := by
    intro t' n ht'
    by_cases heq : t' = t
    · subst heq
      simp only [Function.update_self] at ht' ⊢
      exact hfits n ht'
    · simp only [Function.update_of_ne heq] at ht' ⊢
      exact h.fits t' n ht'
  write := h.write
  stage := h.stage.frame tx.xCDCEventSemaphore fun t' ht' => by
    have hne : t' ≠ t := by
      rintro rfl
      exact hout (h.stage.holds ht')
    exact ⟨.inl (Function.update_of_ne hne ..), Function.update_of_ne hne ..⟩

theorem Served.call (h : Served pc tx) {data : List UInt8} {length : ℕ}
    (hcall : tx.call t data length = some tx') : Served pc tx' := by
  obtain ⟨hidle, hlen, rfl⟩ := Sending.call_cases hcall
  refine h.outside (x := .take length) (by rw [hidle]; exact not_false) not_false data ?_
  intro n hn
  cases hn
  exact hlen

theorem Served.store (h : Served pc tx) {data : List UInt8}
    (hstore : tx.store t data = some tx') : Served pc tx' := by
  obtain ⟨hidle, rfl⟩ := Sending.store_cases hstore
  have hout := h.outside (t := t) (x := .idle) (by rw [hidle]; exact not_false) not_false data nofun
  rwa [← hidle, Function.update_eq_self] at hout

/-- What the holder does: it stays the only task that holds the mutex. -/
theorem Served.inside (h : Served pc tx) (hin : tx.SendMutex = some t) {x : Sender} {tx' : Sending τ}
    (hsenders : tx'.senders = Function.update tx.senders t x) (hmemory : tx'.memory = tx.memory)
    (hdlen : tx'.snd.dlen = tx.snd.dlen) (hx : ∀ n, x ≠ .take n)
    (hmutex : tx'.SendMutex = if x = .idle then none else some t) (hstage : Stage pc tx') :
    Served pc tx' where
  holder := by
    intro t' ht'
    rw [hsenders] at ht'
    by_cases heq : t' = t
    · subst heq
      rw [Function.update_self] at ht'
      rw [hmutex, if_neg]
      rintro rfl
      exact ht'
    · rw [Function.update_of_ne heq] at ht'
      exact absurd (Option.some_inj.mp ((h.holder t' ht').symm.trans hin)) heq
  fits := by
    intro t' n ht'
    rw [hsenders] at ht'
    rw [hmemory]
    by_cases heq : t' = t
    · subst heq
      rw [Function.update_self] at ht'
      exact absurd ht' (hx n)
    · rw [Function.update_of_ne heq] at ht'
      exact h.fits t' n ht'
  write := by
    rw [hdlen]
    exact h.write
  stage := hstage

/-- The sender takes the mutex: its request is the next one. -/
theorem Served.take (h : Served pc tx) {length : ℕ} (hs : tx.senders t = .take length)
    (hmutex : tx.SendMutex = none) :
    Served pc { tx with
      SendMutex := some t
      requests := tx.requests ++ [(t, (tx.memory t).take length)]
      senders := Function.update tx.senders t (.queue length) } := by
  cases h.stage with
  | free _ bytes quiet =>
      refine ⟨fun t' ht' => ?_, fun t' n ht' => ?_, h.write, .taken t length ⟨rfl, h.fits t length hs,
        tx.requests, rfl, ?_⟩ (Function.update_self ..) ⟨quiet.queue, quiet.dlen, quiet.complete⟩⟩
      · by_cases heq : t' = t
        · rw [heq]
        · simp only [Function.update_of_ne heq] at ht'
          have hholder := h.holder t' ht'
          rw [hmutex] at hholder
          cases hholder
      · by_cases heq : t' = t
        · subst heq
          simp only [Function.update_self] at ht'
          cases ht'
        · simp only [Function.update_of_ne heq] at ht'
          exact h.fits t' n ht'
      · rw [bytes, List.take_zero, List.append_nil]
  | taken t' n serving | queued t' n serving | sending t' n offset serving
  | finished t' n serving | given t' n serving =>
      rw [serving.mutex] at hmutex
      cases hmutex

/-- The request goes to the queue. -/
theorem Stage.queue (h : Stage pc tx) {length : ℕ} (hs : tx.senders t = .queue length)
    (hmutex : tx.SendMutex = some t) {q : Queue 1 (SendItem (Pointer τ))}
    (hq : q.items = tx.SendQueue.items ++ [⟨⟨t, 0⟩, length⟩]) :
    Stage pc { tx with
      SendQueue := q
      senders := Function.update tx.senders t (.wake length) } := by
  rcases h.of_mutex hmutex with ⟨n, serving, sender, quiet⟩ | ⟨n, sender, -⟩ | ⟨n, -, sender, -⟩
  · rw [hs] at sender
    cases sender
    refine .queued t length ⟨serving.mutex, serving.fits, serving.bytes⟩ ?_ ?_ quiet.dlen
      quiet.complete
    · simp only [Function.update_self]
      rfl
    · rw [hq, quiet.queue, List.nil_append]
  · rw [hs] at sender
    cases sender
  · rw [hs] at sender
    cases sender

/-- The token the sender takes says that its own request is finished. -/
theorem Stage.complete (h : Stage pc tx) {length : ℕ} (hs : tx.senders t = .wait length)
    (hmutex : tx.SendMutex = some t) (htoken : tx.SendComplete = true) :
    Stage pc { tx with
      SendComplete := false
      senders := Function.update tx.senders t (.give length) } := by
  rcases h.of_mutex hmutex with ⟨n, -, sender, -⟩ | ⟨n, sender, hwhere⟩ | ⟨n, -, sender, -⟩
  · rw [hs] at sender
    cases sender
  · obtain rfl : length = n := by
      rw [hs] at sender
      exact sender
    rcases hwhere with ⟨-, complete⟩ | ⟨offset, -, -, complete⟩ | ⟨serving, queue, dlen, -⟩
    · rw [complete] at htoken
      cases htoken
    · rw [complete] at htoken
      cases htoken
    · exact .given t length ⟨serving.mutex, serving.fits, serving.bytes⟩
        (Function.update_self ..) ⟨queue, dlen, rfl⟩
  · rw [hs] at sender
    cases sender

omit [DecidableEq τ] in
/-- Before the mutex comes back everything has been accepted. -/
theorem Stage.given_of_give (h : Stage pc tx) {n : ℕ} (hs : tx.senders t = .give n)
    (hmutex : tx.SendMutex = some t) :
    Serving tx t n n ∧ tx.accepted = tx.requests.flatMap Prod.snd ∧ Quiet tx := by
  rcases h.of_mutex hmutex with ⟨m, -, sender, -⟩ | ⟨m, sender, -⟩ | ⟨m, serving, sender, quiet⟩
  · rw [hs] at sender
    cases sender
  · rw [hs] at sender
    cases sender
  · rw [hs] at sender
    cases sender
    exact ⟨serving, serving.accepted_eq, quiet⟩

/-- The mutex comes back. -/
theorem Stage.give (h : Stage pc tx) {length : ℕ} (hs : tx.senders t = .give length)
    (hmutex : tx.SendMutex = some t) :
    Stage pc { tx with
      SendMutex := none
      senders := Function.update tx.senders t .idle } := by
  obtain ⟨-, hbytes, quiet⟩ := h.given_of_give hs hmutex
  exact .free rfl hbytes ⟨quiet.queue, quiet.dlen, quiet.complete⟩

/-- The only way back out of `USB_send` is over the mutex. -/
theorem give_of_idle (hgo : tx.goOn t = some tx') (hidle : tx'.senders t = .idle) :
    ∃ n, tx.senders t = .give n := by
  rcases Sending.goOn_cases hgo with ⟨length, hs, -, rfl⟩ | ⟨length, q, hs, -, rfl⟩ |
    ⟨length, hs, rfl⟩ | ⟨length, hs, -, rfl⟩ | ⟨length, hs, rfl⟩
  · simp at hidle
  · simp at hidle
  · simp at hidle
  · simp at hidle
  · exact ⟨length, hs⟩

/-- **A sender goes on.** -/
theorem Served.goOn (h : Served pc tx) (hgo : tx.goOn t = some tx') : Served pc tx' := by
  have hin : ∀ {x}, tx.senders t = x → x.Holds → tx.SendMutex = some t :=
    fun hs hx => h.holder t (hs ▸ hx)
  rcases Sending.goOn_cases hgo with ⟨length, hs, hmutex, rfl⟩ | ⟨length, q, hs, hq, rfl⟩ |
    ⟨length, hs, rfl⟩ | ⟨length, hs, htoken, rfl⟩ | ⟨length, hs, rfl⟩
  · exact h.take hs hmutex
  · have hmutex := hin hs trivial
    exact h.inside hmutex rfl rfl rfl nofun hmutex (h.stage.queue hs hmutex hq)
  · have hmutex := hin hs trivial
    refine h.inside hmutex rfl rfl rfl nofun hmutex (h.stage.frame true fun t' ht' => ⟨?_, rfl⟩)
    by_cases heq : t' = t
    · rw [heq, Function.update_self]
      exact .inr ⟨length, hs, rfl⟩
    · exact .inl (Function.update_of_ne heq ..)
  · have hmutex := hin hs trivial
    exact h.inside hmutex rfl rfl rfl nofun hmutex (h.stage.complete hs hmutex htoken)
  · have hmutex := hin hs trivial
    exact h.inside hmutex rfl rfl rfl nofun rfl (h.stage.give hs hmutex)

end Senders

section Task
variable {τ : Type} {tx tx' : Sending τ} {pc pc' : Pc}

/-- The loop goes on without touching the request. -/
theorem Served.goTo (h : Served pc tx) (hwritten : pc'.written = pc.written)
    (hwrite : WriteOk tx.snd.dlen pc') : Served pc' tx where
  holder := h.holder
  fits := h.fits
  write := hwrite
  stage := by
    cases h.stage with
    | free mutex bytes quiet => exact .free mutex bytes quiet
    | taken t n serving sender quiet => exact .taken t n serving sender quiet
    | queued t n serving sender queue dlen complete =>
        exact .queued t n serving sender queue dlen complete
    | sending t n offset serving sender queue snd lt complete =>
        exact .sending t n offset (by rwa [hwritten]) sender queue snd lt complete
    | finished t n serving sender queue dlen complete =>
        exact .finished t n serving sender queue dlen complete
    | given t n serving sender quiet => exact .given t n serving sender quiet

/-- With something in `snd` the request is being sent. -/
theorem Stage.sending_of_pos (h : Stage pc tx) (hpos : 0 < tx.snd.dlen) :
    ∃ t n offset, Serving tx t n (offset + pc.written) ∧ (tx.senders t).Waits n ∧
      tx.SendQueue.items = [] ∧ tx.snd = ⟨some ⟨t, offset⟩, n - offset⟩ ∧ offset < n ∧
      tx.SendComplete = false := by
  cases h with
  | sending t n offset serving sender queue snd lt complete =>
      exact ⟨t, n, offset, serving, sender, queue, snd, lt, complete⟩
  | queued t n serving sender queue dlen | finished t n serving sender queue dlen =>
      rw [dlen] at hpos
      exact absurd hpos (lt_irrefl 0)
  | free mutex bytes quiet | taken t n serving sender quiet | given t n serving sender quiet =>
      rw [quiet.dlen] at hpos
      exact absurd hpos (lt_irrefl 0)

/-- With something in `SendQueue` it is the request, and nothing is in `snd`. -/
theorem Stage.queued_of_items (h : Stage pc tx) {send : SendItem (Pointer τ)}
    {rest : List (SendItem (Pointer τ))} (hitems : tx.SendQueue.items = send :: rest) :
    ∃ t n, Serving tx t n 0 ∧ (tx.senders t).Waits n ∧ send = ⟨⟨t, 0⟩, n⟩ ∧ rest = [] ∧
      tx.snd.dlen = 0 ∧ tx.SendComplete = false := by
  cases h with
  | queued t n serving sender queue dlen complete =>
      rw [queue] at hitems
      obtain ⟨rfl, rfl⟩ := List.cons_eq_cons.mp hitems
      exact ⟨t, n, serving, sender, rfl, rfl, dlen, complete⟩
  | sending t n offset serving sender queue | finished t n serving sender queue =>
      rw [queue] at hitems
      cases hitems
  | free mutex bytes quiet | taken t n serving sender quiet | given t n serving sender quiet =>
      rw [quiet.queue] at hitems
      cases hitems

/-- **`WriteEP`** accepts the next bytes of the request. -/
theorem Served.writeEP (h : Served .writeEP tx) {n : ℕ} (hwrite : tx.write n = some tx') :
    Served (.advance n) tx' := by
  obtain ⟨t, m, offset, serving, sender, queue, snd, lt, complete⟩ := h.stage.sending_of_pos h.write
  obtain ⟨p, hp, hle, rfl⟩ := Sending.write_cases hwrite
  obtain rfl : p = ⟨t, offset⟩ := by
    rw [snd] at hp
    exact (Option.some_inj.mp hp).symm
  refine ⟨h.holder, h.fits, ⟨h.write, hle⟩, .sending t m offset ⟨serving.mutex, serving.fits, ?_⟩
    sender queue snd lt complete⟩
  obtain ⟨before, hrequests, haccepted⟩ := serving.bytes
  have hnow : tx.accepted = before.flatMap Prod.snd ++ (tx.memory t).take offset := haccepted
  refine ⟨before, hrequests, ?_⟩
  change tx.accepted ++ ((tx.memory t).drop offset).take n =
    before.flatMap Prod.snd ++ (tx.memory t).take (offset + n)
  rw [hnow, List.append_assoc, List.take_add]

/-- **The pointer and the length** advance together, and the token is given at the end. -/
theorem Served.advance {n : ℕ} (h : Served (.advance n) tx) : Served .poll (tx.advance n) := by
  obtain ⟨hpos, hle⟩ := h.write
  obtain ⟨t, m, offset, serving, sender, queue, snd, lt, complete⟩ := h.stage.sending_of_pos hpos
  have hdlen : tx.snd.dlen = m - offset := by rw [snd]
  by_cases hend : tx.snd.dlen - n = 0
  · have heq : offset + n = m := by omega
    have hserving : Serving tx t m m := by
      have hsub := serving
      rwa [Pc.written, heq] at hsub
    have hadvance : tx.advance n = { tx with
        snd := ⟨tx.snd.dptr.map fun p => { p with offset := p.offset + n }, tx.snd.dlen - n⟩
        SendComplete := true } := if_pos hend
    rw [hadvance]
    exact ⟨h.holder, h.fits, trivial, .finished t m ⟨hserving.mutex, hserving.fits, hserving.bytes⟩
      sender queue hend (.inl rfl)⟩
  · have hadvance : tx.advance n = { tx with
        snd := ⟨tx.snd.dptr.map fun p => { p with offset := p.offset + n }, tx.snd.dlen - n⟩ } :=
      if_neg hend
    rw [hadvance]
    refine ⟨h.holder, h.fits, trivial, .sending t m (offset + n)
      ⟨serving.mutex, serving.fits, serving.bytes⟩ sender queue ?_ (by omega) complete⟩
    have hrest : m - offset - n = m - (offset + n) := by omega
    rw [snd, Option.map_some, hrest]

/-- **The poll** takes the request out of the queue; one of no bytes is finished at once. -/
theorem Served.poll (h : Served .poll tx) : Served .alloc tx.poll := by
  rcases tx.poll_cases with ⟨heq, -⟩ | ⟨send, q, hdlen, hitems, heq⟩
  · rw [heq]
    exact h.goTo rfl trivial
  · obtain ⟨t, n, serving, sender, rfl, hq, -, complete⟩ := h.stage.queued_of_items hitems
    rw [heq]
    refine ⟨h.holder, h.fits, trivial, ?_⟩
    rcases Nat.eq_zero_or_pos n with rfl | hpos
    · exact .finished t 0 ⟨serving.mutex, serving.fits, serving.bytes⟩ sender hq rfl (.inr rfl)
    · exact .sending t n 0 ⟨serving.mutex, serving.fits, serving.bytes⟩ sender hq rfl hpos complete

/-- The loop leaves the tasks in `USB_send` and the mutex alone. -/
theorem task_senders {ρ : Type} {s s' : State ρ τ} {n : ℕ} (htask : s.task n = some s') :
    s'.tx.senders = s.tx.senders ∧ s'.tx.SendMutex = s.tx.SendMutex := by
  cases State.taskStep htask with
  | writeEP hwrite =>
      obtain ⟨p, -, -, rfl⟩ := Sending.write_cases hwrite
      exact ⟨rfl, rfl⟩
  | advance =>
      simp only [Sending.advance]
      split_ifs <;> exact ⟨rfl, rfl⟩
  | @poll v rx tx =>
      rcases tx.poll_cases with ⟨heq, -⟩ | ⟨send, q, -, -, heq⟩ <;> simp only [heq, and_self]
  | alloc | read | skip | copy | count | clear | clearNone | enqueue | write | writeNone | writeSkip
  | setBusy => exact ⟨rfl, rfl⟩

end Task

section Run
variable {ρ τ : Type} {s s' : State ρ τ}

theorem Served.task {n : ℕ} (h : Served s.pc s.tx) (htask : s.task n = some s') :
    Served s'.pc s'.tx := by
  cases State.taskStep htask with
  | write hdlen => exact h.goTo rfl hdlen
  | writeNone hdlen => exact h.goTo rfl ⟨hdlen, Nat.zero_le _⟩
  | setBusy => exact h.goTo rfl h.write
  | writeEP hwrite => exact h.writeEP hwrite
  | advance => exact h.advance
  | poll => exact h.poll
  | alloc | read | skip | copy | count | clear | clearNone | enqueue | writeSkip =>
      exact h.goTo rfl trivial

/-- The interrupt and the other tasks leave the request alone. -/
theorem Served.event {pc : Pc} {tx : Sending τ} (h : Served pc tx) (event : Bool) :
    Served pc { tx with xCDCEventSemaphore := event } where
  holder := h.holder
  fits := h.fits
  write := h.write
  stage := h.stage.frame event fun _ _ => ⟨.inl rfl, rfl⟩

theorem Served.init : Served .alloc (Sending.init τ) where
  holder := by
    intro t ht
    cases ht
  fits := nofun
  write := trivial
  stage := .free rfl rfl ⟨rfl, rfl, rfl⟩

/-- What was accepted begins the requests, wherever the last one is. -/
theorem Served.accepted_begins {pc : Pc} {tx : Sending τ} (h : Served pc tx) :
    tx.accepted <+: tx.requests.flatMap Prod.snd := by
  cases h.stage with
  | free mutex bytes => rw [bytes]
  | taken t n serving => exact serving.accepted_begins (Nat.zero_le n)
  | queued t n serving => exact serving.accepted_begins (Nat.zero_le n)
  | sending t n offset serving sender queue snd lt =>
      apply serving.accepted_begins
      have hwrite := h.write
      have hdlen : tx.snd.dlen = n - offset := by rw [snd]
      cases pc with
      | advance k =>
          have hle : k ≤ tx.snd.dlen := hwrite.2
          change offset + k ≤ n
          omega
      | alloc | test | copy | count | clear | enqueue | write | setBusy | writeEP | poll =>
          exact lt.le
  | finished t n serving => exact serving.accepted_begins le_rfl
  | given t n serving => exact serving.accepted_begins le_rfl

variable [DecidableEq ρ] [DecidableEq τ]

/-- **Every step keeps the request in one place, with what was accepted of it.** -/
theorem Served.step {e : Ev ρ τ} (h : Served s.pc s.tx) (hstep : step s e = some s') :
    Served s'.pc s'.tx := by
  cases e with
  | usb e =>
      rw [← Option.some_inj.mp hstep]
      exact h.event true
  | lineCode =>
      rw [← Option.some_inj.mp hstep]
      exact h.event true
  | rom bytes | connection flags =>
      rw [← Option.some_inj.mp hstep]
      exact h
  | task n => exact h.task hstep
  | receiveCall r length | reader r =>
      obtain ⟨rx, -, rfl⟩ := Option.map_eq_some_iff.mp hstep
      exact h
  | sendCall t data length =>
      obtain ⟨tx, htx, rfl⟩ := Option.map_eq_some_iff.mp hstep
      exact h.call htx
  | sender t =>
      obtain ⟨tx, htx, rfl⟩ := Option.map_eq_some_iff.mp hstep
      exact h.goOn htx
  | store t data =>
      obtain ⟨tx, htx, rfl⟩ := Option.map_eq_some_iff.mp hstep
      exact h.store htx

theorem served_of_run {rx_buff : Buffer transferSize} {es : List (Ev ρ τ)}
    (hrun : run Cdc.step (.init ρ τ rx_buff) es = some s) : Served s.pc s.tx :=
  run_induction_all (I := fun s => Served s.pc s.tx) (fun _ _ _ h hstep => h.step hstep)
    Served.init hrun

/-- **The accepted bytes.** In every run they are the beginning of the requests, in the order in
which the callers took the mutex; a call that returns has had all of its own request, the last
one, accepted; and `WriteEP` reads only the buffer of a caller that waits. -/
theorem accepted_prefix {rx_buff : Buffer transferSize} {es : List (Ev ρ τ)}
    (hrun : run Cdc.step (.init ρ τ rx_buff) es = some s) :
    s.tx.accepted <+: s.tx.requests.flatMap Prod.snd ∧
    (∀ t s', Cdc.step s (.sender t) = some s' → s'.tx.senders t = .idle →
      ∃ n before, s.tx.senders t = .give n ∧
        s.tx.requests = before ++ [(t, (s.tx.memory t).take n)] ∧
        s.tx.accepted = s.tx.requests.flatMap Prod.snd) ∧
    (s.pc = .writeEP → ∃ t n offset, s.tx.snd.dptr = some ⟨t, offset⟩ ∧
      (s.tx.senders t).Waits n ∧ offset + s.tx.snd.dlen = n ∧ n ≤ (s.tx.memory t).length) := by
  have h := served_of_run hrun
  refine ⟨?_, ?_, ?_⟩
  · exact h.accepted_begins
  · intro t s' hstep hidle
    obtain ⟨tx, hgo, rfl⟩ := Option.map_eq_some_iff.mp hstep
    obtain ⟨n, hs⟩ := give_of_idle hgo hidle
    have hmutex : s.tx.SendMutex = some t := h.holder t (by rw [hs]; trivial)
    obtain ⟨serving, hbytes, -⟩ := h.stage.given_of_give hs hmutex
    obtain ⟨before, hrequests, -⟩ := serving.bytes
    exact ⟨n, before, hs, hrequests, hbytes⟩
  · intro hpc
    have hwrite := h.write
    rw [hpc] at hwrite
    obtain ⟨t, n, offset, serving, sender, -, snd, lt, -⟩ := h.stage.sending_of_pos hwrite
    refine ⟨t, n, offset, by rw [snd], sender, ?_, serving.fits⟩
    rw [snd]
    exact Nat.add_sub_of_le lt.le

end Run

/-- A request of two bytes: `WriteEP` accepts one, then the other. -/
def twoWrites : List (Ev Unit Unit) :=
  [.sendCall () [79, 75] 2, .sender (), .sender (), .sender (), .connection ⟨true, false⟩] ++
    List.replicate 4 (.task 0) ++ List.replicate 7 (.task 1) ++ [.usb .IN] ++
    List.replicate 6 (.task 1) ++ [.sender ()]

theorem accepted_prefix_twoWrites : ∃ s s',
    run step (.init Unit Unit ⟨List.replicate transferSize 0, List.length_replicate⟩) twoWrites =
        some s ∧
      step s (.sender ()) = some s' ∧ s'.tx.senders () = .idle ∧
      s.tx.accepted = [79, 75] ∧ s.tx.accepted = s.tx.requests.flatMap Prod.snd := by
  obtain ⟨s, hrun, hgive, haccepted⟩ := exists_of_run
    (P := fun s : State Unit Unit => s.tx.senders () = .give 2 ∧ s.tx.accepted = [79, 75])
    (show (run step (.init Unit Unit ⟨List.replicate transferSize 0, List.length_replicate⟩)
      twoWrites).any _ = true by decide +kernel)
  have hstep : ∃ s', step s (.sender ()) = some s' ∧ s'.tx.senders () = .idle := by
    simp [step, Sending.goOn, hgive]
  obtain ⟨s', hstep, hidle⟩ := hstep
  have h := accepted_prefix hrun
  obtain ⟨n, before, -, -, hall⟩ := h.2.1 () s' hstep hidle
  exact ⟨s, s', hrun, hstep, hidle, haccepted, hall⟩

end Cdc

end Plotter
