import Plotter.Lib.Ownership
import Plotter.Lib.Queue
import Plotter.Lib.Transition
import Plotter.Vcom
import Mathlib.Data.List.FinRange
import Mathlib.Logic.Function.Basic

/-!
# The USB task

`cdc_task` after its initialisation, together with any number of tasks in `USB_receive` and
`USB_send` and with the USB interrupt. A step ends where another party can come in: at a
queue, a semaphore, a shared variable or a critical section. What is left open (who runs
next, what the host sends, how much `WriteEP` accepts, the state of the connection) is in the
choice of the events.

A receive buffer is the number of a row of `g_rxBuff`; a pointer of the send path is a place
in the buffer of a caller. `transfers`, `received`, `requests` and `accepted` are histories
that no code reads.

## Main definitions

* `Receiving`, `Sending`: the two paths, with the tasks that use them.
* `Pc`: the places in the loop of `cdc_task`.
* `State`, `Ev`, `step`: the system.
* `TaskStep`: what a step of `cdc_task` can do.
-/

namespace Plotter

open Lib

/-- `RCV_BUFFERS`. -/
abbrev receiveBuffers : ℕ := 16

/-- A `SendItem` whose pointer has type `π`. -/
structure SendItem (π : Type) where
  dptr : π
  dlen : ℕ
  deriving DecidableEq, Repr

namespace Cdc

/-- A pointer into the buffer that a caller of `USB_send` has passed. -/
structure Pointer (τ : Type) where
  caller : τ
  offset : ℕ
  deriving DecidableEq, Repr

/-! ## The receive path -/

/-- Where a task is in `USB_receive`. -/
inductive Reader
  | idle
  /-- In `xQueueReceive(ReceiveQueue, &rec, portMAX_DELAY)`. -/
  | take (length : ℕ)
  /-- Before the `memcpy`. -/
  | copy (rec : SendItem (Fin receiveBuffers)) (length : ℕ)
  /-- In `xQueueSend(AllocQueue, &rec, portMAX_DELAY)`; `data` is what was copied. -/
  | back (rec : SendItem (Fin receiveBuffers)) (data : List UInt8)
  deriving DecidableEq

/-- The buffers, their queues, the local `rcv` of `cdc_task`, and the tasks in
`USB_receive`. -/
structure Receiving (ρ : Type) where
  g_rxBuff : Fin receiveBuffers → Buffer receiveBufferSize
  AllocQueue : Queue receiveBuffers (SendItem (Fin receiveBuffers))
  ReceiveQueue : Queue receiveBuffers (SendItem (Fin receiveBuffers))
  rcv : SendItem (Option (Fin receiveBuffers))
  readers : ρ → Reader
  /-- What `ReadEP` has delivered. -/
  transfers : List Transfer
  /-- What the calls of `USB_receive` have returned. -/
  received : List UInt8

namespace Receiving
variable {ρ : Type}

/-- After the initialisation loop. -/
def init (ρ : Type) : Receiving ρ where
  g_rxBuff _ := ⟨List.replicate receiveBufferSize 0, List.length_replicate⟩
  AllocQueue := ⟨(List.finRange receiveBuffers).map fun i => ⟨i, 0⟩, by simp⟩
  ReceiveQueue := .empty
  rcv := ⟨none, 0⟩
  readers _ := .idle
  transfers := []
  received := []

/-- `if(rcv.dptr == NULL) { if(xQueueReceive(AllocQueue, &rcv, 0) == pdFALSE) .. }`. -/
def alloc (rx : Receiving ρ) : Receiving ρ :=
  match rx.rcv.dptr with
  | some _ => rx
  | none =>
    match rx.AllocQueue.receive with
    | some (bf, q) => { rx with AllocQueue := q, rcv := ⟨some bf.dptr, bf.dlen⟩ }
    | none => { rx with rcv := { rx.rcv with dptr := none } }

/-- The `memcpy` of `vcom_bread`, with the number of bytes it copies. -/
def copy (rx : Receiving ρ) (v : Vcom) : Option (Receiving ρ × ℕ) := do
  let pBuf ← rx.rcv.dptr
  let cnt := v.cnt receiveBufferSize
  let buf ← (rx.g_rxBuff pBuf).memcpy (v.rx_buff.bytes.take cnt)
  return ({ rx with g_rxBuff := Function.update rx.g_rxBuff pBuf buf }, cnt)

/-- `rcv.dlen = rdCnt`, and the send to `ReceiveQueue` without waiting. -/
def enqueue (rx : Receiving ρ) (rdCnt : ℕ) : Receiving ρ :=
  match rx.rcv.dptr with
  | none => rx
  | some pBuf =>
    match rx.ReceiveQueue.send ⟨pBuf, rdCnt⟩ with
    | some q => { rx with ReceiveQueue := q, rcv := ⟨none, rdCnt⟩ }
    | none => { rx with rcv := ⟨some pBuf, rdCnt⟩ }

variable [DecidableEq ρ]

/-- A call of `USB_receive`. -/
def call (rx : Receiving ρ) (r : ρ) (length : ℕ) : Option (Receiving ρ) :=
  match rx.readers r with
  | .idle => some { rx with readers := Function.update rx.readers r (.take length) }
  | _ => none

/-- On with `USB_receive`. -/
def goOn (rx : Receiving ρ) (r : ρ) : Option (Receiving ρ) :=
  match rx.readers r with
  | .idle => none
  | .take length => do
    let (rec, q) ← rx.ReceiveQueue.receive
    return { rx with
      ReceiveQueue := q
      readers := Function.update rx.readers r (.copy rec length) }
  | .copy rec length =>
    let len := if rec.dlen > length then length else rec.dlen
    let data := (rx.g_rxBuff rec.dptr).bytes.take len
    some { rx with readers := Function.update rx.readers r (.back rec data) }
  | .back rec data => do
    let q ← rx.AllocQueue.send rec
    return { rx with
      AllocQueue := q
      readers := Function.update rx.readers r .idle
      received := rx.received ++ data }

/-! What the operations can do. -/

section Cases
omit [DecidableEq ρ]
variable {rx rx' : Receiving ρ}

theorem alloc_cases (rx : Receiving ρ) :
    rx.alloc = rx ∨ ∃ bf q, rx.rcv.dptr = none ∧ rx.AllocQueue.items = bf :: q.items ∧
      rx.alloc = { rx with AllocQueue := q, rcv := ⟨some bf.dptr, bf.dlen⟩ } := by
  cases hdptr : rx.rcv.dptr with
  | some b =>
      left
      rw [alloc, hdptr]
  | none =>
      cases hqueue : rx.AllocQueue.receive with
      | none =>
          left
          simp only [alloc, hdptr, hqueue]
          rw [← hdptr]
      | some p =>
          right
          obtain ⟨bf, q⟩ := p
          refine ⟨bf, q, rfl, Queue.receive_eq_some_iff.mp hqueue, ?_⟩
          simp only [alloc, hdptr, hqueue]

theorem copy_cases {v : Vcom} {cnt : ℕ} (h : rx.copy v = some (rx', cnt)) :
    cnt = min v.rx_count receiveBufferSize ∧ ∃ pBuf buf, rx.rcv.dptr = some pBuf ∧
      buf.bytes = v.rx_buff.bytes.take cnt ++
        (rx.g_rxBuff pBuf).bytes.drop (v.rx_buff.bytes.take cnt).length ∧
      rx' = { rx with g_rxBuff := Function.update rx.g_rxBuff pBuf buf } := by
  rw [copy, Option.bind_eq_bind] at h
  obtain ⟨pBuf, hdptr, h⟩ := Option.bind_eq_some_iff.mp h
  obtain ⟨buf, hbuf, h⟩ := Option.bind_eq_some_iff.mp h
  obtain ⟨rfl, rfl⟩ := Prod.mk.inj (Option.some_inj.mp h)
  refine ⟨v.cnt_eq_min _, pBuf, buf, hdptr, ?_, rfl⟩
  rw [Buffer.memcpy] at hbuf
  split_ifs at hbuf
  rw [← Option.some_inj.mp hbuf]

/-- A send that succeeds hands the buffer on. -/
theorem enqueue_eq {rdCnt : ℕ} {pBuf : Fin receiveBuffers} {q} (hdptr : rx.rcv.dptr = some pBuf)
    (hsend : rx.ReceiveQueue.send ⟨pBuf, rdCnt⟩ = some q) :
    rx.enqueue rdCnt = { rx with ReceiveQueue := q, rcv := ⟨none, rdCnt⟩ } := by
  simp only [enqueue, hdptr, hsend]

/-- The loop writes to no buffer here, and leaves the tasks in `USB_receive` alone. -/
theorem alloc_frame (rx : Receiving ρ) : rx.alloc.g_rxBuff = rx.g_rxBuff ∧
    rx.alloc.readers = rx.readers ∧ rx.alloc.transfers = rx.transfers := by
  rcases rx.alloc_cases with heq | ⟨bf, q, -, -, heq⟩ <;> rw [heq] <;> exact ⟨rfl, rfl, rfl⟩

theorem enqueue_frame (rx : Receiving ρ) (rdCnt : ℕ) :
    (rx.enqueue rdCnt).g_rxBuff = rx.g_rxBuff ∧ (rx.enqueue rdCnt).readers = rx.readers ∧
      (rx.enqueue rdCnt).transfers = rx.transfers := by
  rw [enqueue]
  split
  · exact ⟨rfl, rfl, rfl⟩
  · split <;> exact ⟨rfl, rfl, rfl⟩

end Cases

theorem call_cases {rx rx' : Receiving ρ} {r : ρ} {length : ℕ} (h : rx.call r length = some rx') :
    rx.readers r = .idle ∧
      rx' = { rx with readers := Function.update rx.readers r (.take length) } := by
  rw [call] at h
  split at h
  · rename_i hidle
    exact ⟨hidle, (Option.some_inj.mp h).symm⟩
  · cases h

theorem goOn_cases {rx rx' : Receiving ρ} {r : ρ} (h : rx.goOn r = some rx') :
    (∃ length rec q, rx.readers r = .take length ∧ rx.ReceiveQueue.items = rec :: q.items ∧
      rx' = { rx with
        ReceiveQueue := q
        readers := Function.update rx.readers r (.copy rec length) }) ∨
    (∃ rec length, rx.readers r = .copy rec length ∧
      rx' = { rx with
        readers := Function.update rx.readers r
          (.back rec ((rx.g_rxBuff rec.dptr).bytes.take (min rec.dlen length))) }) ∨
    (∃ rec data q, rx.readers r = .back rec data ∧ rx.AllocQueue.send rec = some q ∧
      rx' = { rx with
        AllocQueue := q
        readers := Function.update rx.readers r .idle
        received := rx.received ++ data }) := by
  cases hr : rx.readers r with
  | idle => simp [goOn, hr] at h
  | take length =>
      simp only [goOn, hr, Option.bind_eq_bind] at h
      obtain ⟨⟨rec, q⟩, hq, h⟩ := Option.bind_eq_some_iff.mp h
      exact .inl ⟨length, rec, q, rfl, Queue.receive_eq_some_iff.mp hq,
        (Option.some_inj.mp h).symm⟩
  | copy rec length =>
      simp only [goOn, hr] at h
      refine .inr (.inl ⟨rec, length, rfl, ?_⟩)
      have hlen : (if rec.dlen > length then length else rec.dlen) = min rec.dlen length := by
        split_ifs <;> omega
      rw [← Option.some_inj.mp h, hlen]
  | back rec data =>
      simp only [goOn, hr, Option.bind_eq_bind] at h
      obtain ⟨q, hq, h⟩ := Option.bind_eq_some_iff.mp h
      exact .inr (.inr ⟨rec, data, q, rfl, hq, (Option.some_inj.mp h).symm⟩)

end Receiving

/-! ## The send path -/

/-- Where a task is in `USB_send`. -/
inductive Sender
  | idle
  /-- In `xSemaphoreTake(SendMutex, portMAX_DELAY)`. -/
  | take (length : ℕ)
  /-- In `xQueueSend(SendQueue, &send, portMAX_DELAY)`. -/
  | queue (length : ℕ)
  /-- Before `xSemaphoreGive(xCDCEventSemaphore)`. -/
  | wake (length : ℕ)
  /-- In `xSemaphoreTake(SendComplete, portMAX_DELAY)`. -/
  | wait (length : ℕ)
  /-- Before `xSemaphoreGive(SendMutex)`. -/
  | give (length : ℕ)
  deriving DecidableEq, Repr

/-- The semaphores, the queue, the local `snd` of `cdc_task`, and the tasks in `USB_send` with
their buffers. -/
structure Sending (τ : Type) where
  SendMutex : Option τ
  SendQueue : Queue 1 (SendItem (Pointer τ))
  SendComplete : Bool
  xCDCEventSemaphore : Bool
  snd : SendItem (Option (Pointer τ))
  senders : τ → Sender
  /-- The memory behind the pointer that a caller passes. -/
  memory : τ → List UInt8
  /-- The requests, in the order in which their callers took `SendMutex`. -/
  requests : List (τ × List UInt8)
  /-- What `WriteEP` has accepted. -/
  accepted : List UInt8

namespace Sending
variable {τ : Type}

/-- After the initialisation. -/
def init (τ : Type) : Sending τ where
  SendMutex := none
  SendQueue := .empty
  SendComplete := false
  xCDCEventSemaphore := false
  snd := ⟨none, 0⟩
  senders _ := .idle
  memory _ := []
  requests := []
  accepted := []

/-- `snd.dlen` bytes from `snd.dptr` on. -/
def offered (tx : Sending τ) : Option (List UInt8) :=
  tx.snd.dptr.map fun p => ((tx.memory p.caller).drop p.offset).take tx.snd.dlen

/-- `WriteEP` accepts the first `n` bytes it is offered. -/
def write (tx : Sending τ) (n : ℕ) : Option (Sending τ) := do
  let bytes ← tx.offered
  if n ≤ tx.snd.dlen then return { tx with accepted := tx.accepted ++ bytes.take n } else none

/-- `snd.dptr += sndCnt`, `snd.dlen -= sndCnt`, and the completion. -/
def advance (tx : Sending τ) (sndCnt : ℕ) : Sending τ :=
  let snd : SendItem (Option (Pointer τ)) :=
    ⟨tx.snd.dptr.map fun p => { p with offset := p.offset + sndCnt }, tx.snd.dlen - sndCnt⟩
  if snd.dlen = 0 then { tx with snd := snd, SendComplete := true } else { tx with snd := snd }

/-- `if(snd.dlen == 0) { if(xQueueReceive(SendQueue, &snd, 0) != pdTRUE) snd.dlen = 0; }`. -/
def poll (tx : Sending τ) : Sending τ :=
  if tx.snd.dlen = 0 then
    match tx.SendQueue.receive with
    | some (send, q) => { tx with SendQueue := q, snd := ⟨some send.dptr, send.dlen⟩ }
    | none => { tx with snd := { tx.snd with dlen := 0 } }
  else tx

variable [DecidableEq τ]

/-- A call of `USB_send` with a pointer to `data`. -/
def call (tx : Sending τ) (t : τ) (data : List UInt8) (length : ℕ) : Option (Sending τ) :=
  match tx.senders t with
  | .idle =>
    if length ≤ data.length ∧ length < 2 ^ 32 then
      some { tx with
        memory := Function.update tx.memory t data
        senders := Function.update tx.senders t (.take length) }
    else none
  | _ => none

/-- A task that is not in `USB_send` writes to its buffer. -/
def store (tx : Sending τ) (t : τ) (data : List UInt8) : Option (Sending τ) :=
  match tx.senders t with
  | .idle => some { tx with memory := Function.update tx.memory t data }
  | _ => none

/-- On with `USB_send`. -/
def goOn (tx : Sending τ) (t : τ) : Option (Sending τ) :=
  match tx.senders t with
  | .idle => none
  | .take length =>
    if tx.SendMutex = none then
      some { tx with
        SendMutex := some t
        requests := tx.requests ++ [(t, (tx.memory t).take length)]
        senders := Function.update tx.senders t (.queue length) }
    else none
  | .queue length => do
    let q ← tx.SendQueue.send ⟨⟨t, 0⟩, length⟩
    return { tx with SendQueue := q, senders := Function.update tx.senders t (.wake length) }
  | .wake length =>
    some { tx with
      xCDCEventSemaphore := true
      senders := Function.update tx.senders t (.wait length) }
  | .wait length =>
    if tx.SendComplete then
      some { tx with
        SendComplete := false
        senders := Function.update tx.senders t (.give length) }
    else none
  | .give _ =>
    some { tx with SendMutex := none, senders := Function.update tx.senders t .idle }

/-! What the operations can do. -/

section Cases
omit [DecidableEq τ]
variable {tx tx' : Sending τ}

theorem write_cases {n : ℕ} (h : tx.write n = some tx') : ∃ p, tx.snd.dptr = some p ∧
    n ≤ tx.snd.dlen ∧ tx' = { tx with
      accepted := tx.accepted ++ ((tx.memory p.caller).drop p.offset).take n } := by
  rw [write, Option.bind_eq_bind] at h
  obtain ⟨bytes, hbytes, h⟩ := Option.bind_eq_some_iff.mp h
  obtain ⟨p, hp, rfl⟩ := Option.map_eq_some_iff.mp hbytes
  split_ifs at h with hle
  refine ⟨p, hp, hle, ?_⟩
  rw [← Option.some_inj.mp h, List.take_take, min_eq_left hle]

theorem poll_cases (tx : Sending τ) : (tx.poll = tx ∧ (0 < tx.snd.dlen ∨ tx.SendQueue.items = [])) ∨
    ∃ send q, tx.snd.dlen = 0 ∧ tx.SendQueue.items = send :: q.items ∧
      tx.poll = { tx with SendQueue := q, snd := ⟨some send.dptr, send.dlen⟩ } := by
  by_cases hdlen : tx.snd.dlen = 0
  · cases hqueue : tx.SendQueue.receive with
    | none =>
        refine .inl ⟨?_, .inr (Queue.receive_eq_none_iff.mp hqueue)⟩
        rw [poll, if_pos hdlen]
        simp only [hqueue]
        rw [← hdlen]
    | some x =>
        obtain ⟨send, q⟩ := x
        refine .inr ⟨send, q, hdlen, Queue.receive_eq_some_iff.mp hqueue, ?_⟩
        rw [poll, if_pos hdlen]
        simp only [hqueue]
  · exact .inl ⟨if_neg hdlen, .inl (Nat.pos_of_ne_zero hdlen)⟩

end Cases

theorem call_cases {tx tx' : Sending τ} {t : τ} {data : List UInt8} {length : ℕ}
    (h : tx.call t data length = some tx') : tx.senders t = .idle ∧ length ≤ data.length ∧
      tx' = { tx with
        memory := Function.update tx.memory t data
        senders := Function.update tx.senders t (.take length) } := by
  rw [call] at h
  split at h
  · rename_i hidle
    split_ifs at h with hlen
    exact ⟨hidle, hlen.1, (Option.some_inj.mp h).symm⟩
  · cases h

theorem store_cases {tx tx' : Sending τ} {t : τ} {data : List UInt8}
    (h : tx.store t data = some tx') : tx.senders t = .idle ∧
      tx' = { tx with memory := Function.update tx.memory t data } := by
  rw [store] at h
  split at h
  · rename_i hidle
    exact ⟨hidle, (Option.some_inj.mp h).symm⟩
  · cases h

theorem goOn_cases {tx tx' : Sending τ} {t : τ} (h : tx.goOn t = some tx') :
    (∃ length, tx.senders t = .take length ∧ tx.SendMutex = none ∧ tx' = { tx with
      SendMutex := some t
      requests := tx.requests ++ [(t, (tx.memory t).take length)]
      senders := Function.update tx.senders t (.queue length) }) ∨
    (∃ length q, tx.senders t = .queue length ∧
      q.items = tx.SendQueue.items ++ [⟨⟨t, 0⟩, length⟩] ∧ tx' = { tx with
        SendQueue := q
        senders := Function.update tx.senders t (.wake length) }) ∨
    (∃ length, tx.senders t = .wake length ∧ tx' = { tx with
      xCDCEventSemaphore := true
      senders := Function.update tx.senders t (.wait length) }) ∨
    (∃ length, tx.senders t = .wait length ∧ tx.SendComplete = true ∧ tx' = { tx with
      SendComplete := false
      senders := Function.update tx.senders t (.give length) }) ∨
    (∃ length, tx.senders t = .give length ∧ tx' = { tx with
      SendMutex := none
      senders := Function.update tx.senders t .idle }) := by
  cases hs : tx.senders t with
  | idle =>
      simp only [goOn, hs] at h
      cases h
  | take length =>
      simp only [goOn, hs] at h
      split_ifs at h with hmutex
      exact .inl ⟨length, rfl, hmutex, (Option.some_inj.mp h).symm⟩
  | queue length =>
      simp only [goOn, hs, Option.bind_eq_bind] at h
      obtain ⟨q, hq, h⟩ := Option.bind_eq_some_iff.mp h
      exact .inr (.inl ⟨length, q, rfl, (Queue.send_eq_some_iff.mp hq).2,
        (Option.some_inj.mp h).symm⟩)
  | wake length =>
      simp only [goOn, hs] at h
      exact .inr (.inr (.inl ⟨length, rfl, (Option.some_inj.mp h).symm⟩))
  | wait length =>
      simp only [goOn, hs] at h
      split_ifs at h with htoken
      exact .inr (.inr (.inr (.inl ⟨length, rfl, htoken, (Option.some_inj.mp h).symm⟩)))
  | give length =>
      simp only [goOn, hs] at h
      exact .inr (.inr (.inr (.inr ⟨length, rfl, (Option.some_inj.mp h).symm⟩)))

end Sending

/-! ## The system -/

/-- Where `cdc_task` is in its loop. -/
inductive Pc
  /-- At the top. -/
  | alloc
  /-- Before the test of `rcv.dptr` and, in `vcom_bread`, of `rx_count`. -/
  | test
  /-- Before the `memcpy` of `vcom_bread`. -/
  | copy
  /-- Before `rx_rd_count += cnt`. -/
  | count (cnt : ℕ)
  /-- Before the critical section of `vcom_bread`. -/
  | clear (cnt : ℕ)
  /-- Before the send to `ReceiveQueue`. -/
  | enqueue (rdCnt : ℕ)
  /-- Before the test of `snd.dlen` and, in `vcom_write`, of the flags. -/
  | write
  /-- Before `tx_flags |= VCOM_TX_BUSY`. -/
  | setBusy
  /-- Before the critical section of `vcom_write`. -/
  | writeEP
  /-- Behind the call of `vcom_write`. -/
  | advance (sndCnt : ℕ)
  /-- Before the poll of `SendQueue`. -/
  | poll
  deriving DecidableEq, Repr

/-- The driver, `cdc_task` and the two paths. -/
structure State (ρ τ : Type) where
  vcom : Vcom
  pc : Pc
  rx : Receiving ρ
  tx : Sending τ

inductive Ev (ρ τ : Type)
  /-- The interrupt, for an event of an endpoint. -/
  | usb (e : UsbEvent)
  /-- The ROM touches `rx_buff`. -/
  | rom (bytes : Buffer transferSize)
  /-- The interrupt, for `VCOM_SetLineCode`. -/
  | lineCode
  /-- The connection comes and goes. -/
  | connection (flags : TxFlags)
  /-- On with `cdc_task`; `WriteEP` accepts `n` bytes if it is called. -/
  | task (n : ℕ)
  | receiveCall (r : ρ) (length : ℕ)
  | reader (r : ρ)
  | sendCall (t : τ) (data : List UInt8) (length : ℕ)
  | sender (t : τ)
  | store (t : τ) (data : List UInt8)

namespace State
variable {ρ τ : Type}

/-- After the initialisation; nothing is known of `rx_buff`. -/
def init (ρ τ : Type) (rx_buff : Buffer transferSize) : State ρ τ where
  vcom := { rx_buff := rx_buff }
  pc := .alloc
  rx := .init ρ
  tx := .init τ

/-- `USB_IRQHandler`. -/
def interrupt (s : State ρ τ) (e : UsbEvent) : State ρ τ :=
  { s with
    vcom := s.vcom.handle e
    rx.transfers := match e with
      | .OUT data => s.rx.transfers ++ [data]
      | _ => s.rx.transfers
    tx.xCDCEventSemaphore := true }

/-- On with the loop of `cdc_task`. -/
def task (s : State ρ τ) (n : ℕ) : Option (State ρ τ) :=
  match s.pc with
  | .alloc => some { s with rx := s.rx.alloc, pc := .test }
  | .test =>
    some { s with
      pc := if s.rx.rcv.dptr.isSome ∧ s.vcom.rx_count ≠ 0 then .copy else .write }
  | .copy => do
    let (rx, cnt) ← s.rx.copy s.vcom
    return { s with rx := rx, pc := .count cnt }
  | .count cnt => some { s with vcom := s.vcom.count cnt, pc := .clear cnt }
  | .clear cnt =>
    some { s with vcom := s.vcom.clear, pc := if cnt > 0 then .enqueue cnt else .write }
  | .enqueue rdCnt => some { s with rx := s.rx.enqueue rdCnt, pc := .write }
  | .write =>
    some { s with
      pc := if s.tx.snd.dlen > 0 then if s.vcom.writable then .setBusy else .advance 0
        else .poll }
  | .setBusy => some { s with vcom := s.vcom.setBusy, pc := .writeEP }
  | .writeEP => do
    let tx ← s.tx.write n
    return { s with tx := tx, pc := .advance n }
  | .advance sndCnt => some { s with tx := s.tx.advance sndCnt, pc := .poll }
  | .poll => some { s with tx := s.tx.poll, pc := .alloc }

end State

/-- One step of the system. -/
def step {ρ τ : Type} [DecidableEq ρ] [DecidableEq τ] (s : State ρ τ) :
    Ev ρ τ → Option (State ρ τ)
  | .usb e => some (s.interrupt e)
  | .rom bytes => some { s with vcom.rx_buff := bytes }
  | .lineCode => some { s with vcom := VCOM_SetLineCode s.vcom, tx.xCDCEventSemaphore := true }
  | .connection flags => some { s with vcom.tx_flags := flags }
  | .task n => s.task n
  | .receiveCall r length => (s.rx.call r length).map fun rx => { s with rx := rx }
  | .reader r => (s.rx.goOn r).map fun rx => { s with rx := rx }
  | .sendCall t data length => (s.tx.call t data length).map fun tx => { s with tx := tx }
  | .sender t => (s.tx.goOn t).map fun tx => { s with tx := tx }
  | .store t data => (s.tx.store t data).map fun tx => { s with tx := tx }

/-- What the loop does in one step, at each place. -/
inductive TaskStep {ρ τ : Type} (n : ℕ) : State ρ τ → State ρ τ → Prop
  | alloc {v rx tx} : TaskStep n ⟨v, .alloc, rx, tx⟩ ⟨v, .test, rx.alloc, tx⟩
  | read {v rx tx} (hdptr : rx.rcv.dptr.isSome) (hcount : v.rx_count ≠ 0) :
      TaskStep n ⟨v, .test, rx, tx⟩ ⟨v, .copy, rx, tx⟩
  | skip {v rx tx} (hnot : ¬ (rx.rcv.dptr.isSome ∧ v.rx_count ≠ 0)) :
      TaskStep n ⟨v, .test, rx, tx⟩ ⟨v, .write, rx, tx⟩
  | copy {v rx rx' tx cnt} (hcopy : rx.copy v = some (rx', cnt)) :
      TaskStep n ⟨v, .copy, rx, tx⟩ ⟨v, .count cnt, rx', tx⟩
  | count {v rx tx cnt} : TaskStep n ⟨v, .count cnt, rx, tx⟩ ⟨v.count cnt, .clear cnt, rx, tx⟩
  | clear {v rx tx cnt} (hpos : 0 < cnt) :
      TaskStep n ⟨v, .clear cnt, rx, tx⟩ ⟨v.clear, .enqueue cnt, rx, tx⟩
  | clearNone {v rx tx} : TaskStep n ⟨v, .clear 0, rx, tx⟩ ⟨v.clear, .write, rx, tx⟩
  | enqueue {v rx tx rdCnt} :
      TaskStep n ⟨v, .enqueue rdCnt, rx, tx⟩ ⟨v, .write, rx.enqueue rdCnt, tx⟩
  | write {v rx tx} (hdlen : 0 < tx.snd.dlen) (hwritable : v.writable = true) :
      TaskStep n ⟨v, .write, rx, tx⟩ ⟨v, .setBusy, rx, tx⟩
  | writeNone {v rx tx} (hdlen : 0 < tx.snd.dlen) (hwritable : v.writable = false) :
      TaskStep n ⟨v, .write, rx, tx⟩ ⟨v, .advance 0, rx, tx⟩
  | writeSkip {v rx tx} (hdlen : tx.snd.dlen = 0) :
      TaskStep n ⟨v, .write, rx, tx⟩ ⟨v, .poll, rx, tx⟩
  | setBusy {v rx tx} : TaskStep n ⟨v, .setBusy, rx, tx⟩ ⟨v.setBusy, .writeEP, rx, tx⟩
  | writeEP {v rx tx tx'} (hwrite : tx.write n = some tx') :
      TaskStep n ⟨v, .writeEP, rx, tx⟩ ⟨v, .advance n, rx, tx'⟩
  | advance {v rx tx sndCnt} :
      TaskStep n ⟨v, .advance sndCnt, rx, tx⟩ ⟨v, .poll, rx, tx.advance sndCnt⟩
  | poll {v rx tx} : TaskStep n ⟨v, .poll, rx, tx⟩ ⟨v, .alloc, rx, tx.poll⟩

theorem State.taskStep {ρ τ : Type} {s s' : State ρ τ} {n : ℕ} (h : s.task n = some s') :
    TaskStep n s s' := by
  obtain ⟨v, pc, rx, tx⟩ := s
  cases pc with
  | alloc =>
      rw [← Option.some_inj.mp h]
      exact .alloc
  | test =>
      rw [← Option.some_inj.mp h]
      by_cases hread : rx.rcv.dptr.isSome ∧ v.rx_count ≠ 0
      · simp only [if_pos hread]
        exact .read hread.1 hread.2
      · simp only [if_neg hread]
        exact .skip hread
  | copy =>
      obtain ⟨⟨rx', cnt⟩, hcopy, h⟩ := Option.bind_eq_some_iff.mp h
      rw [← Option.some_inj.mp h]
      exact .copy hcopy
  | count cnt =>
      rw [← Option.some_inj.mp h]
      exact .count
  | clear cnt =>
      rw [← Option.some_inj.mp h]
      rcases Nat.eq_zero_or_pos cnt with rfl | hpos
      · exact .clearNone
      · simp only [if_pos hpos]
        exact .clear hpos
  | enqueue rdCnt =>
      rw [← Option.some_inj.mp h]
      exact .enqueue
  | write =>
      rw [← Option.some_inj.mp h]
      rcases Nat.eq_zero_or_pos tx.snd.dlen with hdlen | hdlen
      · simp only [hdlen, gt_iff_lt, lt_irrefl, if_false]
        exact .writeSkip hdlen
      · cases hwritable : v.writable with
        | true =>
            simp only [if_pos hdlen, if_true]
            exact .write hdlen hwritable
        | false =>
            simp only [if_pos hdlen, Bool.false_eq_true, if_false]
            exact .writeNone hdlen hwritable
  | setBusy =>
      rw [← Option.some_inj.mp h]
      exact .setBusy
  | writeEP =>
      obtain ⟨tx', hwrite, h⟩ := Option.bind_eq_some_iff.mp h
      rw [← Option.some_inj.mp h]
      exact .writeEP hwrite
  | advance sndCnt =>
      rw [← Option.some_inj.mp h]
      exact .advance
  | poll =>
      rw [← Option.some_inj.mp h]
      exact .poll

end Cdc

end Plotter
