import Plotter.Cdc.Release
import Plotter.Firmware

/-!
# From the stepper task to the host

A reply goes with its NUL through `USB_send`, `SendQueue`, `snd` and `vcom_write` to the host.
What the host gets are the bytes of the replies in order: all of those whose call has
returned, and part of the one that is being sent. Since every reply ends in its only NUL, the
host can tell them apart.

## Main definitions

* `Firmware.requested`: the reply whose request has begun.
* `Firmware.Answers`: the requests are the replies.
* `Firmware.accepted_replies`: what the host gets.
-/

namespace Plotter

open Lib

namespace Cdc

/-- The call has taken `SendMutex`. -/
def Sender.requests : Sender → Bool
  | .idle | .take _ => false
  | .queue _ | .wake _ | .wait _ | .give _ => true

theorem Sender.requests_iff {x : Sender} : x.requests = true ↔ x.Holds := by
  cases x <;> simp [Sender.requests, Sender.Holds]

/-- The bytes of the requests, in the order in which they were made. -/
def Sending.requested {τ : Type} (tx : Sending τ) : List (List UInt8) := tx.requests.map Prod.snd

/-- The loop of `cdc_task` touches no request, and no buffer of a caller. -/
theorem task_requested {ρ τ : Type} {s s' : State ρ τ} {n : ℕ} (htask : s.task n = some s') :
    s'.tx.requests = s.tx.requests ∧ s'.tx.memory = s.tx.memory := by
  cases State.taskStep htask with
  | writeEP hwrite =>
      obtain ⟨p, -, -, rfl⟩ := Sending.write_cases hwrite
      exact ⟨rfl, rfl⟩
  | @advance v rx tx sndCnt =>
      rw [Sending.advance]
      split <;> exact ⟨rfl, rfl⟩
  | @poll v rx tx =>
      rcases tx.poll_cases with ⟨heq, -⟩ | ⟨send, q, -, -, heq⟩
      · rw [heq]
        exact ⟨rfl, rfl⟩
      · rw [heq]
        exact ⟨rfl, rfl⟩
  | alloc | read | skip | copy | count | clear | clearNone | enqueue | write | writeNone | writeSkip
  | setBusy => exact ⟨rfl, rfl⟩

/-- What was accepted lies between the requests before the last one and all of them, while the
last one is under way, and otherwise is all of them. -/
theorem Served.accepted_between {τ : Type} {pc : Pc} {tx : Sending τ} (h : Served pc tx) :
    (∀ t, tx.SendMutex = some t →
      tx.requested.dropLast.flatten <+: tx.accepted ∧ tx.accepted <+: tx.requested.flatten) ∧
    (tx.SendMutex = none → tx.accepted = tx.requested.flatten) := by
  have hflat : tx.requested.flatten = tx.requests.flatMap Prod.snd := rfl
  have hlast : ∀ t n k, Serving tx t n k → tx.requested.dropLast.flatten <+: tx.accepted := by
    intro t n k hserving
    obtain ⟨before, hrequests, haccepted⟩ := hserving.bytes
    have hdrop : tx.requested.dropLast = before.map Prod.snd := by
      rw [Sending.requested, hrequests, List.map_append]
      exact List.dropLast_concat
    rw [hdrop, haccepted]
    exact List.prefix_append _ _
  refine ⟨fun t hmutex => ⟨?_, hflat ▸ h.accepted_begins⟩, fun hmutex => ?_⟩
  · cases h.stage with
    | free hfree => rw [hfree] at hmutex; cases hmutex
    | taken t n hserving | queued t n hserving | finished t n hserving | given t n hserving =>
        exact hlast t n _ hserving
    | sending t n offset hserving => exact hlast t n _ hserving
  · cases h.stage with
    | free _ hbytes => exact hbytes
    | taken t n hserving | queued t n hserving | finished t n hserving | given t n hserving =>
        rw [hserving.mutex] at hmutex
        cases hmutex
    | sending t n offset hserving =>
        rw [hserving.mutex] at hmutex
        cases hmutex

end Cdc

namespace Firmware

/-- The reply whose request has begun and whose call has not returned. -/
def requested (f : Firmware) : List Reply :=
  if (f.usb.tx.senders ()).requests then f.sys.stepper.reply?.toList else []

/-- The requests are the replies, and a call of `USB_send` is that of the reply. -/
structure Answers (f : Firmware) : Prop where
  served : Cdc.Served f.usb.pc f.usb.tx
  requests : f.usb.tx.requested = (f.sys.usbOut ++ f.requested).map Reply.text
  call : ∀ n ∈ (f.usb.tx.senders ()).length?, ∃ r, f.sys.stepper.reply? = some r ∧
    n = r.length ∧ f.usb.tx.memory () = r.text

/-! ## One step -/

section Step
variable {f f' : Firmware}

theorem Answers.init (rx_buff : Buffer transferSize) (arrays : Reader) (parser : GCodeParser) :
    Answers (.init rx_buff arrays parser) where
  served := Cdc.Served.init
  requests := rfl
  call := fun _ hlength => absurd hlength (Option.not_mem_none _)

/-- A step that makes no request and stays in the call. -/
theorem Answers.onUsb (h : Answers f) {e : Cdc.Ev Unit Unit} {usb : Cdc.State Unit Unit}
    (hstep : Cdc.step f.usb e = some usb) (hrequests : usb.tx.requests = f.usb.tx.requests)
    (hmemory : usb.tx.memory = f.usb.tx.memory)
    (hsender : (usb.tx.senders ()).requests = (f.usb.tx.senders ()).requests ∧
      (usb.tx.senders ()).length? = (f.usb.tx.senders ()).length?) :
    Answers { f with usb := usb } where
  served := h.served.step hstep
  requests := by
    rw [Cdc.Sending.requested, requested]
    simp only [hrequests, hsender.1]
    exact h.requests
  call := by
    simp only [hmemory, hsender.2]
    exact h.call

/-- A step of the driver or of `cdc_task`. -/
theorem Answers.frame (h : Answers f) {e : Cdc.Ev Unit Unit} {usb : Cdc.State Unit Unit}
    (hstep : Cdc.step f.usb e = some usb) (hrequests : usb.tx.requests = f.usb.tx.requests)
    (hmemory : usb.tx.memory = f.usb.tx.memory) (hsenders : usb.tx.senders = f.usb.tx.senders) :
    Answers { f with usb := usb } :=
  h.onUsb hstep hrequests hmemory (by rw [hsenders]; exact ⟨rfl, rfl⟩)

/-- A step of the other tasks that ends no `USB_send`. -/
theorem Answers.onSys (h : Answers f) {e : Plotter.Ev} {sys : Sys}
    (hstep : Plotter.step f.sys e = some sys) (hreply : e.movesReply = false) :
    Answers { f with sys := sys } := by
  have husbOut := (frame_of_step hstep).usbOut_eq hreply
  have hstepper : ∀ n ∈ (f.usb.tx.senders ()).length?, sys.stepper = f.sys.stepper := by
    intro n hn
    obtain ⟨r, hr, -⟩ := h.call n hn
    exact stepper_of_replying hstep hr hreply
  refine ⟨h.served, ?_, ?_⟩
  · have hrequested : Firmware.requested { f with sys := sys } = f.requested := by
      rw [requested, requested]
      cases hs : f.usb.tx.senders () with
      | idle | take n => rfl
      | queue n | wake n | wait n | give n =>
          simp only [hstepper n (by rw [hs]; rfl), Cdc.Sender.requests, if_true]
    rw [hrequested]
    change f.usb.tx.requested = (sys.usbOut ++ _).map _
    rw [husbOut]
    exact h.requests
  · intro n hn
    obtain ⟨r, hr, hrest⟩ := h.call n hn
    exact ⟨r, (congrArg StepperPc.reply? (hstepper n hn)).trans hr, hrest⟩

/-- A call of `USB_send` with the reply. -/
theorem Answers.sendCall (h : Answers f) {r : Reply} (hr : f.sys.stepper.reply? = some r)
    {usb : Cdc.State Unit Unit} (hstep : Cdc.step f.usb (.sendCall () r.text r.length) = some usb) :
    Answers { f with usb := usb } := by
  have hserved := h.served.step hstep
  obtain ⟨tx, htx, rfl⟩ := Option.map_eq_some_iff.mp hstep
  obtain ⟨hidle, -, rfl⟩ := Cdc.Sending.call_cases htx
  refine ⟨hserved, ?_, ?_⟩
  · have hrequests := h.requests
    rw [requested, hidle] at hrequests
    rw [requested]
    simp only [Function.update_self]
    exact hrequests
  · simp only [Function.update_self]
    intro n hn
    exact ⟨r, hr, (Option.some_inj.mp hn).symm, rfl⟩

/-- On with `USB_send`; taking the mutex requests the reply. -/
theorem Answers.sender (h : Answers f) (hgive : ∀ n, f.usb.tx.senders () ≠ .give n)
    {usb : Cdc.State Unit Unit} (hstep : Cdc.step f.usb (.sender ()) = some usb) :
    Answers { f with usb := usb } := by
  have hserved := h.served.step hstep
  have hrequests := h.requests
  have hcall := h.call
  obtain ⟨tx, htx, rfl⟩ := Option.map_eq_some_iff.mp hstep
  rcases Cdc.Sending.goOn_cases htx with ⟨n, hs, -, rfl⟩ | ⟨n, q, hs, -, rfl⟩ | ⟨n, hs, rfl⟩ |
    ⟨n, hs, -, rfl⟩ | ⟨n, hs, rfl⟩
  · rw [hs] at hcall
    obtain ⟨r, hr, rfl, hmemory⟩ := hcall n rfl
    refine ⟨hserved, ?_, ?_⟩
    · rw [requested, hs] at hrequests
      have hnone : f.usb.tx.requested = f.sys.usbOut.map Reply.text :=
        hrequests.trans (by rw [Cdc.Sender.requests, if_neg Bool.false_ne_true, List.append_nil])
      rw [requested, Cdc.Sending.requested, List.map_append]
      simp only [Function.update_self, Cdc.Sender.requests, if_true, hr, Option.toList_some]
      rw [List.map_append, ← Cdc.Sending.requested, hnone, hmemory, ← r.length_text]
      rw [List.map_singleton, List.map_singleton, List.take_length]
    · simp only [Function.update_self]
      intro m hm
      exact ⟨r, hr, (Option.some_inj.mp hm).symm, hmemory⟩
  · exact h.onUsb hstep rfl rfl (by simp only [hs, Function.update_self]; exact ⟨rfl, rfl⟩)
  · exact h.onUsb hstep rfl rfl (by simp only [hs, Function.update_self]; exact ⟨rfl, rfl⟩)
  · exact h.onUsb hstep rfl rfl (by simp only [hs, Function.update_self]; exact ⟨rfl, rfl⟩)
  · exact absurd hs (hgive n)

/-- The call returns, and the reply is one of those that were sent. -/
theorem Answers.give (h : Answers f) {n : ℕ} (hs : f.usb.tx.senders () = .give n)
    {usb : Cdc.State Unit Unit} (husb : Cdc.step f.usb (.sender ()) = some usb) {sys : Sys}
    (hsys : Plotter.step f.sys .stepperSent = some sys) :
    Answers { f with usb := usb, sys := sys } := by
  have hserved := h.served.step husb
  have hrequests := h.requests
  obtain ⟨r, hr, husbOut⟩ := usbOut_of_sent hsys
  obtain ⟨tx, htx, rfl⟩ := Option.map_eq_some_iff.mp husb
  rcases Cdc.Sending.goOn_cases htx with ⟨m, hs', -⟩ | ⟨m, q, hs', -⟩ | ⟨m, hs', -⟩ | ⟨m, hs', -⟩ |
    ⟨m, -, rfl⟩
  · rw [hs] at hs'; cases hs'
  · rw [hs] at hs'; cases hs'
  · rw [hs] at hs'; cases hs'
  · rw [hs] at hs'; cases hs'
  · refine ⟨hserved, ?_, ?_⟩
    · rw [requested, hs, hr] at hrequests
      rw [requested]
      simp only [Function.update_self, Cdc.Sender.requests, Bool.false_eq_true, if_false,
        List.append_nil, husbOut]
      exact hrequests
    · simp only [Function.update_self]
      intro m hm
      cases hm

theorem Answers.parserTask (h : Answers f) {l : Locals} (hstep : f.parserTask l = some f') :
    Answers f' := by
  cases hpc : f.sys.parser with
  | delay | sending =>
      rw [Firmware.parserTask, hpc] at hstep
      obtain ⟨sys, hsys, rfl⟩ := onSys_cases hstep
      exact h.onSys hsys rfl
  | receive =>
      have hreader : ∀ {usb}, Cdc.step f.usb (.reader ()) = some usb → usb.tx = f.usb.tx := by
        intro usb husb
        obtain ⟨rx, -, rfl⟩ := Option.map_eq_some_iff.mp husb
        rfl
      rcases parserTask_cases hpc hstep with
        ⟨e, usb, he, husb, -, -, rfl⟩ | ⟨rec, data, -, ⟨usb, arrays, husb, -, -, rfl⟩ | ⟨r, -, hline⟩⟩
      · rcases he with rfl | rfl
        · have htx : usb.tx = f.usb.tx := by
            obtain ⟨rx, -, rfl⟩ := Option.map_eq_some_iff.mp husb
            rfl
          exact h.frame husb (by rw [htx]) (by rw [htx]) (by rw [htx])
        · have htx := hreader husb
          exact h.frame husb (by rw [htx]) (by rw [htx]) (by rw [htx])
      · have htx := hreader husb
        have hnext := h.frame husb (by rw [htx]) (by rw [htx]) (by rw [htx])
        exact ⟨hnext.served, hnext.requests, hnext.call⟩
      · have htx := hreader hline.usb
        have hnext := h.frame hline.usb (by rw [htx]) (by rw [htx]) (by rw [htx])
        have hsend : Answers { f with usb := f'.usb, sys := f.sys.hostSend r.parsedLine } :=
          hnext.onSys (e := .hostSend r.parsedLine) rfl rfl
        have hparsed := hsend.onSys (e := .parserReceive) hline.sys rfl
        exact ⟨hparsed.served, hparsed.requests, hparsed.call⟩

theorem Answers.stepperTask (h : Answers f) (hstep : f.stepperTask = some f') : Answers f' := by
  have hreply : ∀ {r}, f.sys.stepper.reply? = some r → f.sendReply r = some f' → Answers f' := by
    intro r hr hsend
    rcases sendReply_cases hsend with ⟨e, usb, hgive, he, husb, rfl⟩ | ⟨n, usb, sys, hs, husb, hsys, rfl⟩
    · rcases he with ⟨rfl, -⟩ | ⟨rfl, -⟩
      · exact h.sendCall hr husb
      · exact h.sender hgive husb
    · exact h.give hs husb hsys
  rw [Firmware.stepperTask] at hstep
  cases hpc : f.sys.stepper with
  | delay | receive | drawing object calls after =>
      simp only [hpc] at hstep
      obtain ⟨sys, hsys, rfl⟩ := onSys_cases hstep
      exact h.onSys hsys rfl
  | sendArea | sendOK pause =>
      simp only [hpc] at hstep
      exact hreply (by rw [hpc]; rfl) hstep

/-- **One step** keeps the requests those of the replies. -/
theorem Answers.step (h : Answers f) {e : Ev} (hstep : f.step e = some f') : Answers f' := by
  cases e with
  | usb e =>
      obtain ⟨usb, husb, rfl⟩ := onUsb_cases hstep
      have heq := Option.some_inj.mp husb
      exact h.frame husb (by rw [← heq]; rfl) (by rw [← heq]; rfl) (by rw [← heq]; rfl)
  | rom bytes | lineCode | connection flags =>
      obtain ⟨usb, husb, rfl⟩ := onUsb_cases hstep
      have heq := Option.some_inj.mp husb
      exact h.frame husb (by rw [← heq]) (by rw [← heq]) (by rw [← heq])
  | cdcTask n =>
      obtain ⟨usb, husb, rfl⟩ := onUsb_cases hstep
      obtain ⟨hrequests, hmemory⟩ := Cdc.task_requested husb
      exact h.frame husb hrequests hmemory (Cdc.task_senders husb).1
  | parserTask l => exact h.parserTask hstep
  | stepperTask => exact h.stepperTask hstep
  | stepperExpire | calibrate rd | timer rd =>
      obtain ⟨sys, hsys, rfl⟩ := onSys_cases hstep
      exact h.onSys hsys rfl

end Step

/-! ## Whole runs -/

section Run
variable {rx_buff : Buffer transferSize} {arrays : Reader} {parser : GCodeParser}
  {es : List Ev} {f : Firmware}

theorem answers_of_run (hrun : run step (.init rx_buff arrays parser) es = some f) : Answers f :=
  run_induction_all (I := Answers) (fun _ _ _ h hstep => h.step hstep)
    (Answers.init rx_buff arrays parser) hrun

/-- The bytes of the replies, one behind the other. -/
theorem flatten_text (rs : List Reply) :
    (rs.map Reply.text).flatten = (rs.map Reply.chars).flatMap (· ++ [0]) := by
  rw [List.flatMap_map]
  rfl

theorem zero_not_mem_chars (r : Reply) : (0 : UInt8) ∉ r.chars := by
  cases r <;> simp [Reply.chars]

theorem terminated_text (rs : List Reply) :
    terminated 0 (rs.map Reply.text).flatten = rs.map Reply.chars := by
  have hzero : ∀ l ∈ rs.map Reply.chars, (0 : UInt8) ∉ l := by
    intro l hl
    obtain ⟨r, -, rfl⟩ := List.mem_map.mp hl
    exact zero_not_mem_chars r
  have hsplit := terminated_flatMap hzero []
  rw [List.append_nil, terminated_of_not_mem List.not_mem_nil, List.append_nil] at hsplit
  rw [flatten_text, hsplit]

/-- The host has the replies whose call has returned, and the beginning of the one that is being
sent. -/
theorem Answers.bytes (h : Answers f) :
    (f.sys.usbOut.map Reply.text).flatten <+: f.usb.tx.accepted ∧
      f.usb.tx.accepted <+:
        ((f.sys.usbOut ++ f.sys.stepper.reply?.toList).map Reply.text).flatten := by
  obtain ⟨hlast, hall⟩ := h.served.accepted_between
  have hrequests := h.requests
  rw [requested] at hrequests
  cases hmutex : f.usb.tx.SendMutex with
  | none =>
      have hnot : (f.usb.tx.senders ()).requests ≠ true := by
        intro hrequests
        have hholder := h.served.holder () (Cdc.Sender.requests_iff.mp hrequests)
        rw [hmutex] at hholder
        cases hholder
      rw [if_neg hnot, List.append_nil] at hrequests
      rw [hall hmutex, hrequests, List.map_append, List.flatten_append]
      exact ⟨List.prefix_refl _, List.prefix_append _ _⟩
  | some t =>
      have hholds := h.served.stage.holds hmutex
      rw [if_pos (Cdc.Sender.requests_iff.mpr hholds)] at hrequests
      obtain ⟨hbefore, hafter⟩ := hlast t hmutex
      rw [hrequests] at hbefore hafter
      refine ⟨?_, hafter⟩
      obtain ⟨n, hn⟩ : ∃ n, (f.usb.tx.senders ()).length? = some n := by
        cases hs : f.usb.tx.senders () with
        | idle | take n => rw [hs] at hholds; exact absurd hholds id
        | queue n | wake n | wait n | give n => exact ⟨n, rfl⟩
      obtain ⟨r, hr, -⟩ := h.call n hn
      rw [hr, Option.toList_some, List.map_append, List.map_singleton,
        List.dropLast_concat] at hbefore
      exact hbefore

/-- Split at the NULs, what the host has are these replies again. -/
theorem Answers.split (h : Answers f) :
    f.sys.usbOut.map Reply.chars <+: terminated 0 f.usb.tx.accepted ∧
      terminated 0 f.usb.tx.accepted <+:
        (f.sys.usbOut ++ f.sys.stepper.reply?.toList).map Reply.chars := by
  obtain ⟨hbefore, hafter⟩ := h.bytes
  refine ⟨?_, ?_⟩
  · rw [← terminated_text]
    exact terminated_prefix hbefore
  · rw [← terminated_text]
    exact terminated_prefix hafter

/-- **The replies.** In every run the bytes that the host gets are those of the replies, in
order: all of the replies whose call has returned, and the beginning of the one that the
stepper task is sending. Split at the NULs they are these replies again. -/
theorem accepted_replies (hrun : run step (.init rx_buff arrays parser) es = some f) :
    ((f.sys.usbOut.map Reply.text).flatten <+: f.usb.tx.accepted ∧
      f.usb.tx.accepted <+:
        ((f.sys.usbOut ++ f.sys.stepper.reply?.toList).map Reply.text).flatten) ∧
    f.sys.usbOut.map Reply.chars <+: terminated 0 f.usb.tx.accepted ∧
    terminated 0 f.usb.tx.accepted <+:
      (f.sys.usbOut ++ f.sys.stepper.reply?.toList).map Reply.chars := by
  have h := answers_of_run hrun
  exact ⟨h.bytes, h.split⟩

end Run

/-- The wait of the stepper task expires; the host has two bytes of its `OK`. -/
def halfOK : List Ev :=
  [.stepperTask, .stepperExpire] ++ List.replicate 4 .stepperTask ++ [.connection ⟨true, false⟩] ++
    List.replicate 9 (.cdcTask 2)

theorem accepted_replies_halfOK : ∃ f, run step (.init Cdc.clearBuff .zeroed {}) halfOK = some f ∧
    f.usb.tx.accepted = [79, 75] ∧
    ((f.sys.usbOut.map Reply.text).flatten <+: f.usb.tx.accepted ∧
      f.usb.tx.accepted <+:
        ((f.sys.usbOut ++ f.sys.stepper.reply?.toList).map Reply.text).flatten) ∧
    f.sys.usbOut.map Reply.chars <+: terminated 0 f.usb.tx.accepted ∧
    terminated 0 f.usb.tx.accepted <+:
      (f.sys.usbOut ++ f.sys.stepper.reply?.toList).map Reply.chars := by
  obtain ⟨f, hrun, hhalf⟩ := exists_of_run
    (P := fun f : Firmware => f.usb.tx.accepted = [79, 75])
    (show (run step (.init Cdc.clearBuff .zeroed {}) halfOK).any _ = true by decide +kernel)
  exact ⟨f, hrun, hhalf, accepted_replies hrun⟩

end Firmware

end Plotter
