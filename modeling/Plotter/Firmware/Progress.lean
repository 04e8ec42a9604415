import Plotter.Cdc.Deliver
import Plotter.Cdc.Drain
import Plotter.Firmware.Waiting
import Plotter.System.Progress

/-!
# The firmware answers

With a host that waits for the stepper task nothing of the firmware can get stuck: once calibration
is over, and as long as the host takes the replies, the tasks and the timer can go on to where
every line that was sent has been executed and the host has an `OK` for each. What the parser
finds on the stack is not theirs to choose: whatever it is, there has to be a NUL right behind
the coordinates, or the parser leaves its arrays.

## Main definitions

* `Firmware.Works`: the steps of the tasks, of the timer and of a host that listens.
* `Firmware.Ready`: the invariants of a firmware that is not disturbed.
* `Firmware.executes_everything`: every line is executed and answered.
-/

namespace Plotter

open Lib

namespace Firmware

/-- The tasks and the timer go on, with no switch active; the host takes what it is sent. The
local variables of the parser hold what the `stack` holds. -/
def Works (stack : Firmware → Locals) (f : Firmware) : Ev → Prop
  | .usb .IN | .lineCode | .cdcTask _ | .stepperTask => True
  | .parserTask l => l = stack f
  | .timer rd => rd = {}
  | _ => False

/-- A host that waits, and calibration is over. -/
structure Ready (xy : Axis → ℚ) (lines : List HostLine) (f : Firmware) (got : List (List UInt8)) :
    Prop where
  waits : Waits xy lines f got
  answers : Answers f
  calibrated : f.sys.Calibrated
  due : f.sys.executed.length ≤ f.sys.due

/-- After `n` transfers, with at least `k` commands received. -/
structure ReadyAt (xy : Axis → ℚ) (lines : List HostLine) (n k : ℕ) (f : Firmware) : Prop where
  ready : ∃ got, Ready xy lines f got
  transfers : f.usb.rx.transfers.length = n
  executed : k ≤ f.sys.executed.length

section Step
variable {xy : Axis → ℚ} {lines : List HostLine} {f f' : Firmware} {got : List (List UInt8)}
  {n k : ℕ} {stack : Firmware → Locals}

theorem Works.transfer? {e : Ev} (he : Works stack f e) : e.transfer? = none := by
  cases e with
  | usb e =>
      cases e with
      | IN => rfl
      | OUT_NAK | OUT data => exact absurd he id
  | lineCode | cdcTask n | parserTask l | stepperTask | timer rd => rfl
  | rom | connection | stepperExpire | calibrate => exact absurd he id

/-- Nothing is asked of the host while the firmware works. -/
theorem Works.hostWaits {e : Ev} (he : Works stack f e) : HostWaits lines f e := by
  refine ⟨?_, by rw [he.transfer?]; intro data hdata; cases hdata⟩
  cases e with
  | usb e =>
      cases e with
      | IN => trivial
      | OUT_NAK | OUT data => exact absurd he id
  | lineCode | cdcTask n | parserTask l | stepperTask | timer rd => trivial
  | rom | connection | stepperExpire | calibrate => exact absurd he id

variable (stack) in
/-- **One step** of the firmware at work. -/
theorem ReadyAt.step (h : ReadyAt xy lines n k f) (hlines : ∀ line ∈ lines, line.Sendable) {e : Ev}
    (hstep : f.step e = some f') (he : Works stack f e) : ReadyAt xy lines n k f' := by
  obtain ⟨⟨got, hready⟩, htransfers, hexecuted⟩ := h
  obtain ⟨got', hwaits⟩ := hready.waits.step hlines he.hostWaits hstep
  have hcalibrated : f'.sys.Calibrated :=
    run_induction_all (fun _ _ _ h hs => h.step hs) hready.calibrated (step_sys hstep)
  refine ⟨⟨got', hwaits, hready.answers.step hstep, hcalibrated,
    executed_le_due hready.due hstep⟩, ?_, ?_⟩
  · rw [transfers_of_step hstep, he.transfer?, Option.toList_none, List.append_nil]
    exact htransfers
  · exact hexecuted.trans (executed_of_step hstep).length_le

end Step

/-! ## The stepper task comes back -/

section Settle
variable {xy : Axis → ℚ} {lines : List HostLine} {f f' : Firmware} {n k : ℕ}
  {stack : Firmware → Locals}

/-- The steps of a task from its place. -/
theorem stepperTask_of_reply {r : Reply} (hr : f.sys.stepper.reply? = some r) :
    f.step .stepperTask = f.sendReply r := by
  rw [Firmware.step, Firmware.stepperTask]
  cases hpc : f.sys.stepper with
  | delay | receive | drawing object calls after =>
      rw [hpc] at hr
      cases hr
  | sendArea | sendOK pause =>
      rw [hpc] at hr
      obtain rfl := Option.some_inj.mp hr
      rfl

theorem sendReply_of_inside {r : Reply} (hidle : f.usb.tx.senders () ≠ .idle)
    (hgive : ∀ m, f.usb.tx.senders () ≠ .give m) : f.sendReply r = f.onUsb (.sender ()) := by
  rw [sendReply]
  cases hs : f.usb.tx.senders () with
  | idle => exact absurd hs hidle
  | give m => exact absurd hs (hgive m)
  | take m | queue m | wake m | wait m => rfl

theorem exists_ev_of_sends (stack : Firmware → Locals) {e : Cdc.Ev Unit Unit} (he : e.sends)
    (f : Firmware) : ∃ e' : Ev, Works stack f e' ∧ f.step e' = f.onUsb e := by
  cases e with
  | usb e =>
      cases e with
      | IN => exact ⟨.usb .IN, trivial, rfl⟩
      | OUT_NAK | OUT data => exact absurd he id
  | task n => exact ⟨.cdcTask n, trivial, rfl⟩
  | lineCode => exact ⟨.lineCode, trivial, rfl⟩
  | rom | connection | receiveCall | reader | sendCall | sender | store => exact absurd he id

variable (stack) in
/-- **A wait of a move ends.** -/
theorem ReadyAt.wake (h : ReadyAt xy lines n k f) (hlines : ∀ line ∈ lines, line.Sendable)
    {object : GObject} {calls : List Event} {after : Drawer}
    (hpc : f.sys.stepper = .drawing object calls after) :
    CanReach Firmware.step (Works stack)
      (fun t => ReadyAt xy lines n k t ∧ t.sys.stepper.rank < f.sys.stepper.rank) f := by
  have hgive : CanReach Firmware.step (Works stack) (fun t => (ReadyAt xy lines n k t ∧
      t.sys.stepper = f.sys.stepper) ∧ t.sys.motors.engine.sbRIT = true) f := by
    refine canReach_of_decreasing (fun t => t.sys.motors.engine.toGive) ?_ ⟨h, rfl⟩
    rintro t ⟨ht, hstepper⟩ hsb
    obtain ⟨got, hready⟩ := ht.ready
    have hwaits : t.sys.stepper.waits = true := by rw [hstepper, hpc]; rfl
    rcases hready.calibrated.interrupt_or_give hwaits with hgives | ⟨s', hs', hsame, hlt⟩
    · exact absurd hgives hsb
    · have hstep : t.step (.timer {}) = some { t with sys := s' } := by
        rw [Firmware.step, onSys, hs', Option.map_some]
      exact .cons (e := .timer {}) rfl hstep
        (.here ⟨⟨ht.step stack hlines hstep rfl, hsame.trans hstepper⟩, hlt⟩)
  apply hgive.trans
  rintro t ⟨⟨ht, hstepper⟩, hsb⟩
  have hwake : Plotter.step t.sys .stepperWake =
      some (Sys.draw { t.sys with motors := t.sys.motors.wake } object calls after) := by
    simp only [Plotter.step, Sys.stepperWake, hstepper, hpc, hsb, if_true]
  have hstep : t.step .stepperTask = some { t with
      sys := Sys.draw { t.sys with motors := t.sys.motors.wake } object calls after } := by
    simp only [Firmware.step, Firmware.stepperTask, hstepper, hpc, onSys, hwake, Option.map_some]
  refine .cons (e := .stepperTask) trivial hstep (.here ⟨ht.step stack hlines hstep trivial, ?_⟩)
  rw [hpc]
  exact Sys.rank_draw ..

/-- The call of `USB_send` comes to its last step. -/
theorem ReadyAt.send (h : ReadyAt xy lines n k f) (hlines : ∀ line ∈ lines, line.Sendable)
    {r : Reply} (hr : f.sys.stepper.reply? = some r) : CanReach Firmware.step (Works stack) (fun t =>
      (ReadyAt xy lines n k t ∧ t.sys = f.sys) ∧ ∃ m, t.usb.tx.senders () = .give m) f := by
  refine canReach_of_decreasing (fun t => Cdc.toGive t.usb) ?_ ⟨h, rfl⟩
  intro t ⟨ht, hsys⟩ hgive
  obtain ⟨got, hready⟩ := ht.ready
  have hserved := hready.answers.served
  have hgive : ∀ m, t.usb.tx.senders () ≠ .give m := fun m hm => hgive ⟨m, hm⟩
  have htask : t.step .stepperTask = t.sendReply r := stepperTask_of_reply (by rw [hsys]; exact hr)
  by_cases hidle : t.usb.tx.senders () = .idle
  · have hlen : r.length ≤ r.text.length ∧ r.length < 2 ^ 32 := by
      refine ⟨r.length_text.ge, ?_⟩
      cases r <;> decide
    have hcall : t.step .stepperTask = t.onUsb (.sendCall () r.text r.length) := by
      rw [htask, sendReply, hidle]
    have hstep : t.step .stepperTask = some { t with
        usb.tx.memory := Function.update t.usb.tx.memory () r.text
        usb.tx.senders := Function.update t.usb.tx.senders () (.take r.length) } := by
      rw [hcall]
      simp only [onUsb, Cdc.step, Cdc.Sending.call, hidle, if_pos hlen, Option.map_some]
    refine .cons (e := .stepperTask) trivial hstep
      (.here ⟨⟨ht.step stack hlines hstep trivial, hsys⟩, ?_⟩)
    simp [Cdc.toGive, hidle]
  by_cases hwait : ∀ m, t.usb.tx.senders () = .wait m → t.usb.tx.SendComplete = true
  · obtain ⟨tx, htx, hlt⟩ := hserved.exists_goOn hidle hgive hwait
    have hstep : t.step .stepperTask = some { t with usb.tx := tx } := by
      rw [htask, sendReply_of_inside hidle hgive, onUsb, Cdc.step, htx, Option.map_some,
        Option.map_some]
    exact .cons (e := .stepperTask) trivial hstep
      (.here ⟨⟨ht.step stack hlines hstep trivial, hsys⟩, hlt⟩)
  · -- the loop of `cdc_task` and the host bring the token nearer
    simp only [not_forall, Bool.not_eq_true] at hwait
    obtain ⟨m, hm, hcomplete⟩ := hwait
    obtain ⟨r', -, hlength, -⟩ := hready.answers.call m (by rw [hm]; rfl)
    have hunderway : Cdc.Underway t.usb () m :=
      ⟨hready.waits.follows.received.coherent, hserved, by rw [hm]; rfl, by
        rw [hlength]
        cases r' <;> decide⟩
    obtain ⟨e, usb, he, husb, hsenders, hnearer⟩ := hunderway.nearer hcomplete
    obtain ⟨e', he', heq⟩ := exists_ev_of_sends stack he t
    have hstep : t.step e' = some { t with usb := usb } := by
      rw [heq, onUsb, husb, Option.map_some]
    refine .cons he' hstep (.here ⟨⟨ht.step stack hlines hstep he', hsys⟩, ?_⟩)
    simp only [Cdc.toGive, hsenders, hm, hcomplete, Bool.false_eq_true, if_false]
    rcases hnearer with htoken | hlt
    · rw [htoken, if_pos rfl]
      omega
    · split_ifs
      · omega
      · omega

variable (stack) in
/-- **A reply ends.** -/
theorem ReadyAt.reply (h : ReadyAt xy lines n k f) (hlines : ∀ line ∈ lines, line.Sendable)
    {r : Reply} (hr : f.sys.stepper.reply? = some r) : CanReach Firmware.step (Works stack)
      (fun t => ReadyAt xy lines n k t ∧ t.sys.stepper.rank < f.sys.stepper.rank) f := by
  apply (h.send hlines hr).trans
  intro t ⟨⟨ht, hsys⟩, m, hm⟩
  obtain ⟨s', hs', hlt⟩ := Sys.exists_sent hr
  have hstep : t.step .stepperTask = some { t with
      usb.tx.SendMutex := none
      usb.tx.senders := Function.update t.usb.tx.senders () .idle
      sys := s' } := by
    rw [stepperTask_of_reply (r := r) (by rw [hsys]; exact hr), sendReply, hm]
    simp only [onUsb, Cdc.step, Cdc.Sending.goOn, hm, Option.map_some, Option.bind_eq_bind,
      Option.bind_some, onSys, hsys, hs']
  exact .cons (e := .stepperTask) trivial hstep (.here ⟨ht.step stack hlines hstep trivial, hlt⟩)

/-- **The stepper task comes back** to its receive. -/
theorem ReadyAt.settle (h : ReadyAt xy lines n k f) (hlines : ∀ line ∈ lines, line.Sendable) :
    CanReach Firmware.step (Works stack)
      (fun t => ReadyAt xy lines n k t ∧ t.sys.stepper = .receive) f := by
  refine canReach_of_decreasing (fun t => t.sys.stepper.rank) ?_ h
  intro t ht hne
  cases hpc : t.sys.stepper with
  | receive => exact absurd hpc hne
  | delay =>
      have hstep : t.step .stepperTask = some { t with sys.stepper := .receive } := by
        simp only [Firmware.step, Firmware.stepperTask, hpc, onSys, Plotter.step,
          Sys.stepperDelayed, if_true, Option.map_some]
      refine .cons (e := .stepperTask) trivial hstep (.here ⟨ht.step stack hlines hstep trivial, ?_⟩)
      exact Nat.zero_lt_one
  | drawing object calls after =>
      have hwake := ht.wake stack hlines hpc
      rwa [hpc] at hwake
  | sendArea =>
      have hreply := ht.reply stack hlines (r := .area) (by rw [hpc]; rfl)
      rwa [hpc] at hreply
  | sendOK pause =>
      have hreply := ht.reply stack hlines (r := .OK) (by rw [hpc]; rfl)
      rwa [hpc] at hreply

end Settle

/-! ## The parser task reads the next line -/

section Read
variable {xy : Axis → ℚ} {lines : List HostLine} {f f' : Firmware} {got : List (List UInt8)}
  {n k : ℕ} {stack : Firmware → Locals}

/-- A line that was sent and whose command is nowhere behind the parser task is on its way to it. -/
theorem Ready.chunksUnderway_ne_nil (h : Ready xy lines f got)
    (hlines : ∀ line ∈ lines, line.Sendable) (hnil : f.sys.underway = [])
    (hlt : f.sys.executed.length < f.usb.rx.transfers.length) :
    Cdc.chunksUnderway f.usb.pc f.usb.vcom f.usb.rx ≠ [] := by
  intro hnone
  have hfollows := h.waits.follows
  have hsent : f.usb.rx.transfers.length ≤ lines.length := by
    have hlen := congrArg List.length hfollows.transfers
    rw [List.length_map, List.length_map, List.length_take] at hlen
    omega
  have hgot : got.length = f.usb.rx.transfers.length := by
    have hchunked := hfollows.received.chunked
    rw [Cdc.Chunked, hnone, List.append_nil] at hchunked
    rw [hchunked, Cdc.flatMap_chunks_of_short (hfollows.short hlines), List.length_map]
  have hexecuted : f.sys.executed.length = got.length := by
    have hpipe := h.waits.pipe
    rw [hnil, List.append_nil] at hpipe
    rw [hpipe, hfollows.parsed, length_orders, List.length_take]
    omega
  omega

theorem Ready.sound (h : Ready xy lines f got) : Cdc.Sound f.usb :=
  ⟨h.waits.follows.received.coherent, h.waits.follows.received.intake,
    ⟨got, h.waits.follows.received.chunked⟩, h.answers.served⟩

theorem parserTask_of_receive (hpc : f.sys.parser = .receive) (hidle : f.usb.rx.readers () ≠ .idle)
    (hback : ∀ rec data, f.usb.rx.readers () ≠ .back rec data) (l : Locals) :
    f.step (.parserTask l) = f.onUsb (.reader ()) := by
  rw [Firmware.step, Firmware.parserTask, hpc]
  cases hr : f.usb.rx.readers () with
  | idle => exact absurd hr hidle
  | back rec data => exact absurd hr (hback rec data)
  | take length | copy rec length => rfl

/-- **The call of `USB_receive`** comes to its last step. -/
theorem ReadyAt.receive (h : ReadyAt xy lines n k f) (hlines : ∀ line ∈ lines, line.Sendable)
    (hpc : f.sys.parser = .receive) (hnil : f.sys.underway = [])
    (hlt : f.sys.executed.length < n) : CanReach Firmware.step (Works stack) (fun t =>
      (ReadyAt xy lines n k t ∧ t.sys = f.sys) ∧
        ∃ rec data, t.usb.rx.readers () = .back rec data) f := by
  refine canReach_of_decreasing (fun t => Cdc.toReturn t.usb) ?_ ⟨h, rfl⟩
  intro t ⟨ht, hsys⟩ hback
  obtain ⟨got, hready⟩ := ht.ready
  have hne := hready.chunksUnderway_ne_nil hlines (by rw [hsys, hnil]) (by
    rw [hsys, ht.transfers]
    exact hlt)
  have hparser : t.sys.parser = .receive := by rw [hsys, hpc]
  have hback : ∀ rec data, t.usb.rx.readers () ≠ .back rec data :=
    fun rec data hr => hback ⟨rec, data, hr⟩
  by_cases hidle : t.usb.rx.readers () = .idle
  · obtain ⟨usb, husb, hnearer⟩ := Cdc.call_nearer hidle 96
    have hstep : t.step (.parserTask (stack t)) = some { t with usb := usb } := by
      rw [Firmware.step, Firmware.parserTask, hparser, hidle]
      simp only [onUsb, husb, Option.map_some]
    exact .cons (e := .parserTask (stack _)) rfl hstep
      (.here ⟨⟨ht.step stack hlines hstep rfl, hsys⟩, hnearer⟩)
  · obtain ⟨e, usb, he, husb, -, hnearer⟩ := hready.sound.read_nearer hne hidle hback
    rcases he with rfl | rfl
    · have hstep : t.step (.cdcTask 0) = some { t with usb := usb } := by
        rw [Firmware.step, onUsb, husb, Option.map_some]
      exact .cons (e := .cdcTask 0) trivial hstep
        (.here ⟨⟨ht.step stack hlines hstep trivial, hsys⟩, hnearer⟩)
    · have hstep : t.step (.parserTask (stack t)) = some { t with usb := usb } := by
        rw [parserTask_of_receive hparser hidle hback _, onUsb, husb, Option.map_some]
      exact .cons (e := .parserTask (stack _)) rfl hstep
        (.here ⟨⟨ht.step stack hlines hstep rfl, hsys⟩, hnearer⟩)

/-- A line that is a command is stored for the queue. -/
theorem exists_parserReceive {s : Sys} {line : ParsedLine} {o : Order} (hpc : s.parser = .receive)
    (hnil : s.usbIn = []) (ho : line.order? = some o) :
    ∃ s', (s.hostSend line).parserReceive = some s' ∧ s'.parser = .sending ∧
      s'.stepper = s.stepper ∧ s'.commandQueue = s.commandQueue := by
  cases hstore : line.store s.gObject with
  | none =>
      rw [ParsedLine.store_eq_none hstore] at ho
      cases ho
  | some g =>
      refine ⟨{ s.hostSend line with
        usbIn := []
        parsed := s.parsed ++ line.order?.toList
        gObject := g
        parser := .sending }, ?_, rfl, rfl, rfl⟩
      simp [Sys.parserReceive, Sys.hostSend, hpc, hnil, hstore]

/-- **The parser task reads the line**: its command waits for the queue. -/
theorem ReadyAt.parse (h : ReadyAt xy lines n k f) (hlines : ∀ line ∈ lines, line.Sendable)
    (hpc : f.sys.parser = .receive) {rec : SendItem (Fin receiveBuffers)} {data : List UInt8}
    (hr : f.usb.rx.readers () = .back rec data) {l : Locals} (hnul : l.Terminated) :
    ∃ t, f.step (.parserTask l) = some t ∧ t.sys.parser = .sending ∧
      t.sys.stepper = f.sys.stepper ∧ t.sys.commandQueue = f.sys.commandQueue := by
  obtain ⟨got, hready⟩ := h.ready
  have hfollows := hready.waits.follows
  obtain ⟨q, hq⟩ := hready.sound.coherent.exists_back hr
  have husb : Cdc.step f.usb (.reader ()) = some { f.usb with
      rx.AllocQueue := q
      rx.readers := Function.update f.usb.rx.readers () .idle
      rx.received := f.usb.rx.received ++ data } := by
    simp [Cdc.step, Cdc.Receiving.goOn, hr, hq]
  obtain ⟨line, arrays, hget, -, -, hreceive, hstring⟩ := hfollows.back hlines hr husb
  have hplain := (hlines line (List.mem_of_getElem? hget)).plain
  obtain ⟨r, hread⟩ := GCodeParser.exists_read_plain hnul f.parser hplain hstring
  obtain ⟨horder, -⟩ := GCodeParser.read_plain hplain hstring hread
  obtain ⟨s', hs', hparser, hstepper, hqueue⟩ := exists_parserReceive hpc hfollows.usbIn horder
  refine ⟨{ f with
    usb.rx.AllocQueue := q
    usb.rx.readers := Function.update f.usb.rx.readers () .idle
    usb.rx.received := f.usb.rx.received ++ data
    arrays := arrays
    parser := r.parser
    sys := s' }, ?_, hparser, hstepper, hqueue⟩
  rw [Firmware.step, Firmware.parserTask, hpc, hr]
  simp only [onUsb, husb, Option.map_some, Option.bind_eq_bind, Option.bind_some, hreceive,
    Bool.false_eq_true, if_false, parseLine, hread, hs', Option.pure_def]

end Read

/-! ## The next command -/

section Next
variable {xy : Axis → ℚ} {lines : List HostLine} {f f' : Firmware} {n k : ℕ}
  {stack : Firmware → Locals}

/-- With the stepper task in its receive, the next command comes into the queue. -/
def Queued (xy : Axis → ℚ) (lines : List HostLine) (n k : ℕ) (f : Firmware) : Prop :=
  ReadyAt xy lines n k f ∧ f.sys.stepper = .receive ∧ f.sys.commandQueue.isSome

theorem ReadyAt.queue_of_sending (h : ReadyAt xy lines n k f)
    (hlines : ∀ line ∈ lines, line.Sendable)
    (hstepper : f.sys.stepper = .receive) (hpc : f.sys.parser = .sending)
    (hqueue : f.sys.commandQueue = none) :
    CanReach Firmware.step (Works stack) (Queued xy lines n k) f := by
  have hstep : f.step (.parserTask (stack f)) = some { f with
      sys.commandQueue := some f.sys.gObject
      sys.parser := .receive } := by
    simp only [Firmware.step, Firmware.parserTask, hpc, onSys, Plotter.step, Sys.parserSend, hqueue,
      Option.map_some]
  exact .cons (e := .parserTask (stack _)) rfl hstep
    (.here ⟨h.step stack hlines hstep rfl, hstepper, rfl⟩)

theorem ReadyAt.queue_of_receive (h : ReadyAt xy lines n k f)
    (hlines : ∀ line ∈ lines, line.Sendable)
    (hstack : ∀ f, (stack f).Terminated) (hstepper : f.sys.stepper = .receive)
    (hpc : f.sys.parser = .receive) (hqueue : f.sys.commandQueue = none)
    (hlt : f.sys.executed.length < n) :
    CanReach Firmware.step (Works stack) (Queued xy lines n k) f := by
  have hnil : f.sys.underway = [] := by simp [Sys.underway, hqueue, hpc]
  apply (h.receive hlines hpc hnil hlt).trans
  rintro t ⟨⟨ht, hsys⟩, rec, data, hr⟩
  obtain ⟨u, hstep, hparser, hstepper', hqueue'⟩ := ht.parse hlines (by rw [hsys, hpc]) hr (hstack t)
  refine .cons (e := .parserTask (stack _)) rfl hstep
    ((ht.step stack hlines hstep rfl).queue_of_sending hlines ?_ hparser ?_)
  · rw [hstepper', hsys, hstepper]
  · rw [hqueue', hsys, hqueue]

/-- **The next command** comes into the queue. -/
theorem ReadyAt.queue (h : ReadyAt xy lines n k f) (hlines : ∀ line ∈ lines, line.Sendable)
    (hstack : ∀ f, (stack f).Terminated) (hstepper : f.sys.stepper = .receive)
    (hlt : f.sys.executed.length < n) :
    CanReach Firmware.step (Works stack) (Queued xy lines n k) f := by
  cases hqueue : f.sys.commandQueue with
  | some g => exact .here ⟨h, hstepper, by rw [hqueue]; rfl⟩
  | none =>
      cases hpc : f.sys.parser with
      | sending => exact h.queue_of_sending hlines hstepper hpc hqueue
      | receive => exact h.queue_of_receive hlines hstack hstepper hpc hqueue hlt
      | delay =>
          have hstep : f.step (.parserTask (stack f)) = some { f with sys.parser := .receive } := by
            simp only [Firmware.step, Firmware.parserTask, hpc, onSys, Plotter.step,
              Sys.parserDelayed, if_true, Option.map_some]
          exact .cons (e := .parserTask (stack _)) rfl hstep
            ((h.step stack hlines hstep rfl).queue_of_receive hlines hstack hstepper rfl hqueue hlt)

/-- **The stepper task receives it.** -/
theorem Queued.take (h : Queued xy lines n k f) (hlines : ∀ line ∈ lines, line.Sendable) :
    ∃ t, f.step .stepperTask = some t ∧ ReadyAt xy lines n (f.sys.executed.length + 1) t := by
  obtain ⟨hready, hstepper, hqueue⟩ := h
  obtain ⟨g, hg⟩ := Option.isSome_iff_exists.mp hqueue
  obtain ⟨got, hgot⟩ := hready.ready
  obtain ⟨o, ho⟩ := Option.isSome_iff_exists.mp (hgot.waits.known.queue g hg)
  obtain ⟨s', hs'⟩ : ∃ s', Plotter.step f.sys .stepperReceive = some s' :=
    ⟨_, by simp only [Plotter.step, Sys.stepperReceive, hstepper, hg]; rfl⟩
  have hstep : f.step .stepperTask = some { f with sys := s' } := by
    simp only [Firmware.step, Firmware.stepperTask, hstepper, onSys, hs', Option.map_some]
  have hnext := hready.step (fun _ => .zeroed) hlines hstep trivial
  refine ⟨_, hstep, hnext.ready, hnext.transfers, ?_⟩
  obtain ⟨g', hg', hsame⟩ := Sys.sameExchange_receive hs'
  obtain rfl : g = g' := Option.some_inj.mp (hg.symm.trans hg')
  have hexecuted : s'.executed = f.sys.executed ++ g.order?.toList := hsame.executed_eq
  rw [hexecuted, ho, List.length_append]
  exact Nat.le_refl _

/-- **Every command is received**, and the stepper task is back. -/
theorem ReadyAt.finish (h : ReadyAt xy lines n k f) (hlines : ∀ line ∈ lines, line.Sendable)
    (hstack : ∀ f, (stack f).Terminated) (hn : n ≤ k + 1) : CanReach Firmware.step (Works stack)
      (fun t => ReadyAt xy lines n n t ∧ t.sys.stepper = .receive) f := by
  apply (h.settle hlines).trans
  intro t ⟨ht, hstepper⟩
  by_cases hlt : t.sys.executed.length < n
  · apply (ht.queue hlines hstack hstepper hlt).trans
    intro u hu
    obtain ⟨v, hstep, hv⟩ := hu.take hlines
    have hall : ReadyAt xy lines n n v := by
      have hk := hu.1.executed
      have hexecuted := hv.executed
      exact ⟨hv.ready, hv.transfers, by omega⟩
    exact .cons (e := .stepperTask) trivial hstep (hall.settle hlines)
  · exact .here ⟨⟨ht.ready, ht.transfers, not_lt.mp hlt⟩, hstepper⟩

end Next

/-! ## Whole runs -/

/-- The host waits, and no move is begun while calibration needs the engine. -/
def Orderly (lines : List HostLine) (f : Firmware) (e : Ev) : Prop :=
  HostWaits lines f e ∧ f.SysGuard MovesAlone e

section Run
variable {rx_buff : Buffer transferSize} {arrays : Reader} {parser : GCodeParser}
  {es : List Ev} {f t : Firmware} {xy : Axis → ℚ} {lines : List HostLine}
  {stack : Firmware → Locals} {n : ℕ}

theorem ready_of_run (hlines : ∀ line ∈ lines, line.Sendable)
    (hG : Along step (Orderly lines) (.init rx_buff arrays parser) es)
    (hrun : run step (.init rx_buff arrays parser) es = some f) (hdone : f.sys.calibrate = .done) :
    ReadyAt parser.getCoord lines f.usb.rx.transfers.length f.sys.executed.length f := by
  obtain ⟨got, hwaits⟩ := waits_of_run hlines ⟨[], Waits.init lines rx_buff arrays parser⟩
    (hG.mono fun _ _ h => h.1) hrun
  obtain ⟨hsys, hmoves⟩ := refines (hG.mono fun _ _ h => h.2) hrun
  have harmed : f.sys.Armed :=
    run_induction (fun _ _ _ h hG hs => h.step hG hs) Sys.Armed.init hmoves hsys
  have hdue : f.sys.executed.length ≤ f.sys.due :=
    run_induction_all (I := fun f : Firmware => f.sys.executed.length ≤ f.sys.due)
      (fun _ _ _ h hstep => executed_le_due h hstep) (Nat.zero_le _) hrun
  exact ⟨⟨got, hwaits, answers_of_run hrun, ⟨harmed, hdone⟩, hdue⟩, rfl, le_refl _⟩

/-- At rest, with every command received: the commands are those of the lines, and the host has
all of the replies. -/
theorem ReadyAt.all (h : ReadyAt xy lines n n t) (hlines : ∀ line ∈ lines, line.Sendable)
    (hstepper : t.sys.stepper = .receive) :
    t.sys.executed = orders xy (lines.take n) ∧
      t.usb.tx.accepted = (t.sys.usbOut.map Reply.text).flatten ∧ n ≤ t.OKs := by
  obtain ⟨⟨got, hready⟩, htransfers, hexecuted⟩ := h
  have hnone : t.sys.stepper.reply?.toList = [] := by rw [hstepper]; rfl
  have haccepted : t.usb.tx.accepted = (t.sys.usbOut.map Reply.text).flatten := by
    obtain ⟨hbefore, hafter⟩ := hready.answers.bytes
    rw [hnone, List.append_nil] at hafter
    exact hafter.eq_of_length (Nat.le_antisymm hafter.length_le hbefore.length_le)
  refine ⟨?_, haccepted, ?_⟩
  · have hgot := (hready.waits.follows.received.begins_of_short
      (hready.waits.follows.short hlines)).length_le
    rw [List.length_map, htransfers] at hgot
    have hprefix : t.sys.executed <+: orders xy (lines.take n) := by
      have hparsed : t.sys.executed <+: t.sys.parsed := ⟨_, hready.waits.pipe⟩
      rw [hready.waits.follows.parsed] at hparsed
      exact hparsed.trans (orders_begins (List.take_prefix_take_left hgot) _)
    apply hprefix.eq_of_length
    have hlen := hprefix.length_le
    rw [length_orders] at hlen ⊢
    have htake := List.length_take_le n lines
    omega
  · have hdue := hready.due
    rw [Sys.due, hstepper] at hdue
    rw [OKs, haccepted, terminated_text, List.count_map_of_injective _ _ chars_injective]
    exact hexecuted.trans hdue

end Run

/-! ## A line after calibration -/

instance (lines : List HostLine) (f : Firmware) (e : Ev) : Decidable (Orderly lines f e) :=
  inferInstanceAs (Decidable (_ ∧ Along _ _ _ _))

/-- The events of calibration, which the USB driver has no part in. -/
def Ev.ofSys : Plotter.Ev → Option Ev
  | .calibrateRun rd => some (.calibrate rd)
  | .interrupt rd => some (.timer rd)
  | _ => none

/-- Calibration over a travel of one step; then the host sends `M1 160`. -/
def calibratedLine : List Ev :=
  ([Plotter.Ev.calibrateRun {}] ++ stepAndRead { xStart := true } ++ stepAndRead { yStart := true } ++
    stepAndRead { xEnd := true } ++ stepAndRead {} ++ stepAndRead { yEnd := true } ++
    stepAndRead {}).filterMap Ev.ofSys ++ servoDown.take 4

end Firmware

end Plotter
