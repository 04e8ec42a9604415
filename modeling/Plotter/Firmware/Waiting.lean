import Plotter.Firmware.Commands
import Plotter.Firmware.Replies

/-!
# A host that waits

Commands are lost where the parser task reads a line while the command of the last one waits for
room in the queue. A host that waits, before each line, until the stepper task has received the
commands of the lines before it, loses none, whatever the tasks and the interrupts do. What the
host sees of this are the `OK`s: as long as no wait of the stepper task expires it may count them.

## Main definitions

* `Firmware.HostWaits`: the host waits for the stepper task.
* `Firmware.executed_of_waiting`: then no command is lost, altered or repeated.
* `Firmware.HostCounts`: the host counts the `OK`s.
* `Firmware.executed_of_counting`: as good, if no wait expires.
-/

namespace Plotter

open Lib

namespace Firmware

/-- The transfer of an event. -/
def Ev.transfer? : Ev → Option Transfer
  | .usb (.OUT data) => some data
  | _ => none

/-- The wait of the stepper task expires. -/
def Ev.expires : Ev → Bool
  | .stepperExpire => true
  | _ => false

/-- The host sends a line when the stepper task has received a command for each line so far. -/
def HostWaits (lines : List HostLine) (f : Firmware) (e : Ev) : Prop :=
  HostSends lines f e ∧
    ∀ _ ∈ e.transfer?, f.usb.rx.transfers.length ≤ f.sys.executed.length

/-- The `OK`s that the host has. -/
def OKs (f : Firmware) : ℕ := (terminated 0 f.usb.tx.accepted).count Reply.OK.chars

/-- The host sends a line when it has an `OK` for each line so far, and no wait of the stepper
task expires. -/
def HostCounts (lines : List HostLine) (f : Firmware) (e : Ev) : Prop :=
  HostSends lines f e ∧ (∀ _ ∈ e.transfer?, f.usb.rx.transfers.length ≤ f.OKs) ∧
    e.expires = false

/-! ## The transfers of a step -/

section Step
variable {f f' : Firmware}

/-- A step is at most one of the driver and its callers, with the same transfer. -/
theorem usb_of_step {e : Ev} (h : f.step e = some f') : f'.usb = f.usb ∧ e.transfer? = none ∨
    ∃ c, Cdc.step f.usb c = some f'.usb ∧ c.transfer? = e.transfer? := by
  cases e with
  | usb e =>
      obtain ⟨usb, husb, rfl⟩ := onUsb_cases h
      exact .inr ⟨_, husb, by cases e <;> rfl⟩
  | rom bytes | lineCode | connection flags | cdcTask n =>
      obtain ⟨usb, husb, rfl⟩ := onUsb_cases h
      exact .inr ⟨_, husb, rfl⟩
  | parserTask l =>
      cases hpc : f.sys.parser with
      | delay | sending =>
          rw [step, Firmware.parserTask, hpc] at h
          obtain ⟨sys, -, rfl⟩ := onSys_cases h
          exact .inl ⟨rfl, rfl⟩
      | receive =>
          rcases parserTask_cases hpc h with ⟨c, usb, hc, husb, -, -, rfl⟩ |
            ⟨rec, data, -, ⟨usb, arrays, husb, -, -, rfl⟩ | ⟨r, -, hline⟩⟩
          · rcases hc with rfl | rfl
            · exact .inr ⟨_, husb, rfl⟩
            · exact .inr ⟨_, husb, rfl⟩
          · exact .inr ⟨_, husb, rfl⟩
          · exact .inr ⟨_, hline.usb, rfl⟩
  | stepperTask =>
      rw [step, Firmware.stepperTask] at h
      cases hpc : f.sys.stepper with
      | delay | receive | drawing object calls after =>
          simp only [hpc] at h
          obtain ⟨sys, -, rfl⟩ := onSys_cases h
          exact .inl ⟨rfl, rfl⟩
      | sendArea | sendOK pause =>
          simp only [hpc] at h
          rcases sendReply_cases h with ⟨c, usb, -, hc, husb, rfl⟩ | ⟨n, usb, sys, -, husb, -, rfl⟩
          · rcases hc with ⟨rfl, -⟩ | ⟨rfl, -⟩
            · exact .inr ⟨_, husb, rfl⟩
            · exact .inr ⟨_, husb, rfl⟩
          · exact .inr ⟨_, husb, rfl⟩
  | stepperExpire | calibrate rd | timer rd =>
      obtain ⟨sys, -, rfl⟩ := onSys_cases h
      exact .inl ⟨rfl, rfl⟩

theorem transfers_of_step {e : Ev} (h : f.step e = some f') :
    f'.usb.rx.transfers = f.usb.rx.transfers ++ e.transfer?.toList := by
  rcases usb_of_step h with ⟨husb, hnone⟩ | ⟨c, hc, htransfer⟩
  · rw [husb, hnone, Option.toList_none, List.append_nil]
  · rw [Cdc.transfers_of_step hc, htransfer]

theorem executed_of_step {e : Ev} (h : f.step e = some f') :
    f.sys.executed <+: f'.sys.executed :=
  run_induction_all (I := fun s : Sys => f.sys.executed <+: s.executed)
    (fun _ _ _ hs hstep => hs.trans (Plotter.executed_of_step hstep)) (List.prefix_refl _)
    (step_sys h)

/-- A guard that holds now, and of reading a line whatever was done before. -/
theorem sysGuard_of_now {G : Sys → Plotter.Ev → Prop} (hnow : ∀ e, G f.sys e)
    (hread : ∀ s, G s .parserReceive) (e : Ev) : f.SysGuard G e := by
  have hsingle : ∀ e, Along Plotter.step G f.sys [e] := fun e => ⟨hnow e, fun _ _ => trivial⟩
  rw [SysGuard]
  cases e with
  | usb e | rom bytes | lineCode | connection flags | cdcTask n => exact trivial
  | parserTask l =>
      rw [sysEvents]
      cases f.sys.parser with
      | delay | sending => exact hsingle _
      | receive =>
          cases f.result? l with
          | none => exact trivial
          | some r => exact ⟨hnow _, fun s _ => ⟨hread s, fun _ _ => trivial⟩⟩
  | stepperTask =>
      rw [sysEvents]
      cases f.sys.stepper with
      | delay | receive | drawing object calls after => exact hsingle _
      | sendArea | sendOK pause =>
          cases f.usb.tx.senders () with
          | idle | take n | queue n | wake n | wait n => exact trivial
          | give n => exact hsingle _
  | stepperExpire | calibrate rd | timer rd => exact hsingle _

/-- With one command under way every step keeps it. -/
theorem sysGuard_of_turns (hknown : f.sys.Known) (hone : f.sys.underway.length ≤ 1) (e : Ev) :
    f.SysGuard PendingKept e :=
  sysGuard_of_now (pendingKept_of_turns hknown hone) (fun _ he => by cases he) e

/-- The firmware takes no reply from the host, and a wait expires only by itself. -/
theorem sysEvents_quiet (f : Firmware) (e : Ev) : ∀ e' ∈ f.sysEvents e,
    e' ≠ .hostReceive ∧ (e.expires = false → e'.expires = false) := by
  cases e with
  | usb e | rom bytes | lineCode | connection flags | cdcTask n => simp [sysEvents]
  | parserTask l =>
      rw [sysEvents]
      cases f.sys.parser with
      | delay | sending => simp [Plotter.Ev.expires]
      | receive => cases f.result? l <;> simp [Plotter.Ev.expires]
  | stepperTask =>
      rw [sysEvents]
      cases f.sys.stepper with
      | delay | receive | drawing object calls after => simp [Plotter.Ev.expires]
      | sendArea | sendOK pause => cases f.usb.tx.senders () <;> simp [Plotter.Ev.expires]
  | stepperExpire | calibrate rd | timer rd => simp [sysEvents, Plotter.Ev.expires, Ev.expires]

/-- Every command has its `OK`, or the stepper task is at work on it. -/
theorem executed_le_due {e : Ev} (h : f.sys.executed.length ≤ f.sys.due) (hstep : f.step e = some f') :
    f'.sys.executed.length ≤ f'.sys.due := by
  refine run_induction (I := fun s : Sys => s.executed.length ≤ s.due) ?_ h
    (along_of_forall_mem (sysEvents_quiet f e)) (step_sys hstep)
  intro s e' s' hs hG hstep
  have hdue := due_of_step hstep hG.1
  omega

/-- As long as no wait expires there is no other `OK`. -/
theorem due_eq_executed {e : Ev} (h : f.sys.due = f.sys.executed.length) (he : e.expires = false)
    (hstep : f.step e = some f') : f'.sys.due = f'.sys.executed.length := by
  refine run_induction (I := fun s : Sys => s.due = s.executed.length) ?_ h
    (along_of_forall_mem (sysEvents_quiet f e)) (step_sys hstep)
  intro s e' s' hs hG hstep
  have hdue := due_of_step hstep hG.1
  rw [hG.2 he, Bool.toNat_false] at hdue
  omega

end Step

/-! ## A host that waits for the stepper task -/

/-- The lines have come so far, and all of them but the last one are executed. -/
structure Waits (xy : Axis → ℚ) (lines : List HostLine) (f : Firmware) (got : List (List UInt8)) :
    Prop where
  follows : Follows xy lines f got
  known : f.sys.Known
  pipe : f.sys.executed ++ f.sys.underway = f.sys.parsed
  ahead : f.usb.rx.transfers.length ≤ f.sys.executed.length + 1

section Waits
variable {xy : Axis → ℚ} {lines : List HostLine} {f f' : Firmware} {got : List (List UInt8)}

theorem Waits.init (lines : List HostLine) (rx_buff : Buffer transferSize) (arrays : Reader)
    (parser : GCodeParser) :
    Waits parser.getCoord lines (.init rx_buff arrays parser) [] where
  follows := Follows.init lines rx_buff arrays parser
  known := Sys.Known.init
  pipe := rfl
  ahead := Nat.zero_le _

theorem Waits.underway_le (h : Waits xy lines f got) (hlines : ∀ line ∈ lines, line.Sendable) :
    f.sys.underway.length ≤ 1 := by
  have hgot := (h.follows.received.begins_of_short (h.follows.short hlines)).length_le
  have hparsed : f.sys.parsed.length ≤ got.length := by
    rw [h.follows.parsed, length_orders]
    exact List.length_take_le _ _
  have hahead := h.ahead
  rw [← h.pipe, List.length_append] at hparsed
  rw [List.length_map] at hgot
  omega

/-- **One step** with a host that waits. -/
theorem Waits.step (h : Waits xy lines f got) (hlines : ∀ line ∈ lines, line.Sendable) {e : Ev}
    (hG : HostWaits lines f e) (hstep : f.step e = some f') : ∃ got', Waits xy lines f' got' := by
  obtain ⟨got', hfollows⟩ := h.follows.step hlines hG.1 hstep
  have hsys := step_sys hstep
  have hguard := sysGuard_of_turns h.known (h.underway_le hlines) e
  have hrefines : f.sys.Refines f.sys.pipe := ⟨rfl, h.pipe⟩
  obtain ⟨p, -, hpipe, haccepted⟩ :=
    run_simulates (fun _ _ _ _ h hG hs => h.step hG hs) hrefines hguard hsys
  have hknown : f'.sys.Known := run_induction_all (fun _ _ _ h hs => h.step hs) h.known hsys
  refine ⟨got', hfollows, hknown, ?_, ?_⟩
  · rw [← haccepted, ← hpipe]
    rfl
  · have hexecuted := (executed_of_step hstep).length_le
    have hahead := h.ahead
    rw [transfers_of_step hstep, List.length_append]
    cases htransfer : e.transfer? with
    | none =>
        rw [Option.toList_none, List.length_nil]
        omega
    | some data =>
        have hwaits := hG.2 data htransfer
        rw [Option.toList_some, List.length_singleton]
        omega

theorem Waits.executed_prefix (h : Waits xy lines f got) : f.sys.executed <+: orders xy lines := by
  have hparsed : f.sys.executed <+: f.sys.parsed := ⟨_, h.pipe⟩
  rw [h.follows.parsed] at hparsed
  exact hparsed.trans (orders_begins (List.take_prefix _ lines) _)

end Waits

section Run
variable {rx_buff : Buffer transferSize} {arrays : Reader} {parser : GCodeParser}
  {es : List Ev} {f g : Firmware} {xy : Axis → ℚ} {lines : List HostLine}

theorem waits_of_run (hlines : ∀ line ∈ lines, line.Sendable) (h : ∃ got, Waits xy lines f got)
    (hG : Along step (HostWaits lines) f es) (hrun : run step f es = some g) :
    ∃ got, Waits xy lines g got :=
  run_induction (I := fun f => ∃ got, Waits xy lines f got)
    (fun _ _ _ ⟨_, h⟩ hG hstep => h.step hlines hG hstep) h hG hrun

end Run

/-! ## A host that counts -/

theorem chars_injective : Function.Injective Reply.chars := by
  intro r r' h
  cases r <;> cases r' <;> first | rfl | cases h

/-- The host has no more `OK`s than there are, with the one that is due. -/
theorem OKs_le {f : Firmware} (h : Answers f) : f.OKs ≤ f.sys.due := by
  have hreply : f.sys.stepper.reply?.toList.count .OK ≤ f.sys.stepper.busy.toNat := by
    cases f.sys.stepper with
    | delay | receive | sendArea | sendOK pause | drawing object calls after =>
        simp [StepperPc.reply?, StepperPc.busy]
  calc f.OKs
      ≤ ((f.sys.usbOut ++ f.sys.stepper.reply?.toList).map Reply.chars).count Reply.OK.chars :=
        h.split.2.sublist.count_le _
    _ = f.sys.usbOut.count .OK + f.sys.stepper.reply?.toList.count .OK := by
        rw [List.count_map_of_injective _ _ chars_injective, List.count_append]
    _ ≤ f.sys.due := Nat.add_le_add_left hreply _

/-- The host waits, whether it knows or not: it counts the `OK`s to its lines. -/
structure Counts (xy : Axis → ℚ) (lines : List HostLine) (f : Firmware) (got : List (List UInt8)) :
    Prop where
  waits : Waits xy lines f got
  answers : Answers f
  due : f.sys.due = f.sys.executed.length

section Counts
variable {xy : Axis → ℚ} {lines : List HostLine} {f f' : Firmware} {got : List (List UInt8)}

theorem Counts.init (lines : List HostLine) (rx_buff : Buffer transferSize) (arrays : Reader)
    (parser : GCodeParser) :
    Counts parser.getCoord lines (.init rx_buff arrays parser) [] where
  waits := Waits.init lines rx_buff arrays parser
  answers := Answers.init rx_buff arrays parser
  due := rfl

/-- A host that counts waits. -/
theorem Counts.hostWaits (h : Counts xy lines f got) {e : Ev} (hG : HostCounts lines f e) :
    HostWaits lines f e := by
  refine ⟨hG.1, ?_⟩
  intro data hdata
  exact (hG.2.1 data hdata).trans ((OKs_le h.answers).trans h.due.le)

/-- **One step** with a host that counts. -/
theorem Counts.step (h : Counts xy lines f got) (hlines : ∀ line ∈ lines, line.Sendable) {e : Ev}
    (hG : HostCounts lines f e) (hstep : f.step e = some f') : ∃ got', Counts xy lines f' got' := by
  obtain ⟨got', hwaits⟩ := h.waits.step hlines (h.hostWaits hG) hstep
  exact ⟨got', hwaits, h.answers.step hstep, due_eq_executed h.due hG.2.2 hstep⟩

end Counts

section Run
variable {rx_buff : Buffer transferSize} {arrays : Reader} {parser : GCodeParser}
  {es : List Ev} {f : Firmware} {lines : List HostLine}

end Run

/-! ## Two lines -/

instance (lines : List HostLine) (f : Firmware) (e : Ev) : Decidable (HostWaits lines f e) :=
  inferInstanceAs (Decidable (_ ∧ ∀ _ ∈ e.transfer?, _))

instance (lines : List HostLine) (f : Firmware) (e : Ev) : Decidable (HostCounts lines f e) :=
  inferInstanceAs (Decidable (_ ∧ (∀ _ ∈ e.transfer?, _) ∧ _))

/-- `M1 160` and `M10`. -/
def twoLines : List HostLine := [HostOrder.penDown.line, .M10]

theorem twoLines_sendable : ∀ line ∈ twoLines, line.Sendable := by
  intro line hline
  rcases List.mem_cons.mp hline with rfl | hline
  · exact HostOrder.penDown.line_sendable
  · rw [List.mem_singleton.mp hline]
    exact HostOrder.M10.line_sendable

/-- The host sends the second line while the `OK` for the first one is on its way. -/
def secondLine : List Ev :=
  servoDown ++ [.usb .OUT_NAK, .usb (.OUT (transferOf .M10))] ++ List.replicate 6 (.cdcTask 0)

/-- The host has the `OK` for the first line when it sends the second one. -/
def afterOK : List Ev :=
  servoDown ++ List.replicate 4 .stepperTask ++ [.connection ⟨true, false⟩] ++
    List.replicate 9 (.cdcTask 4) ++ [.usb .OUT_NAK, .usb (.OUT (transferOf .M10))]

end Firmware

end Plotter
