import Plotter.System.Commands

/-!
# What an `OK` says

The stepper task answers `OK` when a command is done, and also when its wait for a command
expires. So an `OK` says that everything is done only if no wait expires while a line is
under way, and if the host does not send a line while an older `OK` has still to arrive.

## Main definitions

* `HostProtocol`: the host sends a line only after an `OK` for the last one.
* `Unhurried`: the waits and the lines keep clear of each other.
* `OK_acknowledges`: then an `OK` finds every line executed.
-/

namespace Plotter

open Lib

/-- The line of an event of the host. -/
def Ev.line? : Ev → Option ParsedLine
  | .hostSend line => some line
  | _ => none

/-- The host sends `M10`, `M1` and `G1` lines, each after an `OK` since the last one. -/
def HostProtocol (s : Sys) (e : Ev) : Prop :=
  ∀ line ∈ e.line?, s.outstanding = false ∧
    (line.read = Command.M10.toInt ∨ line.read = Command.M1.toInt ∨
      line.read = Command.G1.toInt)

/-- The stepper task is sending `OK`. -/
def StepperPc.sendsOK : StepperPc → Bool
  | .sendOK _ => true
  | _ => false

/-- An `OK` has still to arrive at the host. -/
def Sys.OKUnderway (s : Sys) : Prop := Reply.OK ∈ s.usbOut ∨ s.stepper.sendsOK = true

/-- The host obeys the protocol and sends no line while an `OK` is under way, and the wait of
the stepper task expires only when everything the host has sent is executed. -/
def Unhurried (s : Sys) (e : Ev) : Prop :=
  HostProtocol s e ∧ (∀ line ∈ e.line?, ¬ s.OKUnderway) ∧
    (e = .stepperExpire → s.completed.length = s.sent.length)

instance (s : Sys) (e : Ev) : Decidable (HostProtocol s e) :=
  inferInstanceAs (Decidable (∀ line ∈ e.line?, _))

instance (s : Sys) : Decidable s.OKUnderway := inferInstanceAs (Decidable (_ ∨ _))

instance (s : Sys) (e : Ev) : Decidable (Unhurried s e) :=
  inferInstanceAs (Decidable (_ ∧ (∀ line ∈ e.line?, _) ∧ _))

/-- The command that the stepper task is at work on. -/
def StepperPc.order? : StepperPc → Option Order
  | .sendArea => some .M10
  | .drawing object _ _ => some (.G1 object.xCoord object.yCoord)
  | _ => none

/-- The commands on their way from the host to the stepper task. -/
def Sys.waiting (s : Sys) : List Order := s.underway ++ s.usbIn.filterMap ParsedLine.order?

/-- The commands that were sent and are not executed, oldest first. -/
def Sys.unfinished (s : Sys) : List Order := s.stepper.order?.toList ++ s.waiting

/-- At most one line is not executed, and while there is one no `OK` is under way. -/
structure Sys.AckInv (s : Sys) : Prop where
  all_eq : (s.completed ++ s.unfinished).map some = s.sent.map ParsedLine.order?
  one : s.unfinished.length ≤ 1
  quiet : s.unfinished ≠ [] → s.outstanding = true ∧ ¬ s.OKUnderway
  queue_known : ∀ g ∈ s.commandQueue, g.order?.isSome
  pending_known : s.parser = .sending → s.gObject.order?.isSome

theorem order?_of_protocol {line : ParsedLine} (h : line.read = Command.M10.toInt ∨
    line.read = Command.M1.toInt ∨ line.read = Command.G1.toInt) :
    ∃ o, line.order? = some o := by
  unfold ParsedLine.order?
  rcases h with h | h | h
  · exact ⟨.M10, by rw [h, Command.ofInt?_toInt]⟩
  · exact ⟨.M1 line.angle, by rw [h, Command.ofInt?_toInt]⟩
  · exact ⟨.G1 line.xCoord line.yCoord, by rw [h, Command.ofInt?_toInt]⟩

namespace Sys.AckInv
variable {s s' : Sys}

theorem init : Sys.init.AckInv :=
  ⟨rfl, Nat.zero_le _, fun h => absurd rfl h, by simp [Sys.init], by simp [Sys.init]⟩

/-- Steps that move a command on without executing it. -/
theorem of_same (h : s.AckInv) (hu : s'.unfinished = s.unfinished)
    (hc : s'.completed = s.completed) (hsent : s'.sent = s.sent)
    (hout : s'.outstanding = s.outstanding) (hOK : s'.OKUnderway → s.OKUnderway)
    (hqueue : ∀ g ∈ s'.commandQueue, g.order?.isSome)
    (hpending : s'.parser = .sending → s'.gObject.order?.isSome) : s'.AckInv where
  all_eq := by rw [hu, hc, hsent, h.all_eq]
  one := by rw [hu]; exact h.one
  quiet := by
    intro hne
    rw [hu] at hne
    rw [hout]
    exact ⟨(h.quiet hne).1, fun hok => (h.quiet hne).2 (hOK hok)⟩
  queue_known := hqueue
  pending_known := hpending

/-- The steps that execute a command: the one that was not executed. -/
theorem of_completed (h : s.AckInv) {o : Order} (hu : s.unfinished = o :: s'.unfinished)
    (hc : s'.completed = s.completed ++ [o]) (hsent : s'.sent = s.sent)
    (hqueue : ∀ g ∈ s'.commandQueue, g.order?.isSome)
    (hpending : s'.parser = .sending → s'.gObject.order?.isSome) : s'.AckInv where
  all_eq := by rw [hc, hsent, ← h.all_eq, hu, List.append_assoc, List.singleton_append]
  one := by
    have := h.one
    rw [hu, List.length_cons] at this
    omega
  quiet := by
    intro hne
    have := h.one
    rw [hu, List.length_cons] at this
    exact absurd (List.length_eq_zero_iff.mp (by omega)) hne
  queue_known := hqueue
  pending_known := hpending

/-- With everything executed nothing is asked of the transfers. -/
theorem of_done (h : s.AckInv) (hnil : s.unfinished = []) (hu : s'.unfinished = s.unfinished)
    (hc : s'.completed = s.completed) (hsent : s'.sent = s.sent)
    (hqueue : s'.commandQueue = s.commandQueue) (hparser : s'.parser = s.parser)
    (hobject : s'.gObject = s.gObject) : s'.AckInv where
  all_eq := by rw [hu, hc, hsent, h.all_eq]
  one := by rw [hu]; exact h.one
  quiet := fun hne => absurd (hu.trans hnil) hne
  queue_known := by rw [hqueue]; exact h.queue_known
  pending_known := by rw [hparser, hobject]; exact h.pending_known

theorem unfinished_of_OK (h : s.AckInv) (hOK : s.OKUnderway) : s.unfinished = [] := by
  by_contra hne
  exact (h.quiet hne).2 hOK

theorem hostSend (h : s.AckInv) {line : ParsedLine} (hG : Unhurried s (.hostSend line)) :
    (s.hostSend line).AckInv := by
  obtain ⟨hfree, hread⟩ := hG.1 line rfl
  obtain ⟨o, ho⟩ := order?_of_protocol hread
  have hnil : s.unfinished = [] := by
    by_contra hne
    rw [(h.quiet hne).1] at hfree
    exact Bool.false_ne_true hfree.symm
  have hu : (s.hostSend line).unfinished = [o] := by
    change s.stepper.order?.toList ++ (s.underway ++ (s.usbIn ++ [line]).filterMap _) = [o]
    rw [List.filterMap_append, ← List.append_assoc, ← List.append_assoc,
      List.append_assoc s.stepper.order?.toList]
    change s.unfinished ++ _ = [o]
    simp [hnil, ho]
  refine ⟨?_, by rw [hu]; exact Nat.le_refl 1, fun _ => ⟨rfl, hG.2.1 line rfl⟩, h.queue_known,
    h.pending_known⟩
  have hall := h.all_eq
  rw [hnil, List.append_nil] at hall
  change (s.completed ++ (s.hostSend line).unfinished).map some =
    (s.sent ++ [line]).map ParsedLine.order?
  rw [hu, List.map_append, List.map_append, hall, List.map_singleton, List.map_singleton, ho]

theorem hostReceive (h : s.AckInv) (hs : s.hostReceive = some s') : s'.AckInv := by
  obtain ⟨r, replies, hout, rfl⟩ := hostReceive_cases hs
  cases r with
  | OK => exact h.of_done (h.unfinished_of_OK (.inl (by simp [hout]))) rfl rfl rfl rfl rfl rfl
  | area =>
      refine h.of_same rfl rfl rfl rfl (fun hOK => ?_) h.queue_known h.pending_known
      exact hOK.imp_left fun hmem => by rw [hout]; exact List.mem_cons_of_mem _ hmem

theorem parserReceive (h : s.AckInv) (hs : s.parserReceive = some s') : s'.AckInv := by
  obtain ⟨hpc, line, lines, hin, ⟨g, hstore, rfl⟩ | ⟨hnone, rfl⟩⟩ := parserReceive_cases hs
  · obtain ⟨o, hline, horder⟩ := ParsedLine.order?_of_store hstore
    refine h.of_same ?_ rfl rfl rfl id h.queue_known fun _ => by simp [horder]
    simp [unfinished, waiting, underway, hpc, hin, hline, horder]
  · refine h.of_same ?_ rfl rfl rfl id h.queue_known h.pending_known
    simp [unfinished, waiting, underway, hin, hnone]

theorem parserSend (h : s.AckInv) (hs : s.parserSend = some s') : s'.AckInv := by
  obtain ⟨hpc, hqueue, rfl⟩ := parserSend_cases hs
  refine h.of_same ?_ rfl rfl rfl id ?_ (by simp)
  · simp [unfinished, waiting, underway, hpc, hqueue]
  · rintro g hg
    obtain rfl := Option.some_inj.mp hg
    exact h.pending_known hpc

/-- With an item in the queue no other command is on its way. -/
theorem take (h : s.AckInv) (hpc : s.stepper = .receive) {g : GObject}
    (hqueue : s.commandQueue = some g) : s.parser ≠ .sending ∧
      ∃ o, g.order? = some o ∧ s.unfinished = o :: (s.take g).waiting := by
  obtain ⟨o, ho⟩ := Option.isSome_iff_exists.mp (h.queue_known g hqueue)
  have hparser : s.parser ≠ .sending := by
    intro hsending
    obtain ⟨o', ho'⟩ := Option.isSome_iff_exists.mp (h.pending_known hsending)
    have hone := h.one
    simp [unfinished, waiting, underway, hqueue, hsending, ho, ho'] at hone
    omega
  refine ⟨hparser, o, ho, ?_⟩
  simp [unfinished, waiting, underway, Sys.take, hpc, hqueue, hparser, ho, StepperPc.order?]

/-- A stretch of a move: it is still the one command that is not executed, or it is done. -/
theorem draw (h : s.AckInv) {t : Sys} {object : GObject}
    (hu : s.unfinished = .G1 object.xCoord object.yCoord :: t.waiting)
    (hc : t.completed = s.completed) (hsent : t.sent = s.sent)
    (hout : t.outstanding = s.outstanding) (husb : t.usbOut = s.usbOut)
    (hqueue : ∀ g ∈ t.commandQueue, g.order?.isSome)
    (hpending : t.parser = .sending → t.gObject.order?.isSome) (calls : List Event)
    (after : Drawer) : (t.draw object calls after).AckInv := by
  rcases draw_cases t object calls after with ⟨rest, -, heq⟩ | ⟨-, heq⟩
  · rw [heq]
    refine h.of_same hu.symm hc hsent hout (fun hOK => .inl ?_) hqueue hpending
    exact husb ▸ hOK.resolve_right (by simp [StepperPc.sendsOK])
  · rw [heq]
    exact h.of_completed hu (by rw [hc]) hsent hqueue hpending

theorem stepperReceive (h : s.AckInv) (hs : s.stepperReceive = some s') : s'.AckInv := by
  obtain ⟨hpc, g, hqueue, rfl⟩ := stepperReceive_cases hs
  obtain ⟨hparser, o, ho, hu⟩ := h.take hpc hqueue
  have hpending : s.parser = .sending → g.order?.isSome := fun hsending => absurd hsending hparser
  rw [ho]
  cases o with
  | M10 =>
      refine h.of_same hu.symm rfl rfl rfl (fun hOK => ?_) (by simp [Sys.take]) hpending
      exact .inl (hOK.resolve_right (by simp [StepperPc.sendsOK]))
  | M1 servo => exact h.of_completed hu rfl rfl (by simp [Sys.take]) hpending
  | G28 => exact h.of_completed hu rfl rfl (by simp [Sys.take]) hpending
  | G1 x y =>
      obtain ⟨rfl, rfl⟩ := g.coord_of_order ho
      exact h.draw (t := s.take g) hu rfl rfl rfl rfl (by simp [Sys.take]) hpending _ _

theorem stepperExpire (h : s.AckInv) (hG : Unhurried s .stepperExpire)
    (hs : s.stepperExpire = some s') : s'.AckInv := by
  obtain ⟨hpc, -, rfl⟩ := stepperExpire_cases hs
  have hnil : s.unfinished = [] := by
    have hlen := congrArg List.length h.all_eq
    rw [List.length_map, List.length_map, List.length_append, hG.2.2 rfl] at hlen
    exact List.length_eq_zero_iff.mp (by omega)
  refine h.of_done hnil ?_ rfl rfl rfl rfl rfl
  simp [unfinished, waiting, underway, hpc, StepperPc.order?]

theorem stepperSent (h : s.AckInv) (hs : s.stepperSent = some s') : s'.AckInv := by
  obtain ⟨hpc, rfl⟩ | ⟨pause, hpc, rfl⟩ := stepperSent_cases hs
  · refine h.of_completed (o := .M10) ?_ rfl rfl h.queue_known h.pending_known
    simp [unfinished, waiting, underway, hpc, StepperPc.order?]
  · refine h.of_done (h.unfinished_of_OK (.inr (by rw [hpc]; rfl))) ?_ rfl rfl rfl rfl rfl
    cases pause <;> simp [unfinished, waiting, underway, hpc, StepperPc.order?]

theorem stepperWake (h : s.AckInv) (hs : s.stepperWake = some s') : s'.AckInv := by
  obtain ⟨object, calls, after, hpc, -, rfl⟩ := stepperWake_cases hs
  refine h.draw (t := { s with motors := s.motors.wake }) ?_ rfl rfl rfl rfl h.queue_known
    h.pending_known calls after
  simp [unfinished, waiting, underway, hpc, StepperPc.order?]

/-- **One step** of an unhurried run leaves at most one line that is not executed. -/
theorem step {e : Ev} (h : s.AckInv) (hG : Unhurried s e) (hs : step s e = some s') :
    s'.AckInv := by
  cases e with
  | hostSend line =>
      rw [← Option.some_inj.mp hs]
      exact h.hostSend hG
  | hostReceive => exact h.hostReceive hs
  | parserDelayed =>
      obtain ⟨hpc, rfl⟩ := parserDelayed_cases hs
      refine h.of_same ?_ rfl rfl rfl id h.queue_known (by simp)
      simp [unfinished, waiting, underway, hpc]
  | parserReceive => exact h.parserReceive hs
  | parserSend => exact h.parserSend hs
  | stepperDelayed =>
      obtain ⟨hpc, rfl⟩ := stepperDelayed_cases hs
      refine h.of_same ?_ rfl rfl rfl (fun hOK => ?_) h.queue_known h.pending_known
      · simp [unfinished, waiting, underway, hpc, StepperPc.order?]
      · exact .inl (hOK.resolve_right (by simp [StepperPc.sendsOK]))
  | stepperReceive => exact h.stepperReceive hs
  | stepperExpire => exact h.stepperExpire hG hs
  | stepperSent => exact h.stepperSent hs
  | stepperWake => exact h.stepperWake hs
  | calibrateRun rd =>
      obtain ⟨-, rfl⟩ | ⟨a, -, -, rfl⟩ := calibrateRun_cases hs
      · exact h.of_same rfl rfl rfl rfl id h.queue_known h.pending_known
      · exact h.of_same rfl rfl rfl rfl id h.queue_known h.pending_known
  | interrupt rd =>
      obtain ⟨-, rfl⟩ := interrupt_cases hs
      exact h.of_same rfl rfl rfl rfl id h.queue_known h.pending_known

end Sys.AckInv

/-- **Acknowledgement.** In every unhurried run, when an `OK` is the next reply to arrive,
the commands of all lines the host has sent are executed, in order. -/
theorem OK_acknowledges {es : List Ev} {s : Sys} (hG : Along step Unhurried Sys.init es)
    (hrun : run step Sys.init es = some s) {replies : List Reply}
    (hOK : s.usbOut = .OK :: replies) :
    s.completed.map some = s.sent.map ParsedLine.order? := by
  have h : s.AckInv := run_induction (fun _ _ _ h hG hs => h.step hG hs) Sys.AckInv.init hG hrun
  have hall := h.all_eq
  rwa [h.unfinished_of_OK (.inl (by simp [hOK])), List.append_nil] at hall

/-- An `M10` and a servo command, each sent after the `OK` for the last line. -/
def unhurried : List Ev :=
  [.parserDelayed, .stepperDelayed] ++ parseLine { read := 1 } ++
    [.parserSend, .stepperReceive, .stepperSent, .stepperSent, .hostReceive, .hostReceive] ++
    parseLine { read := 2, angle := 160 } ++ [.parserSend, .stepperReceive, .stepperSent]

theorem OK_acknowledges_unhurried : ∃ s, run step Sys.init unhurried = some s ∧
    s.completed.map some = s.sent.map ParsedLine.order? := by
  have hend : ∃ s, run step Sys.init unhurried = some s ∧ s.usbOut = [.OK] :=
    exists_of_run (by decide +kernel)
  obtain ⟨s, hs, hOK⟩ := hend
  exact ⟨s, hs, OK_acknowledges (by decide +kernel) hs hOK⟩

/-- The wait of the stepper task has expired; its `OK` is under way when the host sends. -/
def expired : List Ev :=
  [.stepperDelayed, .stepperExpire, .stepperSent, .hostSend { read := 1 }]

/-- The protocol of the host alone is not enough: the `OK` arrives while its line is still
in the USB buffer. -/
theorem expired_acknowledges_nothing : ¬ ∀ (es : List Ev) (s : Sys) (replies : List Reply),
    Along step HostProtocol Sys.init es → run step Sys.init es = some s →
      s.outstanding = true → s.usbOut = .OK :: replies →
        s.completed.map some = s.sent.map ParsedLine.order? := by
  intro h
  have hend : ∃ s, run step Sys.init expired = some s ∧ s.outstanding = true ∧
      s.usbOut = [.OK] ∧ s.completed = [] ∧ s.sent = [{ read := 1 }] :=
    exists_of_run (by decide +kernel)
  obtain ⟨s, hs, hout, hOK, hcompleted, hsent⟩ := hend
  have hall := h expired s [] (by decide +kernel) hs hout hOK
  rw [hcompleted, hsent] at hall
  cases hall

end Plotter
