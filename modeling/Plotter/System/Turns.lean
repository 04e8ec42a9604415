import Plotter.System.Acknowledge

/-!
# Commands that take turns

While at most one command is under way between the parser task and the stepper task, a receive
cannot overwrite another one. And every command has its `OK`; the others come from waits of the
stepper task that expire.

## Main definitions

* `Sys.Frame`: what a step leaves alone of the lines and the replies.
* `Sys.Known`: what is under way are commands.
* `pendingKept_of_turns`: one command under way is not overwritten.
* `Sys.due`, `due_of_step`: how the `OK`s keep up with the commands.
* `Sys.Completes`: what is executed is completed, or the stepper task is at work on it.
-/

namespace Plotter

open Lib

/-! ## Lines and replies -/

/-- The host sends a line, or the parser task reads one. -/
def Ev.movesLine : Ev → Bool
  | .hostSend _ | .parserReceive => true
  | _ => false

/-- The stepper task ends a reply, or the host reads one. -/
def Ev.movesReply : Ev → Bool
  | .stepperSent | .hostReceive => true
  | _ => false

/-- Nothing that the parser task is given or has parsed differs, and no reply. -/
structure Sys.SameTransfers (s s' : Sys) : Prop where
  usbIn_eq : s'.usbIn = s.usbIn
  parsed_eq : s'.parsed = s.parsed
  usbOut_eq : s'.usbOut = s.usbOut

theorem Sys.sameTransfers_draw (s : Sys) (object : GObject) (calls : List Event) (after : Drawer) :
    s.SameTransfers (s.draw object calls after) := by
  rcases draw_cases s object calls after with ⟨rest, -, heq⟩ | ⟨-, heq⟩
  · rw [heq]
    exact ⟨rfl, rfl, rfl⟩
  · rw [heq]
    exact ⟨rfl, rfl, rfl⟩

/-- What a step leaves alone, if it moves no line, or no reply. -/
structure Sys.Frame (e : Ev) (s s' : Sys) : Prop where
  usbIn_eq : e.movesLine = false → s'.usbIn = s.usbIn
  parsed_eq : e.movesLine = false → s'.parsed = s.parsed
  usbOut_eq : e.movesReply = false → s'.usbOut = s.usbOut

theorem Sys.SameTransfers.frame {e : Ev} {s s' : Sys} (h : s.SameTransfers s') : s.Frame e s' :=
  ⟨fun _ => h.usbIn_eq, fun _ => h.parsed_eq, fun _ => h.usbOut_eq⟩

theorem frame_of_step {s s' : Sys} {e : Ev} (hs : step s e = some s') : s.Frame e s' := by
  cases e with
  | hostSend line =>
      rw [← Option.some_inj.mp hs]
      exact ⟨(fun hline => by cases hline), (fun hline => by cases hline), fun _ => rfl⟩
  | hostReceive =>
      obtain ⟨r, replies, -, rfl⟩ := Sys.hostReceive_cases hs
      exact ⟨fun _ => rfl, fun _ => rfl, fun hreply => by cases hreply⟩
  | parserDelayed =>
      obtain ⟨-, rfl⟩ := Sys.parserDelayed_cases hs
      exact Sys.SameTransfers.frame ⟨rfl, rfl, rfl⟩
  | parserReceive =>
      refine ⟨(fun hline => by cases hline), (fun hline => by cases hline), ?_⟩
      intro
      obtain ⟨-, line, lines, -, ⟨g, -, rfl⟩ | ⟨-, rfl⟩⟩ := Sys.parserReceive_cases hs
      · rfl
      · rfl
  | parserSend =>
      obtain ⟨-, -, rfl⟩ := Sys.parserSend_cases hs
      exact Sys.SameTransfers.frame ⟨rfl, rfl, rfl⟩
  | stepperDelayed =>
      obtain ⟨-, rfl⟩ := Sys.stepperDelayed_cases hs
      exact Sys.SameTransfers.frame ⟨rfl, rfl, rfl⟩
  | stepperReceive =>
      obtain ⟨-, g, -, rfl⟩ := Sys.stepperReceive_cases hs
      apply Sys.SameTransfers.frame
      cases g.order? with
      | none => exact ⟨rfl, rfl, rfl⟩
      | some o =>
          cases o with
          | M10 | M1 servo | G28 => exact ⟨rfl, rfl, rfl⟩
          | G1 x y =>
              have h := Sys.sameTransfers_draw (s.take g) g (moveEvents s.motors.scale g s.drawer)
                (triggerMotors s.motors.scale g s.drawer)
              exact ⟨h.usbIn_eq, h.parsed_eq, h.usbOut_eq⟩
  | stepperExpire =>
      obtain ⟨-, -, rfl⟩ := Sys.stepperExpire_cases hs
      exact Sys.SameTransfers.frame ⟨rfl, rfl, rfl⟩
  | stepperSent =>
      refine ⟨?_, ?_, fun hreply => by cases hreply⟩
      · intro
        obtain ⟨-, rfl⟩ | ⟨pause, -, rfl⟩ := Sys.stepperSent_cases hs
        · rfl
        · rfl
      · intro
        obtain ⟨-, rfl⟩ | ⟨pause, -, rfl⟩ := Sys.stepperSent_cases hs
        · rfl
        · rfl
  | stepperWake =>
      obtain ⟨object, calls, after, -, -, rfl⟩ := Sys.stepperWake_cases hs
      have h := Sys.sameTransfers_draw { s with motors := s.motors.wake } object calls after
      exact ⟨fun _ => h.usbIn_eq, fun _ => h.parsed_eq, fun _ => h.usbOut_eq⟩
  | calibrateRun rd =>
      obtain ⟨-, rfl⟩ | ⟨a, -, -, rfl⟩ := Sys.calibrateRun_cases hs
      · exact Sys.SameTransfers.frame ⟨rfl, rfl, rfl⟩
      · exact Sys.SameTransfers.frame ⟨rfl, rfl, rfl⟩
  | interrupt rd =>
      obtain ⟨-, rfl⟩ := Sys.interrupt_cases hs
      exact Sys.SameTransfers.frame ⟨rfl, rfl, rfl⟩

/-- A line that is a command, read with nothing else under way. -/
theorem parsed_of_line {s s' : Sys} {line : ParsedLine} {o : Order} (hnil : s.usbIn = [])
    (ho : line.order? = some o) (hs : (s.hostSend line).parserReceive = some s') :
    s'.usbIn = [] ∧ s'.parsed = s.parsed ++ [o] := by
  obtain ⟨-, line', lines, hlines, hcases⟩ := Sys.parserReceive_cases hs
  have hone : [line] = line' :: lines := by rw [← hlines, Sys.hostSend, hnil]; rfl
  obtain ⟨rfl, rfl⟩ := List.cons_eq_cons.mp hone
  rcases hcases with ⟨g, -, rfl⟩ | ⟨hnone, -⟩
  · exact ⟨rfl, by rw [ho]; rfl⟩
  · rw [ho] at hnone
    cases hnone

/-! ## The stepper task at a reply -/

/-- The reply that the stepper task sends. -/
def StepperPc.reply? : StepperPc → Option Reply
  | .sendArea => some .area
  | .sendOK _ => some .OK
  | _ => none

/-- While it sends a reply the stepper task does nothing else. -/
theorem stepper_of_replying {s s' : Sys} {e : Ev} (hs : step s e = some s') {r : Reply}
    (hr : s.stepper.reply? = some r) (hreply : e.movesReply = false) : s'.stepper = s.stepper := by
  cases e with
  | stepperSent => cases hreply
  | hostReceive => cases hreply
  | hostSend line => exact (sameWork_of_transfer rfl hs).stepper_eq
  | parserDelayed => exact (sameWork_of_transfer rfl hs).stepper_eq
  | parserReceive => exact (sameWork_of_transfer rfl hs).stepper_eq
  | parserSend => exact (sameWork_of_transfer rfl hs).stepper_eq
  | stepperDelayed =>
      obtain ⟨hpc, -⟩ := Sys.stepperDelayed_cases hs
      rw [hpc] at hr
      cases hr
  | stepperReceive =>
      obtain ⟨hpc, -⟩ := Sys.stepperReceive_cases hs
      rw [hpc] at hr
      cases hr
  | stepperExpire =>
      obtain ⟨hpc, -⟩ := Sys.stepperExpire_cases hs
      rw [hpc] at hr
      cases hr
  | stepperWake =>
      obtain ⟨object, calls, after, hpc, -⟩ := Sys.stepperWake_cases hs
      rw [hpc] at hr
      cases hr
  | calibrateRun rd =>
      obtain ⟨-, rfl⟩ | ⟨a, -, -, rfl⟩ := Sys.calibrateRun_cases hs
      · rfl
      · rfl
  | interrupt rd => obtain ⟨-, rfl⟩ := Sys.interrupt_cases hs; rfl

/-- The end of a `USB_send` is the end of the reply. -/
theorem usbOut_of_sent {s s' : Sys} (hs : step s .stepperSent = some s') :
    ∃ r, s.stepper.reply? = some r ∧ s'.usbOut = s.usbOut ++ [r] := by
  obtain ⟨hpc, rfl⟩ | ⟨pause, hpc, rfl⟩ := Sys.stepperSent_cases hs
  · exact ⟨.area, by rw [hpc]; rfl, rfl⟩
  · exact ⟨.OK, by rw [hpc]; rfl, rfl⟩

/-! ## One command under way -/

/-- The item of the queue and what waits for room in it are commands. -/
structure Sys.Known (s : Sys) : Prop where
  queue : ∀ g ∈ s.commandQueue, g.order?.isSome
  pending : s.parser = .sending → s.gObject.order?.isSome

namespace Sys.Known
variable {s s' : Sys}

theorem init : Sys.init.Known := ⟨by simp [Sys.init], by simp [Sys.init]⟩

theorem of_same (h : s.Known) (hsame : s.SameExchange s') : s'.Known := by
  refine ⟨?_, ?_⟩
  · rw [hsame.commandQueue_eq]
    exact h.queue
  · rw [hsame.parser_eq, hsame.gObject_eq]
    exact h.pending

theorem step {e : Ev} (h : s.Known) (hs : step s e = some s') : s'.Known := by
  cases e with
  | parserReceive =>
      obtain ⟨hpc, line, lines, -, ⟨g, hstore, rfl⟩ | ⟨-, rfl⟩⟩ := parserReceive_cases hs
      · obtain ⟨o, -, horder⟩ := ParsedLine.order?_of_store hstore
        exact ⟨h.queue, fun _ => by simp [horder]⟩
      · exact ⟨h.queue, h.pending⟩
  | parserSend =>
      obtain ⟨hpc, -, rfl⟩ := parserSend_cases hs
      exact ⟨by simpa using h.pending hpc, by simp⟩
  | parserDelayed =>
      obtain ⟨-, rfl⟩ := parserDelayed_cases hs
      exact ⟨h.queue, by simp⟩
  | stepperReceive =>
      obtain ⟨g, hqueue, hsame⟩ := sameExchange_receive hs
      have htake : (s.take g).Known := ⟨by simp [take], fun _ => h.queue g hqueue⟩
      exact htake.of_same hsame
  | _ =>
      apply h.of_same
      apply sameExchange_of_step hs <;> exact Ev.noConfusion

end Sys.Known

/-- **Turns.** With one command under way a receive does not overwrite another one. -/
theorem pendingKept_of_turns {s : Sys} (h : s.Known) (hone : s.underway.length ≤ 1) (e : Ev) :
    PendingKept s e := by
  intro _ hpc g hg
  obtain ⟨o, ho⟩ := Option.isSome_iff_exists.mp (h.queue g hg)
  obtain ⟨o', ho'⟩ := Option.isSome_iff_exists.mp (h.pending hpc)
  have htwo : s.underway = [o, o'] := by simp [Sys.underway, Option.mem_def.mp hg, hpc, ho, ho']
  rw [htwo, List.length_cons, List.length_singleton] at hone
  omega

/-- What is executed stays executed. -/
theorem executed_of_step {s s' : Sys} {e : Ev} (hs : step s e = some s') :
    s.executed <+: s'.executed := by
  cases e with
  | stepperReceive =>
      obtain ⟨g, -, hsame⟩ := Sys.sameExchange_receive hs
      rw [hsame.executed_eq]
      exact List.prefix_append _ _
  | parserReceive =>
      obtain ⟨-, line, lines, -, ⟨g, -, rfl⟩ | ⟨-, rfl⟩⟩ := Sys.parserReceive_cases hs
      · exact List.prefix_refl _
      · exact List.prefix_refl _
  | parserSend =>
      obtain ⟨-, -, rfl⟩ := Sys.parserSend_cases hs
      exact List.prefix_refl _
  | parserDelayed =>
      obtain ⟨-, rfl⟩ := Sys.parserDelayed_cases hs
      exact List.prefix_refl _
  | _ =>
      have hsame : s.SameExchange s' := by
        apply sameExchange_of_step hs <;> exact Ev.noConfusion
      rw [hsame.executed_eq]

/-! ## Each command has its `OK` -/

/-- The stepper task is at work on a command, or sends the reply to it. -/
def StepperPc.busy : StepperPc → Bool
  | .sendArea | .sendOK _ | .drawing _ _ _ => true
  | .delay | .receive => false

/-- The `OK`s, with one for what the stepper task is at work on. -/
def Sys.due (s : Sys) : ℕ := s.usbOut.count .OK + s.stepper.busy.toNat

/-- The wait of the stepper task expires. -/
def Ev.expires : Ev → Bool
  | .stepperExpire => true
  | _ => false

section Due
variable {s s' : Sys}

theorem busy_draw (s : Sys) (object : GObject) (calls : List Event) (after : Drawer) :
    (s.draw object calls after).stepper.busy = true := by
  rcases Sys.draw_cases s object calls after with ⟨rest, -, heq⟩ | ⟨-, heq⟩
  · rw [heq]
    rfl
  · rw [heq]
    rfl

theorem due_of_eq (husbOut : s'.usbOut = s.usbOut) (hbusy : s'.stepper.busy = s.stepper.busy) :
    s'.due = s.due := by
  rw [Sys.due, Sys.due, husbOut, hbusy]

/-- A command begins: its `OK` is due. -/
theorem due_of_receive (hs : s.stepperReceive = some s') :
    s'.due + s.executed.length = s.due + s'.executed.length := by
  have husbOut : s'.usbOut = s.usbOut :=
    (frame_of_step (e := .stepperReceive) hs).usbOut_eq rfl
  obtain ⟨g, hqueue, hsame⟩ := Sys.sameExchange_receive hs
  have hexecuted : s'.executed = s.executed ++ g.order?.toList := hsame.executed_eq
  obtain ⟨hpc, g', hqueue', heq⟩ := Sys.stepperReceive_cases hs
  obtain rfl : g = g' := Option.some_inj.mp (hqueue.symm.trans hqueue')
  cases horder : g.order? with
  | none =>
      rw [horder] at heq
      rw [heq]
      simp [Sys.due, Sys.take, horder]
  | some o =>
      have hbusy : s'.stepper.busy = true := by
        rw [heq, horder]
        cases o with
        | M10 | M1 servo | G28 => rfl
        | G1 x y => exact busy_draw (s.take g) ..
      rw [Sys.due, Sys.due, husbOut, hbusy, hpc, hexecuted, horder]
      simp only [StepperPc.busy, Option.toList_some, List.length_append, List.length_singleton,
        Bool.toNat_true, Bool.toNat_false]
      omega

/-- A reply ends; only the `OK` is the last one of its command. -/
theorem due_of_sent (hs : s.stepperSent = some s') : s'.due = s.due := by
  obtain ⟨hpc, rfl⟩ | ⟨pause, hpc, rfl⟩ := Sys.stepperSent_cases hs
  · simp [Sys.due, hpc, StepperPc.busy]
  · cases pause <;> simp [Sys.due, hpc, StepperPc.busy]

/-- **One step** and the `OK`s: they keep up with the commands, and a wait that expires brings one
more. -/
theorem due_of_step {e : Ev} (hs : step s e = some s') (hreceive : e ≠ .hostReceive) :
    s'.due + s.executed.length = s.due + s'.executed.length + e.expires.toNat := by
  cases e with
  | hostReceive => exact absurd rfl hreceive
  | hostSend line =>
      rw [← Option.some_inj.mp hs]
      rfl
  | parserDelayed =>
      obtain ⟨-, rfl⟩ := Sys.parserDelayed_cases hs
      rfl
  | parserReceive =>
      obtain ⟨-, line, lines, -, ⟨g, -, rfl⟩ | ⟨-, rfl⟩⟩ := Sys.parserReceive_cases hs
      · rfl
      · rfl
  | parserSend =>
      obtain ⟨-, -, rfl⟩ := Sys.parserSend_cases hs
      rfl
  | stepperDelayed =>
      obtain ⟨hpc, rfl⟩ := Sys.stepperDelayed_cases hs
      have hdue : Sys.due { s with stepper := .receive } = s.due :=
        due_of_eq rfl (by rw [hpc]; rfl)
      rw [hdue]
      rfl
  | stepperReceive => exact due_of_receive hs
  | stepperExpire =>
      obtain ⟨hpc, -, rfl⟩ := Sys.stepperExpire_cases hs
      simp only [Sys.due, hpc, StepperPc.busy, Ev.expires, Bool.toNat_true, Bool.toNat_false]
      omega
  | stepperSent =>
      have hexecuted : s'.executed = s.executed := by
        obtain ⟨-, rfl⟩ | ⟨pause, -, rfl⟩ := Sys.stepperSent_cases hs
        · rfl
        · rfl
      rw [due_of_sent hs, hexecuted]
      rfl
  | stepperWake =>
      obtain ⟨object, calls, after, hpc, -, rfl⟩ := Sys.stepperWake_cases hs
      have hsame := Sys.sameExchange_draw { s with motors := s.motors.wake } object calls after
      have htransfers :=
        Sys.sameTransfers_draw { s with motors := s.motors.wake } object calls after
      have hdue : (Sys.draw { s with motors := s.motors.wake } object calls after).due = s.due :=
        due_of_eq htransfers.usbOut_eq (by rw [busy_draw, hpc]; rfl)
      rw [hdue, hsame.executed_eq]
      rfl
  | calibrateRun rd =>
      obtain ⟨-, rfl⟩ | ⟨a, -, -, rfl⟩ := Sys.calibrateRun_cases hs
      · rfl
      · rfl
  | interrupt rd =>
      obtain ⟨-, rfl⟩ := Sys.interrupt_cases hs
      rfl

end Due

/-! ## The commands that are done -/

/-- What the stepper task has received and not completed is what it is at work on. -/
def Sys.Completes (s : Sys) : Prop := s.executed = s.completed ++ s.stepper.order?.toList

namespace Sys.Completes
variable {s s' : Sys}

theorem init : Sys.init.Completes := rfl

theorem draw {t : Sys} {object : GObject} (calls : List Event) (after : Drawer)
    (h : t.executed = t.completed ++ [.G1 object.xCoord object.yCoord]) :
    (t.draw object calls after).Completes := by
  rcases draw_cases t object calls after with ⟨rest, -, heq⟩ | ⟨-, heq⟩
  · rw [heq]
    exact h
  · rw [heq]
    exact h.trans (List.append_nil _).symm

theorem of_rest (h : s.Completes) (hpc : s.stepper.order? = none) : s.executed = s.completed := by
  rw [Completes, hpc, Option.toList_none, List.append_nil] at h
  exact h

theorem stepperReceive (h : s.Completes) (hs : s.stepperReceive = some s') : s'.Completes := by
  obtain ⟨hpc, g, -, rfl⟩ := stepperReceive_cases hs
  have hdone := h.of_rest (by rw [hpc]; rfl)
  have htake : ∀ o, g.order? = some o → (s.take g).executed = s.completed ++ [o] := by
    intro o ho
    rw [take, hdone, ho]
    rfl
  cases horder : g.order? with
  | none =>
      change s.executed ++ g.order?.toList = s.completed ++ s.stepper.order?.toList
      rw [horder, hdone, hpc]
      rfl
  | some o =>
      cases o with
      | M10 => exact htake _ horder
      | M1 servo | G28 =>
          change (s.take g).executed = (s.completed ++ [_]) ++ []
          rw [List.append_nil]
          exact htake _ horder
      | G1 x y =>
          obtain ⟨rfl, rfl⟩ := g.coord_of_order horder
          exact draw (t := s.take g) _ _ (htake _ horder)

/-- **One step.** -/
theorem step {e : Ev} (h : s.Completes) (hs : step s e = some s') : s'.Completes := by
  cases e with
  | hostSend line => rw [← Option.some_inj.mp hs]; exact h
  | hostReceive => obtain ⟨r, replies, -, rfl⟩ := hostReceive_cases hs; exact h
  | parserDelayed => obtain ⟨-, rfl⟩ := parserDelayed_cases hs; exact h
  | parserReceive =>
      obtain ⟨-, line, lines, -, ⟨g, -, rfl⟩ | ⟨-, rfl⟩⟩ := parserReceive_cases hs
      · exact h
      · exact h
  | parserSend => obtain ⟨-, -, rfl⟩ := parserSend_cases hs; exact h
  | stepperDelayed =>
      obtain ⟨hpc, rfl⟩ := stepperDelayed_cases hs
      rw [Completes, hpc] at h
      exact h
  | stepperReceive => exact h.stepperReceive hs
  | stepperExpire =>
      obtain ⟨hpc, -, rfl⟩ := stepperExpire_cases hs
      rw [Completes, hpc] at h
      exact h
  | stepperSent =>
      obtain ⟨hpc, rfl⟩ | ⟨pause, hpc, rfl⟩ := stepperSent_cases hs
      · rw [Completes, hpc] at h
        exact h.trans (List.append_nil _).symm
      · rw [Completes, hpc] at h
        cases pause <;> exact h
  | stepperWake =>
      obtain ⟨object, calls, after, hpc, -, rfl⟩ := stepperWake_cases hs
      rw [Completes, hpc] at h
      exact draw (t := { s with motors := s.motors.wake }) calls after h
  | calibrateRun rd =>
      obtain ⟨-, rfl⟩ | ⟨a, -, -, rfl⟩ := calibrateRun_cases hs
      · exact h
      · exact h
  | interrupt rd => obtain ⟨-, rfl⟩ := interrupt_cases hs; exact h

end Sys.Completes

end Plotter
