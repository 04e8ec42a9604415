import Plotter.Lib.Pipe
import Plotter.System

/-!
# Commands between the tasks

The parser task, the queue and the stepper task are meant as a pipe: what is parsed is
executed, each command once and in order. They are a pipe as long as `xQueueReceive` does not
copy a command over a different one that still waits in `gObject` for room in the queue.

## Main definitions

* `Sys.pipe`: the pipe that a state stands for.
* `PendingKept`: a receive does not change the command that waits in `gObject`.
* `executed_prefix_parsed`: along such receives nothing is lost, repeated or altered.
-/

namespace Plotter

open Lib

/-- The commands on their way: the item of the queue, then what waits in `gObject`. -/
def Sys.underway (s : Sys) : List Order :=
  (s.commandQueue.bind GObject.order?).toList ++
    if s.parser = .sending then s.gObject.order?.toList else []

/-- The pipe that a state stands for. -/
def Sys.pipe (s : Sys) : Pipe Order := { delivered := s.executed, waiting := s.underway }

/-- A command that waits in `gObject` is not changed by a receive: the item of the queue
stands for the same command. -/
def PendingKept (s : Sys) (e : Ev) : Prop :=
  e = .stepperReceive → s.parser = .sending → ∀ g ∈ s.commandQueue, g.order? = s.gObject.order?

instance (s : Sys) (e : Ev) : Decidable (PendingKept s e) :=
  inferInstanceAs (Decidable (_ → _ → ∀ g ∈ s.commandQueue, _))

/-- Nothing that concerns the exchange of commands differs. -/
structure Sys.SameExchange (s s' : Sys) : Prop where
  gObject_eq : s'.gObject = s.gObject
  commandQueue_eq : s'.commandQueue = s.commandQueue
  parser_eq : s'.parser = s.parser
  parsed_eq : s'.parsed = s.parsed
  executed_eq : s'.executed = s.executed

namespace Sys
variable {s s' : Sys}

theorem SameExchange.pipe_eq (h : s.SameExchange s') : s'.pipe = s.pipe := by
  rw [pipe, pipe, underway, underway, h.gObject_eq, h.commandQueue_eq, h.parser_eq, h.executed_eq]

theorem sameExchange_draw (s : Sys) (object : GObject) (calls : List Event) (after : Drawer) :
    s.SameExchange (s.draw object calls after) := by
  rcases draw_cases s object calls after with ⟨rest, -, heq⟩ | ⟨-, heq⟩
  · rw [heq]
    exact ⟨rfl, rfl, rfl, rfl, rfl⟩
  · rw [heq]
    exact ⟨rfl, rfl, rfl, rfl, rfl⟩

/-- A receive takes the item of the queue into `gObject` and executes it. -/
theorem sameExchange_receive (h : s.stepperReceive = some s') :
    ∃ g, s.commandQueue = some g ∧ (s.take g).SameExchange s' := by
  obtain ⟨-, g, hqueue, rfl⟩ := stepperReceive_cases h
  refine ⟨g, hqueue, ?_⟩
  split
  · exact ⟨rfl, rfl, rfl, rfl, rfl⟩
  · exact ⟨rfl, rfl, rfl, rfl, rfl⟩
  · exact ⟨rfl, rfl, rfl, rfl, rfl⟩
  · exact sameExchange_draw (s.take g) ..
  · exact ⟨rfl, rfl, rfl, rfl, rfl⟩

end Sys

/-- Whatever is not a step of the parser task or a receive leaves the exchange alone. -/
theorem sameExchange_of_step {s s' : Sys} {e : Ev} (hs : step s e = some s')
    (hreceive : e ≠ .stepperReceive) (hparse : e ≠ .parserReceive) (hsend : e ≠ .parserSend)
    (hdelay : e ≠ .parserDelayed) : s.SameExchange s' := by
  cases e with
  | hostSend line =>
      rw [← Option.some_inj.mp hs]
      exact ⟨rfl, rfl, rfl, rfl, rfl⟩
  | hostReceive =>
      obtain ⟨r, replies, -, rfl⟩ := Sys.hostReceive_cases hs
      exact ⟨rfl, rfl, rfl, rfl, rfl⟩
  | stepperDelayed =>
      obtain ⟨-, rfl⟩ := Sys.stepperDelayed_cases hs
      exact ⟨rfl, rfl, rfl, rfl, rfl⟩
  | stepperExpire =>
      obtain ⟨-, -, rfl⟩ := Sys.stepperExpire_cases hs
      exact ⟨rfl, rfl, rfl, rfl, rfl⟩
  | stepperSent =>
      obtain ⟨-, rfl⟩ | ⟨pause, -, rfl⟩ := Sys.stepperSent_cases hs
      · exact ⟨rfl, rfl, rfl, rfl, rfl⟩
      · exact ⟨rfl, rfl, rfl, rfl, rfl⟩
  | stepperWake =>
      obtain ⟨object, calls, after, -, -, rfl⟩ := Sys.stepperWake_cases hs
      have h := Sys.sameExchange_draw { s with motors := s.motors.wake } object calls after
      exact ⟨h.1, h.2, h.3, h.4, h.5⟩
  | calibrateRun rd =>
      obtain ⟨-, rfl⟩ | ⟨a, -, -, rfl⟩ := Sys.calibrateRun_cases hs
      · exact ⟨rfl, rfl, rfl, rfl, rfl⟩
      · exact ⟨rfl, rfl, rfl, rfl, rfl⟩
  | interrupt rd =>
      obtain ⟨-, rfl⟩ := Sys.interrupt_cases hs
      exact ⟨rfl, rfl, rfl, rfl, rfl⟩
  | stepperReceive => exact absurd rfl hreceive
  | parserReceive => exact absurd rfl hparse
  | parserSend => exact absurd rfl hsend
  | parserDelayed => exact absurd rfl hdelay

/-! ## The refinement -/

/-- The pipe of the state has accepted what was parsed. -/
def Sys.Refines (s : Sys) (p : Pipe Order) : Prop := s.pipe = p ∧ p.accepted = s.parsed

namespace Sys.Refines
variable {s s' : Sys} {p : Pipe Order}

theorem init : Sys.init.Refines {} := ⟨rfl, rfl⟩

theorem of_same (h : s.Refines p) (hsame : s.SameExchange s') : s'.Refines p :=
  ⟨hsame.pipe_eq.trans h.1, by rw [hsame.parsed_eq, h.2]⟩

/-- Parsing a line puts its command into the pipe. -/
theorem parserReceive (h : s.Refines p) (hs : s.parserReceive = some s') :
    ∃ p', Relation.ReflTransGen Pipe.Step p p' ∧ s'.Refines p' := by
  obtain ⟨rfl, hacc⟩ := h
  obtain ⟨hpc, line, lines, -, ⟨g, hstore, rfl⟩ | ⟨-, rfl⟩⟩ := parserReceive_cases hs
  · obtain ⟨o, hline, horder⟩ := ParsedLine.order?_of_store hstore
    refine ⟨_, .single (.accept s.pipe o), ?_, ?_⟩
    · simp [pipe, underway, hpc, horder]
    · rw [Pipe.accepted_accept, hacc, hline]
      rfl
  · exact ⟨s.pipe, .refl, rfl, hacc⟩

/-- The send moves a command from `gObject` into the queue; the pipe does not notice. -/
theorem parserSend (h : s.Refines p) (hs : s.parserSend = some s') : s'.Refines p := by
  obtain ⟨rfl, hacc⟩ := h
  obtain ⟨hpc, hqueue, rfl⟩ := parserSend_cases hs
  refine ⟨?_, hacc⟩
  simp [pipe, underway, hpc, hqueue]

/-- A receive that keeps the pending command delivers the item of the queue. -/
theorem stepperReceive (h : s.Refines p) (hG : PendingKept s .stepperReceive)
    (hs : s.stepperReceive = some s') :
    ∃ p', Relation.ReflTransGen Pipe.Step p p' ∧ s'.Refines p' := by
  obtain ⟨rfl, hacc⟩ := h
  obtain ⟨g, hqueue, hsame⟩ := sameExchange_receive hs
  have hpending : (if s.parser = .sending then g.order?.toList else []) =
      if s.parser = .sending then s.gObject.order?.toList else [] := by
    split_ifs with hpc
    · rw [hG rfl hpc g hqueue]
    · rfl
  have hpipe : s'.pipe = { delivered := s.executed ++ g.order?.toList
                           waiting := if s.parser = .sending then g.order?.toList else [] } := by
    rw [hsame.pipe_eq]
    rfl
  have hold : s.pipe = { delivered := s.executed
                         waiting := g.order?.toList ++
                           if s.parser = .sending then g.order?.toList else [] } := by
    rw [pipe, underway, hqueue, ← hpending]
    rfl
  have hparsed : s'.parsed = s.parsed := hsame.parsed_eq
  rw [hold] at hacc ⊢
  cases horder : g.order? with
  | none => exact ⟨_, .refl, by rw [hpipe, horder]; simp, by rw [hparsed, ← hacc, horder]⟩
  | some o =>
      rw [horder] at hacc hpipe
      refine ⟨_, .single (.deliver s.executed _ o), hpipe, ?_⟩
      rw [hparsed, ← hacc]
      exact Pipe.accepted_deliver ..

/-- **The tasks refine a pipe**, step by step, where the pending command is kept. -/
theorem step {e : Ev} (h : s.Refines p) (hG : PendingKept s e) (hs : step s e = some s') :
    ∃ p', Relation.ReflTransGen Pipe.Step p p' ∧ s'.Refines p' := by
  cases e with
  | parserReceive => exact h.parserReceive hs
  | parserSend => exact ⟨p, .refl, h.parserSend hs⟩
  | stepperReceive => exact h.stepperReceive hG hs
  | parserDelayed =>
      obtain ⟨hpc, rfl⟩ := parserDelayed_cases hs
      refine ⟨p, .refl, ?_, h.2⟩
      rw [← h.1]
      simp [pipe, underway, hpc]
  | _ =>
      refine ⟨p, .refl, h.of_same (sameExchange_of_step hs ?_ ?_ ?_ ?_)⟩ <;>
        exact Ev.noConfusion

end Sys.Refines

/-- **Commands.** In every run whose receives keep the command that waits in `gObject`, what
the stepper task executes is the beginning of what the parser task has parsed. -/
theorem executed_prefix_parsed {es : List Ev} {s : Sys}
    (hG : Along step PendingKept Sys.init es) (hrun : run step Sys.init es = some s) :
    s.executed <+: s.parsed := by
  obtain ⟨p, -, hpipe, hacc⟩ :=
    run_simulates (fun _ _ _ _ h hG hs => h.step hG hs) Sys.Refines.init hG hrun
  rw [← hacc, ← hpipe]
  exact s.pipe.delivered_prefix

/-- A line on its way from the host to the parser task. -/
def parseLine (line : ParsedLine) : List Ev := [.hostSend line, .parserReceive]

/-- A servo command, executed before an `M10` is parsed. -/
def oneByOne : List Ev :=
  [.parserDelayed, .stepperDelayed] ++ parseLine { read := 2, angle := 160 } ++
    [.parserSend, .stepperReceive] ++ parseLine { read := 1, angle := 160 } ++ [.parserSend]

theorem executed_prefix_parsed_oneByOne : ∃ s, run step Sys.init oneByOne = some s ∧
    s.executed <+: s.parsed := by
  obtain ⟨s, hs⟩ := Option.isSome_iff_exists.mp
    (by decide +kernel : (run step Sys.init oneByOne).isSome = true)
  exact ⟨s, hs, executed_prefix_parsed (by decide +kernel) hs⟩

/-- The servo command waits in `gObject` for room in the queue when the stepper task
receives the `M10` before it. -/
def overwritten : List Ev :=
  [.parserDelayed, .stepperDelayed] ++ parseLine { read := 1 } ++ [.parserSend] ++
    parseLine { read := 2, angle := 160 } ++
    [.stepperReceive, .stepperSent, .stepperSent, .parserSend, .stepperReceive]

/-- The `M10` is executed twice and the servo command never. -/
theorem overwritten_repeats : ∃ s, run step Sys.init overwritten = some s ∧
    s.parsed = [.M10, .M1 160] ∧ s.executed = [.M10, .M10] ∧ ¬ s.executed <+: s.parsed := by
  have hend : ∃ s, run step Sys.init overwritten = some s ∧
      s.parsed = [.M10, .M1 160] ∧ s.executed = [.M10, .M10] := exists_of_run (by decide +kernel)
  obtain ⟨s, hs, hparsed, hexecuted⟩ := hend
  refine ⟨s, hs, hparsed, hexecuted, ?_⟩
  rw [hparsed, hexecuted]
  decide

end Plotter
