import Mathlib.Logic.Relation
import Mathlib.Tactic.Common

/-!
# Pipes

What a channel between two parties is for: it accepts items at one end and delivers them
at the other, each once and in order. A channel with more than one place to keep its
items, some of them shared, is right if it refines a pipe.

## Main definitions

* `Pipe`: the items that were delivered, and those that wait.
* `Pipe.Step`: an item is accepted or delivered.
-/

namespace Lib

variable {α : Type*}

/-- A pipe with the history of its far end. -/
structure Pipe (α : Type*) where
  delivered : List α := []
  waiting : List α := []

namespace Pipe

/-- Everything that went in. -/
def accepted (p : Pipe α) : List α := p.delivered ++ p.waiting

/-- The steps of a pipe. -/
inductive Step : Pipe α → Pipe α → Prop
  | accept (p : Pipe α) (x : α) : Step p { p with waiting := p.waiting ++ [x] }
  | deliver (d w : List α) (x : α) : Step ⟨d, x :: w⟩ ⟨d ++ [x], w⟩

/-- What came out is the beginning of what went in. -/
theorem delivered_prefix (p : Pipe α) : p.delivered <+: p.accepted := ⟨p.waiting, rfl⟩

theorem accepted_accept (p : Pipe α) (x : α) :
    accepted { p with waiting := p.waiting ++ [x] } = p.accepted ++ [x] := by
  rw [accepted, accepted, List.append_assoc]

theorem accepted_deliver (d w : List α) (x : α) :
    accepted ⟨d ++ [x], w⟩ = accepted ⟨d, x :: w⟩ := by
  rw [accepted, accepted, List.append_assoc, List.singleton_append]

end Pipe

end Lib
