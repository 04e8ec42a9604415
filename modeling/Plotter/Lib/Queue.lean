import Mathlib.Tactic.Common

/-!
# Bounded queues

A first-in first-out queue with room for `cap` items. Sending fails when it is full,
receiving when it is empty; a party that blocks on one of these can go on when it does not
fail.

## Main definitions

* `Queue cap α`: a queue; its bound is a field.
* `Queue.send`, `Queue.receive`: the two operations, without waiting.
-/

namespace Lib

variable {cap : ℕ} {α : Type*}

/-- A queue of at most `cap` items, the oldest first. -/
structure Queue (cap : ℕ) (α : Type*) where
  items : List α
  bounded : items.length ≤ cap
  deriving DecidableEq

namespace Queue

def empty : Queue cap α := ⟨[], Nat.zero_le cap⟩

/-- The queue with one more item, if there is room. -/
def send (q : Queue cap α) (x : α) : Option (Queue cap α) :=
  if h : q.items.length < cap then
    some ⟨q.items ++ [x], by rw [List.length_append]; exact Nat.succ_le_of_lt h⟩
  else none

/-- The oldest item, and the queue without it. -/
def receive : Queue cap α → Option (α × Queue cap α)
  | ⟨[], _⟩ => none
  | ⟨x :: rest, h⟩ => some (x, ⟨rest, Nat.le_of_succ_le h⟩)

theorem ext_items {q q' : Queue cap α} (h : q.items = q'.items) : q = q' := by
  cases q
  cases q'
  congr

theorem send_eq_some_iff {q q' : Queue cap α} {x : α} :
    q.send x = some q' ↔ q.items.length < cap ∧ q'.items = q.items ++ [x] := by
  rw [send]
  constructor
  · intro h
    split_ifs at h with hroom
    have heq := Option.some_inj.mp h
    exact ⟨hroom, by rw [← heq]⟩
  · rintro ⟨hroom, hitems⟩
    rw [dif_pos hroom, Option.some_inj]
    exact ext_items hitems.symm

/-- There is room unless the queue is full. -/
theorem exists_send_iff {q : Queue cap α} {x : α} :
    (∃ q', q.send x = some q') ↔ q.items.length < cap := by
  constructor
  · rintro ⟨q', h⟩
    exact (send_eq_some_iff.mp h).1
  · intro hroom
    exact ⟨_, dif_pos hroom⟩

theorem receive_eq_some_iff {q q' : Queue cap α} {x : α} :
    q.receive = some (x, q') ↔ q.items = x :: q'.items := by
  obtain ⟨items, hle⟩ := q
  cases items with
  | nil => simp [receive]
  | cons y rest =>
      rw [receive, Option.some_inj, Prod.mk.injEq, List.cons_eq_cons]
      constructor
      · rintro ⟨rfl, rfl⟩
        exact ⟨rfl, rfl⟩
      · rintro ⟨rfl, hrest⟩
        exact ⟨rfl, ext_items hrest⟩

theorem receive_eq_none_iff {q : Queue cap α} : q.receive = none ↔ q.items = [] := by
  obtain ⟨items, hle⟩ := q
  cases items with
  | nil => simp [receive]
  | cons y rest => simp [receive]

end Queue

end Lib
