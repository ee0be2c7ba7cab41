/-!
# First-in, first-out queues

A queue is a pair of lists, so that both ends are reached in constant amortised time.  Everything
is said of the one view `Fifo.toList`, which lists the queue from the oldest element to the newest.
-/

namespace EntityStore

/-- A queue of elements. -/
structure Fifo (α : Type) where
  /-- The oldest elements, oldest first. -/
  front : List α := []
  /-- The remaining elements, newest first. -/
  back : List α := []

namespace Fifo

variable {α : Type}

/-- The queue from the oldest element to the newest. -/
def toList (q : Fifo α) : List α := q.front ++ q.back.reverse

/-- The queue with no elements. -/
def empty : Fifo α := {}

/-- Adds an element behind all others. -/
def push (q : Fifo α) (a : α) : Fifo α := { q with back := a :: q.back }

/-- The oldest element and the queue without it. -/
def pop? (q : Fifo α) : Option (α × Fifo α) :=
  match q.front with
  | a :: rest => some (a, { q with front := rest })
  | [] =>
    match q.back.reverse with
    | a :: rest => some (a, { front := rest })
    | [] => none

/-- The number of elements. -/
def length (q : Fifo α) : Nat := q.front.length + q.back.length

@[simp] theorem toList_empty : (empty : Fifo α).toList = [] := rfl

@[simp] theorem toList_push (q : Fifo α) (a : α) : (q.push a).toList = q.toList ++ [a] := by
  simp [toList, push]

@[simp] theorem length_toList (q : Fifo α) : q.toList.length = q.length := by
  simp [toList, length]

theorem pop?_eq_none_iff {q : Fifo α} : q.pop? = none ↔ q.toList = [] := by
  unfold pop? toList
  split
  · simp_all
  · split <;> simp_all

theorem toList_of_pop? {q r : Fifo α} {a : α} (h : q.pop? = some (a, r)) :
    q.toList = a :: r.toList := by
  unfold pop? at h
  split at h
  · simp_all [toList]
    obtain ⟨rfl, rfl⟩ := h
    simp
  · split at h
    · simp_all [toList]
      obtain ⟨rfl, rfl⟩ := h
      simp
    · simp at h

end Fifo

end EntityStore
