import EntityStore.Sequence.Command
import EntityStore.Sequence.Runner

/-!
# The world of sequences

The world holds the runners with the tasks that wait, the threads with their current sequences, and
the guarded stores.  It remembers each task that was started.

A runner stays as long as somebody can reach it: its handle was not given up, or a command waits
for one of its tasks, or it owns a guarded store that is in its place or waits in a task.
-/

namespace EntityStore

/-- A task that waits. -/
structure Task (S : Schema) (ρ : Type) where
  /-- A number that no other task has. -/
  ticket : Nat
  /-- Where the task was posted: the position of the command in each enclosing list. -/
  path : List Nat
  /-- What the task does. -/
  body : List (Command S ρ)
  /-- The guarded store that was moved into the task, with its number. -/
  parcel : Option (Nat × Guard S) := none

/-- A task that was started. -/
structure Record (S : Schema) (ρ : Type) where
  /-- Where the task was posted. -/
  path : List Nat
  /-- The sequence that was current when the task started. -/
  on : Option SequenceId
  /-- The number of tasks that were started before, with the same sequence current. -/
  nth : Nat
  /-- The answers of its commands. -/
  answers : Array (Answer S ρ) := #[]

/-- Whether a path comes before another or is the same.  Paths are compared position by position,
and a path comes before those that go on from its end. -/
def pathLE : List Nat → List Nat → Bool
  | [], _ => true
  | _ :: _, [] => false
  | a :: as, b :: bs => a < b || a = b && pathLE as bs

/-- A runner with what belongs to it. -/
inductive Engine (S : Schema) (ρ : Type) where
  /-- A manual runner. -/
  | manual (m : Manual (Task S ρ))
  /-- A worker and its thread. -/
  | worker (w : Worker (Task S ρ)) (t : Thread)

/-- A runner, and whether its handle was not given up. -/
structure Cell (S : Schema) (ρ : Type) where
  /-- Whether the handle was not given up. -/
  held : Bool := true
  /-- The number of commands that wait for a task of the runner. -/
  waiters : Nat := 0
  /-- The runner. -/
  engine : Engine S ρ

/-- Where a command runs. -/
inductive Place where
  /-- On the main thread. -/
  | main
  /-- On the thread of a worker. -/
  | worker (r : Nat)
deriving DecidableEq

/-- The number of the worker on whose thread a place is. -/
def Place.worker? : Place → Option Nat
  | .main => none
  | .worker r => some r

/-- Everything that commands work on. -/
structure World (S : Schema) (ρ : Type) where
  /-- The number of the next sequence. -/
  nextId : Nat := 1
  /-- The number of the next task. -/
  nextTicket : Nat := 0
  /-- The main thread. -/
  main : Thread := { name := some "main" }
  /-- The runners. -/
  cells : Array (Cell S ρ) := #[]
  /-- The guarded stores that are in their places. -/
  guards : Array (Option (Guard S)) := #[]
  /-- The tasks that were started, in order. -/
  records : Array (Record S ρ) := #[]

/-- Steps on the world. -/
abbrev Machine (S : Schema) (ρ : Type) := Action (World S ρ) SequenceFault

variable {S : Schema} {ρ : Type}

/-- The sequence of a runner. -/
def Engine.id : Engine S ρ → SequenceId
  | .manual m => m.id
  | .worker w _ => w.id

/-- The tasks that wait. -/
def Engine.waiting : Engine S ρ → List (Task S ρ)
  | .manual m => m.queue.toList
  | .worker w _ => w.queue.toList

namespace World

/-! ## Threads -/

/-- The thread of a place. -/
def thread (w : World S ρ) : Place → Thread
  | .main => w.main
  | .worker r =>
    match w.cells[r]? with
    | some { engine := .worker _ t, .. } => t
    | _ => {}

/-- The world with another runner in the place of one. -/
def setEngine (w : World S ρ) (r : Nat) (x : Engine S ρ) : World S ρ :=
  { w with cells := w.cells.modify r fun c => { c with engine := x } }

/-- The world with another thread in the place of one. -/
def setThread (w : World S ρ) (p : Place) (t : Thread) : World S ρ :=
  match p with
  | .main => { w with main := t }
  | .worker r =>
    { w with cells := w.cells.modify r fun c =>
        match c.engine with
        | .worker x _ => { c with engine := .worker x t }
        | .manual _ => c }

/-- The current sequence of a place. -/
def current (w : World S ρ) (p : Place) : Option SequenceId := (w.thread p).current

/-! ## Runners -/

/-- A runner whose handle was not given up. -/
def held? (w : World S ρ) (r : Nat) : Option (Engine S ρ) :=
  match w.cells[r]? with
  | some c => if c.held then some c.engine else none
  | none => none

/-- A runner. -/
def engine? (w : World S ρ) (r : Nat) : Option (Engine S ρ) := w.cells[r]?.map Cell.engine

/-- The world where the handle of a runner was given up. -/
def giveUp (w : World S ρ) (r : Nat) : World S ρ :=
  { w with cells := w.cells.modify r fun c => { c with held := false } }

/-- The world where the number of commands that wait for a runner has changed. -/
def changeWaiters (w : World S ρ) (r : Nat) (f : Nat → Nat) : World S ρ :=
  { w with cells := w.cells.modify r fun c => { c with waiters := f c.waiters } }

/-- Whether a guarded store is owned by a runner. -/
def owns (r : Nat) (g : Guard S) : Bool := g.home.runner = r

/-- Whether somebody can reach a runner. -/
def reachable (w : World S ρ) (r : Nat) : Bool :=
  w.cells[r]?.any (fun c => c.held || 0 < c.waiters) ||
    w.guards.any (fun g => g.any (owns r)) ||
    (w.engine? r).any fun x => x.waiting.any fun t => t.parcel.any fun p => owns r p.2

/-- Whether the end of a worker cannot come while work at a place waits for it: the place is that
worker, or a worker for whose end that worker waits. -/
def neverEnds (w : World S ρ) (p : Place) (r : Nat) : Bool :=
  match p with
  | .main => false
  | .worker x =>
    x = r ||
      match w.engine? x with
      | some (.worker y _) => y.joiner = some r
      | _ => false

/-! ## Guarded stores -/

/-- A guarded store that is in its place. -/
def guard? (w : World S ρ) (g : Nat) : Option (Guard S) := w.guards[g]?.join

/-- The world with a guarded store, or none, in a place. -/
def setGuard (w : World S ρ) (g : Nat) (x : Option (Guard S)) : World S ρ :=
  { w with guards := w.guards.setIfInBounds g x }

/-- The world with a guarded store in a new place. -/
def addGuard (w : World S ρ) (x : Guard S) : World S ρ := { w with guards := w.guards.push x }

/-! ## Records -/

/-- The record of a task that starts. -/
def startRecord (w : World S ρ) (p : Place) (t : Task S ρ) : Record S ρ :=
  let on := w.current p
  { path := t.path, on, nth := (w.records.filter fun r => r.on = on).size }

/-- The world after one more answer of a task. -/
def addAnswer (w : World S ρ) (record : Nat) (a : Answer S ρ) : World S ρ :=
  { w with records := w.records.modify record fun r => { r with answers := r.answers.push a } }

end World

end EntityStore
