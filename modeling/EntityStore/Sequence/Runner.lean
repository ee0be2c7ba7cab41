import EntityStore.Fifo
import EntityStore.Sequence.Error

/-!
# Runners

A runner takes tasks and runs them as one sequence, in the order in which it took them.  A `Manual`
runner runs them when it is drained, on the thread that drains it.  A `Worker` has a thread of its
own.  This module has what the runners remember.  How tasks run is said in `Sequence.Machine`.

A runner that is closed takes no more tasks.  Closing a manual runner drops the tasks that wait.
Closing a worker does not: it runs them and then stops.  A task that fails takes its worker down,
and the tasks that wait are dropped.
-/

namespace EntityStore

/-- A runner that runs its tasks when it is drained. -/
structure Manual (τ : Type) where
  /-- The sequence of the runner. -/
  id : SequenceId
  /-- The tasks that wait. -/
  queue : Fifo τ := {}
  /-- Whether it takes no more tasks. -/
  closed : Bool := false

namespace Manual

variable {τ : Type}

/-- Takes a task, unless the runner is closed. -/
def post? (m : Manual τ) (t : τ) : Option (Manual τ) :=
  if m.closed then none else some { m with queue := m.queue.push t }

/-- The task that has waited longest, and the runner without it. -/
def next? (m : Manual τ) : Option (τ × Manual τ) :=
  m.queue.pop?.map fun (t, queue) => (t, { m with queue })

/-- Takes no more tasks and drops those that wait. -/
def close (m : Manual τ) : Manual τ := { m with queue := {}, closed := true }

/-- The number of tasks that wait. -/
def pending (m : Manual τ) : Nat := m.queue.length

/-- The runner as a record. -/
def debug (m : Manual τ) : String :=
  Text.record "ManualSequence" [("id", m.id.debug), ("pending", toString m.pending)]

end Manual

/-- Where a worker is in its life. -/
inductive Phase where
  /-- It runs tasks or waits for them. -/
  | running
  /-- It ended after its last task. -/
  | stopped
  /-- It ended by a failure. -/
  | failed
deriving DecidableEq

/-- A runner with a thread of its own. -/
structure Worker (τ : Type) where
  /-- The sequence of the runner. -/
  id : SequenceId
  /-- The name of its thread. -/
  name : String
  /-- The tasks that wait. -/
  queue : Fifo τ := {}
  /-- Whether it takes no more tasks. -/
  closed : Bool := false
  /-- Where it is in its life. -/
  phase : Phase := .running
  /-- Whether its end was waited for. -/
  joined : Bool := false
  /-- The number of the worker that waits for its end, if a worker does. -/
  joiner : Option Nat := none

namespace Worker

variable {τ : Type}

/-- Takes a task, unless the worker is closed or has ended. -/
def post? (w : Worker τ) (t : τ) : Option (Worker τ) :=
  if w.closed || w.phase ≠ .running then none else some { w with queue := w.queue.push t }

/-- The task that has waited longest, and the worker without it.  A worker that has ended has no
next task. -/
def next? (w : Worker τ) : Option (τ × Worker τ) :=
  if w.phase ≠ .running then none
  else w.queue.pop?.map fun (t, queue) => (t, { w with queue })

/-- Ends the worker by a failure. -/
def fail (w : Worker τ) : Worker τ := { w with queue := {}, phase := .failed }

/-- Takes no more tasks. -/
def close (w : Worker τ) : Worker τ := { w with closed := true }

/-- Ends a worker that is closed and has no task left.  It is a failure if its own sequence is not
the current one at that time. -/
def stop (w : Worker τ) (current : Option SequenceId) : Worker τ :=
  if w.phase = .running then
    { w with phase := if current = some w.id then .stopped else .failed }
  else w

/-- What the first wait for the end of a worker learns. -/
def outcome (w : Worker τ) : Except SequenceError Unit :=
  if w.phase = .failed then .error (.workerFailed w.id) else .ok ()

/-- The runner as a record. -/
def debug (w : Worker τ) : String :=
  Text.openRecord "ThreadSequence" [("id", w.id.debug), ("name", Text.quoted w.name)]

end Worker

end EntityStore
