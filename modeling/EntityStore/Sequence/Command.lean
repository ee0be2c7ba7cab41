import EntityStore.Sequence.Guard
import EntityStore.Sequence.Thread

/-!
# Commands

A program for several sequences is a list of commands.  A task is such a list too, so a command
that posts a task holds the commands of the task.

Runners, guarded stores, scopes and tokens are called by their numbers, in the order in which they
were made.  An operation on a guarded store is an action on the store inside.  What it answers, of
type `ρ`, is of no concern here.
-/

namespace EntityStore

/-- How an access to a guarded store is checked. -/
inductive Via where
  /-- A refusal is a failure. -/
  | asserted
  /-- A refusal is an answer. -/
  | checked
  /-- The access shows the token of a number, and a refusal is a failure. -/
  | token (n : Nat)
deriving DecidableEq

/-- A step of a program. -/
inductive Command (S : Schema) (ρ : Type) where
  /-- Take a new sequence number. -/
  | nextId
  /-- Compare two sequences. -/
  | compareIds (a b : SequenceId)
  /-- Tell the current sequence. -/
  | current
  /-- Tell the name of the thread. -/
  | threadName
  /-- Make a sequence current. -/
  | enterScope (q : SequenceId)
  /-- Leave a scope. -/
  | leaveScope (n : Nat)
  /-- Make a token for the current sequence. -/
  | mintToken
  /-- Tell about a token. -/
  | inspectToken (n : Nat)
  /-- Make a manual runner. -/
  | newManual
  /-- Make a worker, whose name may depend on its sequence. -/
  | spawnWorker (naming : SequenceId → String)
  /-- Tell about a runner. -/
  | inspectRunner (r : Nat)
  /-- Post a task. -/
  | post (r : Nat) (body : List (Command S ρ))
  /-- Post a task and wait for its end. -/
  | runAndWait (r : Nat) (body : List (Command S ρ))
  /-- Run the tasks of a manual runner. -/
  | drain (r : Nat)
  /-- Close a manual runner. -/
  | close (r : Nat)
  /-- Close a worker and wait for its end. -/
  | shutDown (r : Nat)
  /-- Give up the handle of a runner. -/
  | dropRunner (r : Nat)
  /-- Guard an empty store. -/
  | newGuard (r : Nat)
  /-- Guard a store after some operations on it. -/
  | guardStore (r : Nat) (setup : Action (Store S) Fault ρ)
  /-- Tell about a guarded store. -/
  | inspectGuard (g : Nat)
  /-- Use a guarded store. -/
  | access (g : Nat) (via : Via) (operation : Action (Store S) Fault ρ)
  /-- Put a value in the place of a component, or attach it. -/
  | resetOrCreate (g : Nat) (name : String) (e : Entity) (c : Component S) (v : c.Value)
  /-- Hand a guarded store to another runner. -/
  | transfer (g : Nat) (r : Nat)
  /-- Take the store out of its guard. -/
  | takeOut (g : Nat)
  /-- Move a guarded store into a task on its own sequence. -/
  | postGuard (g : Nat) (body : List (Command S ρ))
  /-- Put a refusal into words. -/
  | explain (e : SequenceError)
  /-- Give up with a message. -/
  | raise (message : String)

/-! ## The number of commands -/

mutual

/-- The number of commands in a command, itself included. -/
def Command.weight {S : Schema} {ρ : Type} : Command S ρ → Nat
  | .post _ body => weights body + 1
  | .runAndWait _ body => weights body + 1
  | .postGuard _ body => weights body + 1
  | _ => 1

/-- The number of commands in a list. -/
def Command.weights {S : Schema} {ρ : Type} : List (Command S ρ) → Nat
  | [] => 0
  | c :: rest => c.weight + weights rest

end

/-! ## Answers -/

mutual

/-- What a command gives when nothing is in its way. -/
inductive Reply (S : Schema) (ρ : Type) where
  /-- Nothing. -/
  | nothing
  /-- A sequence. -/
  | id (q : SequenceId)
  /-- How two sequences compare. -/
  | compared (equal less : Bool)
  /-- The current sequence. -/
  | current (q : Option SequenceId)
  /-- The name of the thread. -/
  | threadName (name : Option String)
  /-- A scope with its number. -/
  | scope (n : Nat) (s : Scope)
  /-- A token with its number. -/
  | token (t : Option (Nat × SequenceId))
  /-- A token, and whether its sequence is current. -/
  | tokenState (q : SequenceId) (isCurrent : Bool)
  /-- A runner with its number, its sequence and the name of its thread. -/
  | runner (r : Nat) (q : SequenceId) (name : Option String)
  /-- A manual runner: its sequence, whether that is current, the number of tasks that wait, and
  the record. -/
  | manualState (q : SequenceId) (isCurrent : Bool) (pending : Nat) (debug : String)
  /-- A worker: its sequence, whether that is current, the name of its thread, and the record. -/
  | workerState (q : SequenceId) (isCurrent : Bool) (name : String) (debug : String)
  /-- A number. -/
  | count (n : Nat)
  /-- The answers of a task. -/
  | steps (answers : List (Answer S ρ))
  /-- A guarded store with its number, and the answer of the operations that set it up. -/
  | guarded (g : Nat) (setup : Option ρ)
  /-- A guarded store: whether its sequence is current, and itself. -/
  | guardState (isCurrent : Bool) (g : Guard S)
  /-- The answer of an operation on a store. -/
  | operation (x : ρ)
  /-- The value of a component. -/
  | value (c : Component S) (v : c.Value)
  /-- What a guarded store is bound to. -/
  | affinity (bound : Option SequenceId)
  /-- A store. -/
  | store (s : Store S)
  /-- Words. -/
  | text (s : String)

/-- How a command ended. -/
inductive Answer (S : Schema) (ρ : Type) where
  /-- It gave a reply. -/
  | done (r : Reply S ρ)
  /-- It was refused. -/
  | refused (e : SequenceError)
  /-- It failed. -/
  | failed (f : SequenceFault)
  /-- What it was to work on is not there. -/
  | vacant

end

end EntityStore
