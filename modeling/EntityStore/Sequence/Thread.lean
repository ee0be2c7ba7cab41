import EntityStore.Sequence.Error

/-!
# Threads and their current sequence

At most one sequence is current on a thread at a time.  Entering a scope makes its sequence current
and remembers the one that was current before.  Leaving the scope makes that one current again.
Scopes are to be left in the reverse of the order in which they were entered: leaving one whose
sequence is not current is a failure, and nothing changes.

A token records the sequence that was current when it was made.
-/

namespace EntityStore

/-- A scope in which a sequence is current. -/
structure Scope where
  /-- The sequence. -/
  sequence : SequenceId
  /-- The sequence that was current before. -/
  previous : Option SequenceId
deriving DecidableEq

/-- The scope as a record. -/
def Scope.debug (s : Scope) : String :=
  Text.record "SequenceScope"
    [("id", s.sequence.debug), ("previous", Text.optional SequenceId.debug s.previous)]

/-- What belongs to a thread. -/
structure Thread where
  /-- The name of the thread. -/
  name : Option String := none
  /-- The sequence that is current. -/
  current : Option SequenceId := none
  /-- The scopes entered, in order, without those that were left. -/
  scopes : Array (Option Scope) := #[]
  /-- The tokens made, in order. -/
  tokens : Array SequenceId := #[]

namespace Thread

/-- Makes a sequence current. -/
def enter (t : Thread) (q : SequenceId) : Scope × Thread :=
  (⟨q, t.current⟩, { t with current := some q })

/-- Leaves a scope. -/
def leave (t : Thread) (s : Scope) : Except SequenceFault Thread :=
  if t.current = some s.sequence then .ok { t with current := s.previous }
  else .error (.scopeOrder t.current s.sequence)

/-- Enters a scope and keeps it under the next number. -/
def enterKept (t : Thread) (q : SequenceId) : (Nat × Scope) × Thread :=
  let (s, t') := t.enter q
  ((t.scopes.size, s), { t' with scopes := t.scopes.push (some s) })

/-- The scope kept under a number. -/
def scope? (t : Thread) (n : Nat) : Option Scope := t.scopes[n]?.join

/-- The thread without the scope kept under a number. -/
def forget (t : Thread) (n : Nat) : Thread := { t with scopes := t.scopes.setIfInBounds n none }

/-- Makes a token for the current sequence, if there is one, and keeps it under the next number. -/
def mint (t : Thread) : Option (Nat × SequenceId) × Thread :=
  match t.current with
  | some q => (some (t.tokens.size, q), { t with tokens := t.tokens.push q })
  | none => (none, t)

end Thread

/-- The form of a token in records. -/
def tokenDebug (q : SequenceId) : String := Text.wrapped "SequenceToken" q.debug

end EntityStore
