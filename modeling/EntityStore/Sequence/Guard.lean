import EntityStore.Sequence.Error
import EntityStore.Store.Attachment

/-!
# Guarded stores

A store is no place for two lines of work at once.  A guarded store has a *home*, the sequence of
the runner that owns it, and lets only work of that sequence through.  The first access binds it to
its home, and only a transfer to another runner unbinds it.
-/

namespace EntityStore

/-- The runner that owns a guarded store. -/
structure Home where
  /-- The number of the runner. -/
  runner : Nat
  /-- The sequence of the runner. -/
  sequence : SequenceId
deriving DecidableEq

/-- A store with the sequence that may use it. -/
structure Guard (S : Schema) where
  /-- The owner. -/
  home : Home
  /-- The sequence to which the first access bound the store. -/
  bound : Option SequenceId := none
  /-- The store. -/
  store : Store S := {}

namespace Guard

variable {S : Schema} {ε : Type} {α : Type}

/-! ## Access -/

/-- The report of the first access. -/
def boundReport (q : SequenceId) : Report :=
  { level := .debug
    message := "registry bound to sequence"
    fields := [("sequence", .text q.display)] }

/-- Lets through the work of the owning sequence, and binds the store to it. -/
def check (current : Option SequenceId) : Action (Guard S) SequenceError Unit := do
  let g ← Action.state
  let expected := g.bound.getD g.home.sequence
  Action.require (current = some expected) (.wrongSequence expected current)
  if g.bound.isNone then
    Action.report (boundReport expected)
    Action.modify fun g => { g with bound := some expected }

/-- Lets through the holder of a token of the owning sequence, while that sequence is current. -/
def checkToken (token : SequenceId) (current : Option SequenceId) :
    Action (Guard S) SequenceError Unit := do
  Action.require (current = some token) (.staleToken token current)
  check (some token)

/-- An action on the store inside. -/
def within (x : Action (Store S) ε α) : Action (Guard S) ε α := fun g =>
  let o := x g.store
  { result := o.result, state := { g with store := o.state }, reports := o.reports }

/-! ## Reuse of a place -/

/-- The report of a value that is put in the place of another. -/
def reused (name : String) (e : Entity) : Report :=
  { level := .trace
    message := "using preallocated " ++ name
    fields := [("entity", .text e.display)] }

/-- The report of a value that gets a place of its own. -/
def allocated (name : String) (e : Entity) : Report :=
  { level := .trace
    message := "allocating new " ++ name
    fields := [("entity", .text e.display)] }

end Guard

/-- Puts a value in the place of the component if the entity has it, and attaches it otherwise.
The name is for the journal only. -/
def Store.resetOrCreate {S : Schema} (name : String) (e : Entity) (c : Component S)
    (v : c.Value) : Action (Store S) Fault c.Value := do
  if ← Action.query (·.has e c) then
    Action.report (Guard.reused name e)
    let _ ← Store.update e c fun _ => v
    pure v
  else
    Action.report (Guard.allocated name e)
    Store.attach e c v

namespace Guard

variable {S : Schema}

/-- Puts a value in the place of a component inside, or attaches it. -/
def resetOrCreate (current : Option SequenceId) (name : String) (e : Entity) (c : Component S)
    (v : c.Value) : Action (Guard S) SequenceFault c.Value := do
  (check current).mapError .refused
  within ((Store.resetOrCreate name e c v).mapError .store)

/-! ## Handing over -/

/-- The report of a transfer. -/
def handedOff (source target : SequenceId) : Report :=
  { level := .debug
    message := "registry handed off"
    fields := [("from", .text source.display), ("to", .text target.display)] }

/-- The guarded store with another owner, not bound. -/
def transfer (g : Guard S) (home : Home) : Guard S := { home, store := g.store }

/-! ## Text -/

/-- Whether and to what the store is bound. -/
def affinity (g : Guard S) : String :=
  match g.bound with
  | some q => Text.wrapped "Bound" q.debug
  | none => "Unbound"

/-- The guarded store as a record. -/
def debug (g : Guard S) : String :=
  Text.openRecord "SafeRegistry"
    [("sequence", g.home.sequence.debug), ("affinity", g.affinity)]

end Guard

end EntityStore
