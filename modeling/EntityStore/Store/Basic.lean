import EntityStore.Action
import EntityStore.Allocator
import EntityStore.Catalog
import EntityStore.Fault
import EntityStore.Pool

/-!
# The store

A store issues entities and keeps their components, one pool for each component that was ever
attached.  Beside them it keeps the catalog of components and the context variables.

This module has the state and everything that concerns entities as such.  Only `Store.create` and
`Store.valid` accept any handle.  Every other operation refuses a handle that is not live before it
does anything else, and an operation that refuses leaves the store as it was.
-/

namespace EntityStore

/-- A value that belongs to the store as a whole. -/
structure Variable (α : Type) where
  /-- The name given when the value was set. -/
  name : String
  /-- The value. -/
  value : α

/-- The entities, their components, and what belongs to the store as a whole. -/
structure Store (S : Schema) where
  /-- The slots of the entities. -/
  allocator : Allocator := {}
  /-- The pools, in the order of their creation. -/
  pools : Table (Component S) (fun c => Pool c.Value) := {}
  /-- The components that have been used or named. -/
  catalog : Catalog S := {}
  /-- The context variables, at most one of each type. -/
  context : Table (Component S) (fun c => Variable c.Value) := {}

namespace Store

variable {S : Schema}

/-! ## Questions about entities -/

/-- Whether the entity is live. -/
def valid (s : Store S) (e : Entity) : Bool := s.allocator.isAlive e

/-- Refuses an entity that is not live. -/
def check (s : Store S) (e : Entity) : Except StoreError Unit :=
  if s.valid e then .ok () else .error (.stale e)

/-- Fails for an entity that is not live. -/
def assertValid (s : Store S) (e : Entity) : Except Fault Unit := (s.check e).mapError .refused

/-- The number of slots that exist.  There are no more live entities than slots. -/
def slotCount (s : Store S) : Nat := s.allocator.slotCount

/-- The number of live entities. -/
def entityCount (s : Store S) : Nat := s.allocator.aliveCount

/-- The live entities, in the order of their slots. -/
def entities (s : Store S) : List Entity := s.allocator.entities

/-- The pool of a component, if the component was ever attached. -/
def pool? (s : Store S) (c : Component S) : Option (Pool c.Value) := s.pools.get? c

/-- Whether an entity carries a component. -/
def carries (s : Store S) (e : Entity) (c : Component S) : Bool :=
  (s.pool? c).any (·.contains e)

/-- The value of a component of an entity. -/
def lookup? (s : Store S) (e : Entity) (c : Component S) : Option c.Value :=
  (s.pool? c).bind (·.get? e)

/-- Whether a live entity carries no component at all. -/
def isOrphan (s : Store S) (e : Entity) : Except Fault Bool := do
  s.assertValid e
  pure (s.pools.all fun _ p => !p.contains e)

/-- The components of a live entity with their catalog entries, in the order of the pools. -/
def visit (s : Store S) (e : Entity) : Except Fault (List (Component S × Info)) := do
  s.assertValid e
  pure (s.pools.entries.filterMap fun ⟨c, p⟩ =>
    if p.contains e then (s.catalog.get? c).map (c, ·) else none)

/-! ## Creation and destruction -/

/-- Issues an entity with no components. -/
def create : Action (Store S) Fault Entity
  | { allocator, pools, catalog, context } =>
    match allocator.allocate with
    | (some e, allocator) =>
      { result := .ok e, state := { allocator, pools, catalog, context } }
    | (none, allocator) =>
      { result := .error .exhausted, state := { allocator, pools, catalog, context } }

/-- Issues a number of entities. -/
def createMany : Nat → Action (Store S) Fault (List Entity)
  | 0 => pure []
  | n + 1 => do
    let e ← create
    let es ← createMany n
    pure (e :: es)

/-- The report of a destruction. -/
def destroyed (e : Entity) (components : Nat) : Report :=
  { level := .trace
    message := "destroyed entity"
    fields := [("entity", .text e.display), ("components", .number components)] }

/-- Drops all components of an entity and releases it.  Links of other entities to it are left as
they are. -/
def tryDestroy (e : Entity) : Action (Store S) StoreError Unit := do
  Action.query (·.check e)
  let dropped ← Action.modifyGet fun s =>
    ((s.pools.entries.filter fun ⟨_, p⟩ => p.contains e).length,
      { s with
        pools := s.pools.map fun _ p => p.erase e
        allocator := (s.allocator.deallocate e).2 })
  Action.report (destroyed e dropped)

/-- Drops all components of an entity, which must be live, and releases it. -/
def destroy (e : Entity) : Action (Store S) Fault Unit := (tryDestroy e).mapError .refused

end Store

end EntityStore
