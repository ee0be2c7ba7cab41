import EntityStore.Store.Basic

/-!
# Attaching and detaching components

An operation that attaches creates the pool of its component if there is none yet, and the
component then enters the catalog.  A pool is never removed.

Most operations come in two forms.  The checked one (`tryAttach`, `fetch`, `tryUpdate`,
`tryDetach`) refuses with a `StoreError`, and the short one (`attach`, `get`, `update`, `detach`)
fails with the same cause.
-/

namespace EntityStore.Store

variable {S : Schema} {ε : Type}

/-- The cause for an entity that lacks a component. -/
def lacks (s : Store S) (e : Entity) (c : Component S) : StoreError :=
  .missing e (s.catalog.nameOf c)

/-! ## Reading -/

/-- Whether a live entity carries a component. -/
def has (s : Store S) (e : Entity) (c : Component S) : Except Fault Bool := do
  s.assertValid e
  pure (s.carries e c)

/-- The value of a component that must be there, or the reason why it is not. -/
def fetch (s : Store S) (e : Entity) (c : Component S) : Except StoreError c.Value := do
  s.check e
  match s.lookup? e c with
  | some v => pure v
  | none => throw (s.lacks e c)

/-- The value of a component that must be there. -/
def get (s : Store S) (e : Entity) (c : Component S) : Except Fault c.Value :=
  (s.fetch e c).mapError .refused

/-- The value of a component of a live entity, if it is there. -/
def get? (s : Store S) (e : Entity) (c : Component S) : Except Fault (Option c.Value) := do
  s.assertValid e
  pure (s.lookup? e c)

/-- The owners of a component with their values, in the order of its pool. -/
def view (s : Store S) (c : Component S) : List (Entity × c.Value) :=
  (s.pool? c).elim [] (·.toList)

/-! ## Attaching -/

/-- The report of a new pool. -/
def createdPool (info : Info) : Report :=
  { level := .trace
    message := "created pool"
    fields := [("component", .text info.name), ("size", .number info.descriptor.size)] }

/-- The store with a pool for a component. -/
def withPool (s : Store S) (c : Component S) : Store S :=
  { s with catalog := s.catalog.ensure c, pools := s.pools.insert c {} }

/-- Creates the pool of a component, unless there is one. -/
def ensurePool (c : Component S) : Action (Store S) ε Unit := do
  let s ← Action.state
  unless s.pools.contains c do
    Action.modify (·.withPool c)
    Action.report (createdPool (s.catalog.info c))

/-- The report of an owner whose place another generation of its slot takes. -/
def evicted (stale e : Entity) : Report :=
  { level := .trace
    message := "evicted stale pool entry"
    fields := [("stale", .text stale.display), ("entity", .text e.display)] }

/-- Reports the owner, if any, that gives up its place to an entity. -/
def reportEviction (e : Entity) (c : Component S) : Action (Store S) ε Unit := do
  match ((← Action.state).pool? c).bind (·.evictee? e) with
  | some stale => Action.report (evicted stale e)
  | none => pure ()

/-- Puts a value into the pool of a component. -/
def put (e : Entity) (c : Component S) (v : c.Value) : Action (Store S) ε Unit := do
  ensurePool c
  reportEviction e c
  Action.modify fun s => { s with pools := s.pools.modify c (·.insert e v) }

/-- Attaches a component that the entity must not have. -/
def tryAttach (e : Entity) (c : Component S) (v : c.Value) :
    Action (Store S) StoreError c.Value := do
  let s ← Action.state
  Action.query (·.check e)
  Action.require (!s.carries e c) (.duplicate e (s.catalog.nameOf c))
  put e c v
  pure v

/-- Attaches a component that the entity must not have. -/
def attach (e : Entity) (c : Component S) (v : c.Value) : Action (Store S) Fault c.Value :=
  (tryAttach e c v).mapError .refused

/-- Attaches a component, in the place of any value there. -/
def attachOrReplace (e : Entity) (c : Component S) (v : c.Value) :
    Action (Store S) Fault c.Value := do
  Action.query (·.assertValid e)
  put e c v
  pure v

/-- The value of a component, which is made and attached first if it is not there.  The answer says
also whether it was attached.  Where the making fails, the pool of the component stays. -/
def getOrAttach (e : Entity) (c : Component S) (make : Unit → Except Fault c.Value) :
    Action (Store S) Fault (c.Value × Bool) := do
  Action.query (·.assertValid e)
  ensurePool c
  match (← Action.state).lookup? e c with
  | some old => pure (old, false)
  | none =>
    let v ← Action.query fun _ => make ()
    put e c v
    pure (v, true)

/-! ## Changing values -/

/-- Changes the value of a component where it is there. -/
def overwrite (e : Entity) (c : Component S) (f : c.Value → c.Value) :
    Action (Store S) ε Unit :=
  Action.modify fun s => { s with pools := s.pools.modify c (·.modify e f) }

/-- Changes the value of a component that must be there.  The answer is the value before. -/
def tryUpdate (e : Entity) (c : Component S) (f : c.Value → c.Value) :
    Action (Store S) StoreError c.Value := do
  let old ← Action.query (·.fetch e c)
  overwrite e c f
  pure old

/-- Changes the value of a component that must be there.  The answer is the value before. -/
def update (e : Entity) (c : Component S) (f : c.Value → c.Value) :
    Action (Store S) Fault c.Value :=
  (tryUpdate e c f).mapError .refused

/-- Changes the value of a component of a live entity, if it is there. -/
def update? (e : Entity) (c : Component S) (f : c.Value → c.Value) :
    Action (Store S) Fault (Option c.Value) := do
  let old ← Action.query (·.get? e c)
  overwrite e c f
  pure old

/-- Changes the values of all owners of a component, each in its own way.  The answer lists the
values before. -/
def updateAll (c : Component S) (f : Entity → c.Value → c.Value) :
    Action (Store S) ε (List (Entity × c.Value)) :=
  Action.modifyGet fun s =>
    (s.view c, { s with pools := s.pools.modify c (·.mapValues f) })

/-! ## Detaching -/

/-- Drops the value of a component where it is there. -/
def drop (e : Entity) (c : Component S) : Action (Store S) ε Unit :=
  Action.modify fun s => { s with pools := s.pools.modify c (·.erase e) }

/-- Detaches a component that must be there. -/
def tryDetach (e : Entity) (c : Component S) : Action (Store S) StoreError c.Value := do
  let old ← Action.query (·.fetch e c)
  drop e c
  pure old

/-- Detaches a component that must be there. -/
def detach (e : Entity) (c : Component S) : Action (Store S) Fault c.Value :=
  (tryDetach e c).mapError .refused

/-- Detaches a component of a live entity, if it is there. -/
def detach? (e : Entity) (c : Component S) : Action (Store S) Fault (Option c.Value) := do
  let old ← Action.query (·.get? e c)
  drop e c
  pure old

/-! ## Names -/

/-- Gives a component a display name for messages. -/
def setName (c : Component S) (name : String) : Action (Store S) ε Unit :=
  Action.modify fun s => { s with catalog := s.catalog.setName c name }

end EntityStore.Store
