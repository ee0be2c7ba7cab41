import EntityStore.Entity

/-!
# Pools

A pool holds the values of one component, at most one for each slot index.  It is a *sparse set*:
the owners and their values lie packed side by side, and a sparse table leads from a slot index to
the position of its owner.  Attaching appends, and detaching moves the last pair into the gap, so
both take constant time and the pairs stay packed.

A lookup matches the exact handle.  Attaching a value to a handle whose index is held by another
generation replaces that pair where it stands.

The order of the pairs (`Pool.toList`) can be observed, and is part of what each operation does.

A client uses a pool through requests (`Pool.Request`), each of which has an answer.
-/

namespace EntityStore

/-- Puts the last element in the place of the element at a position. -/
def swapRemove {α : Type} (xs : Array α) (i : Nat) : Array α :=
  match xs.back? with
  | some last => (xs.setIfInBounds i last).pop
  | none => xs

/-- The values of one component, by owner. -/
structure Pool (α : Type) where
  /-- The position of the owner of each slot index, where there is one. -/
  sparse : Array (Option Nat) := #[]
  /-- The owners. -/
  owners : Array Entity := #[]
  /-- The value of each owner, in the order of the owners. -/
  values : Array α := #[]

namespace Pool

variable {α : Type}

/-! ## Lookup -/

/-- The position held by a slot index, whatever the generation of its owner. -/
def held? (p : Pool α) (e : Entity) : Option Nat := p.sparse[e.index.toNat]?.join

/-- The position of an owner. -/
def position? (p : Pool α) (e : Entity) : Option Nat :=
  (p.held? e).filter fun i => p.owners[i]? == some e

/-- Whether a handle owns a value. -/
def contains (p : Pool α) (e : Entity) : Bool := (p.position? e).isSome

/-- The value of an owner. -/
def get? (p : Pool α) (e : Entity) : Option α := (p.position? e).bind (p.values[·]?)

/-- The owner of another generation whose place an attachment to a handle takes. -/
def evictee? (p : Pool α) (e : Entity) : Option Entity :=
  ((p.held? e).bind (p.owners[·]?)).filter (· ≠ e)

/-- The number of owners. -/
def size (p : Pool α) : Nat := p.owners.size

/-- Whether there are no owners. -/
def isEmpty (p : Pool α) : Bool := p.owners.isEmpty

/-- The owners, in order. -/
def entities (p : Pool α) : List Entity := p.owners.toList

/-- The owners with their values, in order. -/
def toList (p : Pool α) : List (Entity × α) := p.owners.toList.zip p.values.toList

/-! ## Change -/

/-- The sparse table, long enough to have an entry for a slot index. -/
def grown (p : Pool α) (i : Nat) : Array (Option Nat) :=
  p.sparse ++ Array.replicate (i + 1 - p.sparse.size) none

/-- Attaches a value.  An owner of the same slot index, of whatever generation, gives up its place
to the new pair, and otherwise the pair comes last. -/
def insert (p : Pool α) (e : Entity) (v : α) : Pool α :=
  match p.held? e with
  | some i =>
    { p with owners := p.owners.setIfInBounds i e, values := p.values.setIfInBounds i v }
  | none =>
    { sparse := (p.grown e.index.toNat).setIfInBounds e.index.toNat (some p.owners.size)
      owners := p.owners.push e
      values := p.values.push v }

/-- Attaches a value to a handle that owns none, and leaves an owner alone. -/
def insertIfNew (p : Pool α) (e : Entity) (v : Unit → α) : Pool α :=
  if p.contains e then p else p.insert e (v ())

/-- Changes the value of an owner. -/
def modify (p : Pool α) (e : Entity) (f : α → α) : Pool α :=
  match p.position? e with
  | some i => { p with values := p.values.modify i f }
  | none => p

/-- Changes the value of every owner, each in its own way. -/
def mapValues (p : Pool α) (f : Entity → α → α) : Pool α :=
  { p with values := Array.zipWith f p.owners p.values }

/-- Detaches the value of an owner.  The last pair moves into its place. -/
def erase (p : Pool α) (e : Entity) : Pool α :=
  match p.position? e, p.owners.back? with
  | some i, some last =>
    { sparse := (p.sparse.setIfInBounds last.index.toNat (some i)).setIfInBounds
        e.index.toNat none
      owners := swapRemove p.owners i
      values := swapRemove p.values i }
  | _, _ => p

/-- The value of an owner, which is made and attached first if there is none.  The answer says
also whether it was attached.  Where the making fails, nothing changes. -/
def getOrInsert {ε : Type} (p : Pool α) (e : Entity) (make : Unit → Except ε α) :
    Except ε (α × Bool) × Pool α :=
  match p.get? e with
  | some v => (.ok (v, false), p)
  | none =>
    match make () with
    | .ok v => (.ok (v, true), p.insert e v)
    | .error f => (.error f, p)

/-! ## Requests -/

/-- A use of a pool, with its arguments. -/
inductive Request (ε α : Type) where
  /-- Attach a value, and ask for the one that it replaces. -/
  | insert (e : Entity) (v : α)
  /-- Attach a value, and ask for it. -/
  | insertOrReplace (e : Entity) (v : α)
  /-- Ask for a value that is made if it is not there. -/
  | getOrInsert (e : Entity) (make : Unit → Except ε α)
  /-- Detach a value, and ask for it. -/
  | remove (e : Entity)
  /-- Detach a value, and ask whether it was there. -/
  | erase (e : Entity)
  /-- Ask for a value. -/
  | get (e : Entity)
  /-- Ask whether a value is there. -/
  | contains (e : Entity)
  /-- Change a value, and ask for the one before. -/
  | modify (e : Entity) (f : α → α)
  /-- Ask for the owners with their values. -/
  | list
  /-- Change all values, and ask for the pairs before. -/
  | modifyAll (f : Entity → α → α)
  /-- Ask for the owners. -/
  | entities
  /-- Ask for the number of owners. -/
  | size
  /-- Ask whether there are no owners. -/
  | isEmpty

namespace Request

variable {ε : Type}

/-- What a request answers. -/
def Answer : Request ε α → Type
  | insert _ _ | insertOrReplace _ _ | remove _ | get _ | modify _ _ => Option α
  | getOrInsert _ _ => Except ε (α × Bool)
  | erase _ | contains _ | isEmpty => Bool
  | list | modifyAll _ => List (Entity × α)
  | entities => List Entity
  | size => Nat

/-- The answer to a request, and the pool that it leaves. -/
def run : (k : Request ε α) → Pool α → k.Answer × Pool α
  | insert e v, p => (p.get? e, p.insert e v)
  | insertOrReplace e v, p => ((p.insert e v).get? e, p.insert e v)
  | getOrInsert e make, p => p.getOrInsert e make
  | remove e, p => (p.get? e, p.erase e)
  | erase e, p => ((p.get? e).isSome, p.erase e)
  | get e, p => (p.get? e, p)
  | contains e, p => (p.contains e, p)
  | modify e f, p => (p.get? e, p.modify e f)
  | list, p => (p.toList, p)
  | modifyAll f, p => (p.toList, p.mapValues f)
  | entities, p => (p.entities, p)
  | size, p => (p.size, p)
  | isEmpty, p => (p.isEmpty, p)

end Request

end Pool

end EntityStore
