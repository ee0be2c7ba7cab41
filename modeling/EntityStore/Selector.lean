import EntityStore.Store.Basic

/-!
# Selections

A selector names components that an entity must carry and components that it must not carry.
`Store.select` lists the live entities that pass.  It looks through the smallest pool of a required
component, the first mentioned of equally small ones, and keeps the order of that pool.  Where
nothing is required it looks through all live entities in the order of their slots.  A required
component that has no pool is carried by no entity.

A selector is made in steps (`Selector.Term`), each of which mentions components once more.
-/

namespace EntityStore

/-- The components that an entity must carry and those that it must not carry. -/
structure Selector (S : Schema) where
  /-- The components that an entity must carry, in the order of their first mention. -/
  required : List (Component S) := []
  /-- The components that an entity must not carry, in the order of their first mention. -/
  rejected : List (Component S) := []
deriving DecidableEq

namespace Selector

variable {S : Schema}

/-- Requires a component. -/
def require (sel : Selector S) (c : Component S) : Selector S :=
  { sel with required := mention sel.required c }

/-- Rejects the entities that carry a component. -/
def reject (sel : Selector S) (c : Component S) : Selector S :=
  { sel with rejected := mention sel.rejected c }

/-- Rejects the entities that are to be destroyed, lack some of their parts or are kept for
reuse. -/
def rejectUnready (sel : Selector S) : Selector S :=
  ((sel.reject (.mark .doomed)).reject (.mark .unfinished)).reject (.mark .parked)

/-- One step in the making of a selector. -/
inductive Term (S : Schema) where
  /-- Require a component. -/
  | require (c : Component S)
  /-- Reject the entities that carry a component. -/
  | reject (c : Component S)
  /-- Reject the entities that are not ready. -/
  | rejectUnready

/-- The selector after one more step. -/
def add (sel : Selector S) : Term S → Selector S
  | .require c => sel.require c
  | .reject c => sel.reject c
  | .rejectUnready => sel.rejectUnready

/-- The selector that some steps make, one after another. -/
def ofTerms (ts : List (Term S)) : Selector S := ts.foldl add {}

end Selector

namespace Store

variable {S : Schema}

/-- Whether an entity is live and passes a selector. -/
def passes (s : Store S) (sel : Selector S) (e : Entity) : Bool :=
  s.valid e && sel.required.all (s.carries e) && !sel.rejected.any (s.carries e)

/-- The shortest of some arrays, the first of equally short ones. -/
def shortest {α : Type} (first : Array α) (others : List (Array α)) : Array α :=
  others.foldl (fun best xs => if xs.size < best.size then xs else best) first

/-- The entities among which those that pass a selector are to be found. -/
def candidates (s : Store S) (sel : Selector S) : List Entity :=
  match sel.required.mapM fun c => (s.pool? c).map (·.owners) with
  | none => []
  | some [] => s.entities
  | some (first :: others) => (shortest first others).toList

/-- The live entities that pass a selector. -/
def select (s : Store S) (sel : Selector S) : List Entity :=
  (s.candidates sel).filter (s.passes sel)

/-- One of the live entities that pass a selector. -/
def find? (s : Store S) (sel : Selector S) : Option Entity := (s.select sel).head?

end Store

end EntityStore
