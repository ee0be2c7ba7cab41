import EntityStore.Hierarchy.Children

/-!
# Visiting children

`Store.visitChildren` hands each child of a parent to a visitor, in order.  The child after it is
read before the visitor runs, so the visitor may unlink or destroy the child that it was handed.
The visitor may change the list in other ways too, and even without end, so the number of children
to be visited has a limit.
-/

namespace EntityStore.Store

variable {S : Schema} {ε : Type} {α : Type}

/-- How a walk over the children of a parent ended. -/
structure Visits (α : Type) where
  /-- The children visited, with what the visitor made of each. -/
  visited : List (Entity × α) := []
  /-- The failure that ended the walk early. -/
  failure : Option Fault := none

/-- The child after a listed child, which must name the parent as its own. -/
def successor (s : Store S) (t : S.Tag) (parent child : Entity) :
    Except Fault (Option Entity) := do
  if ← s.isChildOf t parent child then
    let links : SiblingLinks ← s.get child (.siblingLinks t)
    pure links.next.nonNull?
  else throw .notChild

/-- Visits the children from a place on, at most `n` of them. -/
def visitFrom (t : S.Tag) (parent : Entity)
    (visitor : Entity → Entity → Action (Store S) Fault α) :
    (n : Nat) → Option Entity → Action (Store S) ε (Visits α)
  | _, none => pure {}
  | n, some child => do
    match ← Action.attempt (Action.query (·.successor t parent child)) with
    | .error f => pure { failure := some f }
    | .ok next =>
      match n with
      | 0 => pure { failure := some .visitLimit }
      | n + 1 =>
        match ← Action.attempt (visitor parent child) with
        | .error f => pure { failure := some f }
        | .ok a =>
          let rest ← visitFrom t parent visitor n next
          pure { rest with visited := (child, a) :: rest.visited }

/-- Visits the children of a parent, at most `limit` of them. -/
def visitChildren (limit : Nat) (t : S.Tag) (parent : Entity)
    (visitor : Entity → Entity → Action (Store S) Fault α) : Action (Store S) ε (Visits α) := do
  match ← Action.attempt (Action.query (·.firstChildOf? t parent)) with
  | .error f => pure { failure := some f }
  | .ok first => visitFrom t parent visitor limit first

end EntityStore.Store
