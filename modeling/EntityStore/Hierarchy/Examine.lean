import EntityStore.Hierarchy.Query

/-!
# Examining a hierarchy

`Store.examine` looks at a parent and at the list of its children and reports the first thing that
is wrong.  It asks nothing of the links that it looks at: they may dangle or lead in a circle.
-/

namespace EntityStore.Store

variable {S : Schema}

/-- Examines one child: its links must be there, name the parent, and lead back to the child before
it.  The answer is the child after it. -/
def examineChild (s : Store S) (t : S.Tag) (parent prev child : Entity) :
    Except LinkError Entity :=
  match s.lookup? child (.parentLink t), s.lookup? child (.siblingLinks t) with
  | none, none => throw (.unlinked parent child)
  | some (link : ParentLink), some (links : SiblingLinks) =>
    if link.parent ≠ parent then throw (.foreignParent parent child link.parent)
    else if links.prev ≠ prev then
      if prev.isNull then throw (.headHasPrev parent child links.prev)
      else throw (.brokenBackLink prev child links.prev)
    else pure links.next
  | _, _ => throw (.halfChild child)

/-- Examines the list from a child on.  The slots of the children before it are marked in `met`,
which tells whether a live child was met before, and at most `n` slots are not marked.  The answer
is the number of children. -/
def examineFrom (s : Store S) (t : S.Tag) (parent : Entity) :
    (n : Nat) → (met : Array Bool) → (prev child : Entity) → Except LinkError Nat
  | n, met, prev, child =>
    if child.isNull then pure 0
    else if !s.valid child then throw (.deadChild parent child)
    else if met[child.index.toNat]? = some true then throw (.cycle parent child)
    else
      match n with
      | 0 => throw (.cycle parent child)
      | n + 1 => do
        let next ← s.examineChild t parent prev child
        let met := met.setIfInBounds child.index.toNat true
        let rest ← s.examineFrom t parent n met child next
        pure (rest + 1)

/-- Examines a parent and the list of its children. -/
def examine (s : Store S) (t : S.Tag) (parent : Entity) : Except LinkError Unit :=
  if !s.valid parent then throw (.deadParent parent)
  else if s.carries parent (.parentLink t) ≠ s.carries parent (.siblingLinks t) then
    throw (.halfChild parent)
  else
    match s.lookup? parent (.firstChild t), s.lookup? parent (.childCount t) with
    | none, none => pure ()
    | some (head : FirstChild), some (count : ChildCount) => do
      let met := Array.replicate s.slotCount false
      let walked ← s.examineFrom t parent s.slotCount met .null head.first
      if walked ≠ count.size.toNat ∨ count.size = 0 then
        throw (.countMismatch parent count.size.toNat walked)
    | _, _ => throw (.halfParent parent)

end EntityStore.Store
