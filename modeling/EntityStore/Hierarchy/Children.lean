import EntityStore.Hierarchy.Query

/-!
# Listing children

The children of a parent form a list that leads from each child to the next.  `Children` is a place
in such a list, and `Store.nextChild` moves it on by one.

A list that leads back to an earlier child never ends.  A list that ends is no longer than the
number of entities with sibling links, so a walk that takes more steps than that
(`Store.listBound`) is one that never ends, and `Fault.endless` says so.
-/

namespace EntityStore

/-- A place in the list of children of a parent. -/
structure Children where
  /-- The child that comes next, or the null handle at the end. -/
  next : Entity
  /-- The number of children that should still come. -/
  remaining : Nat
deriving DecidableEq

/-- Bounds on the number of children that still come, as far as they can be told without a walk. -/
def Children.sizeHint (w : Children) : Nat × Nat :=
  if w.next.isNull then (0, 0) else (1, max w.remaining 1)

namespace Store

variable {S : Schema}

/-- The place before the first child of a parent. -/
def children (s : Store S) (t : S.Tag) (parent : Entity) : Except Fault Children := do
  let first ← s.firstChildOf? t parent
  let count ← s.childCount t parent
  pure ⟨first.getD .null, count.toNat⟩

/-- The next child, if there is one, and the place after it. -/
def nextChild (s : Store S) (t : S.Tag) (w : Children) :
    Except Fault (Option Entity × Children) :=
  if w.next.isNull then pure (none, w)
  else do
    let links : SiblingLinks ← s.get w.next (.siblingLinks t)
    pure (some w.next, ⟨links.next, w.remaining - 1⟩)

/-- More steps than the longest list of children that ends. -/
def listBound (s : Store S) (t : S.Tag) : Nat :=
  (s.pool? (.siblingLinks t)).elim 0 (·.size) + 1

/-- The children from a place on, found in at most `n` steps. -/
def listFrom (s : Store S) (t : S.Tag) (parent : Entity) :
    (n : Nat) → Children → Except Fault (List Entity)
  | 0, _ => throw (.endless parent)
  | n + 1, w => do
    match ← s.nextChild t w with
    | (none, _) => pure []
    | (some child, w') =>
      let rest ← s.listFrom t parent n w'
      pure (child :: rest)

/-- The children of a parent, in order. -/
def listChildren (s : Store S) (t : S.Tag) (parent : Entity) : Except Fault (List Entity) := do
  let w ← s.children t parent
  s.listFrom t parent (s.listBound t) w

/-- Whether a child comes from a place on, within at most `n` steps. -/
def comesFrom (s : Store S) (t : S.Tag) (parent candidate : Entity) :
    (n : Nat) → Children → Except Fault Bool
  | 0, _ => throw (.endless parent)
  | n + 1, w => do
    match ← s.nextChild t w with
    | (none, _) => pure false
    | (some child, w') =>
      if child = candidate then pure true else s.comesFrom t parent candidate n w'

/-- Whether an entity is in the list of children of a parent. -/
def hasChild (s : Store S) (t : S.Tag) (parent candidate : Entity) : Except Fault Bool :=
  if candidate.isNull then pure false
  else do
    let w ← s.children t parent
    s.comesFrom t parent candidate (s.listBound t) w

/-- What a place and those after it show, for a number of steps: each next child and the bounds
after it. -/
def stepChildren (s : Store S) (t : S.Tag) :
    Nat → Children → Except Fault (List (Option Entity × (Nat × Nat)))
  | 0, _ => pure []
  | n + 1, w => do
    let (child, w') ← s.nextChild t w
    let rest ← s.stepChildren t n w'
    pure ((child, w'.sizeHint) :: rest)

end Store

end EntityStore
