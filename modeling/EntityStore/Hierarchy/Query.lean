import EntityStore.Store.Attachment

/-!
# Asking about a hierarchy

A hierarchy is a forest over the entities of a store, kept in the links of one tag.  Hierarchies of
different tags share the entities and nothing else.

The null handle is an entity without edges: every question about it has the answer that fits.  Any
other handle that is not live makes the question fail.
-/

namespace EntityStore.Store

variable {S : Schema}

/-! ## Presence of links -/

/-- Whether an entity is a child.  The links of a child come in a pair, and half a pair is a
failure. -/
def isChild (s : Store S) (t : S.Tag) (e : Entity) : Except Fault Bool :=
  if e.isNull then pure false
  else do
    let hasParent ← s.has e (.parentLink t)
    let hasSiblings ← s.has e (.siblingLinks t)
    if hasParent = hasSiblings then pure hasParent
    else throw (.halfChild e hasParent hasSiblings)

/-- Whether an entity has children.  The links of a parent come in a pair, and half a pair is a
failure. -/
def isParent (s : Store S) (t : S.Tag) (e : Entity) : Except Fault Bool :=
  if e.isNull then pure false
  else do
    let hasFirst ← s.has e (.firstChild t)
    let hasCount ← s.has e (.childCount t)
    if hasFirst = hasCount then pure hasFirst
    else throw (.halfParent e hasFirst hasCount)

/-! ## Single links -/

/-- The parent of a child. -/
def parentOf? (s : Store S) (t : S.Tag) (e : Entity) : Except Fault (Option Entity) :=
  if e.isNull then pure none
  else do
    let link ← s.get? e (.parentLink t)
    pure (link.map ParentLink.parent)

/-- The first child of a parent. -/
def firstChildOf? (s : Store S) (t : S.Tag) (e : Entity) : Except Fault (Option Entity) :=
  if e.isNull then pure none
  else do
    let head ← s.get? e (.firstChild t)
    pure (head.map FirstChild.first)

/-- The number of children that is recorded for an entity, zero where none is. -/
def childCount (s : Store S) (t : S.Tag) (e : Entity) : Except Fault UInt64 :=
  if e.isNull then pure 0
  else do
    let count ← s.get? e (.childCount t)
    pure ((count.map ChildCount.size).getD 0)

/-- Whether a child names an entity as its parent. -/
def isChildOf (s : Store S) (t : S.Tag) (parent child : Entity) : Except Fault Bool := do
  let actual ← s.parentOf? t child
  pure (actual = some parent)

/-! ## Ancestors -/

/-- Whether the chain of parents that starts at a node reaches the target.  The chain goes on from
a live node only, and it ends at a node that it passed before.  At most `n` more nodes are passed;
after as many live nodes as there are slots, no further one is new. -/
def chainReaches (s : Store S) (t : S.Tag) (target : Entity) :
    (n : Nat) → (passed : List Entity) → Option Entity → Except Fault Bool
  | _, _, none => pure false
  | 0, _, some node => pure (node = target)
  | n + 1, passed, some node =>
    if node = target then pure true
    else if passed.contains node || !s.valid node then pure false
    else do
      let parent ← s.parentOf? t node
      s.chainReaches t target n (node :: passed) parent

/-- Whether an entity lies above another: it is reached by one or more steps to the parent. -/
def isAncestorOf (s : Store S) (t : S.Tag) (ancestor e : Entity) : Except Fault Bool := do
  let parent ← s.parentOf? t e
  s.chainReaches t ancestor s.slotCount [] parent

end EntityStore.Store
