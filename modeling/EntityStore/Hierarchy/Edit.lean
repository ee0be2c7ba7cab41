import EntityStore.Hierarchy.Children
import EntityStore.Selector

/-!
# Linking and unlinking

A new child goes to the front of the list of its parent.  Linking and unlinking touch a bounded
number of entities: the child, its parent and its neighbours.

An edit is a sequence of single writes, each of which may find the links broken and fail.  What was
written before stays written.  An edit checks as much as it can before its first write.
-/

namespace EntityStore.Store

variable {S : Schema}

/-! ## Linking -/

/-- Makes a child the neighbour before the head of a list, if the list has a head. -/
def linkBefore (t : S.Tag) (child : Entity) : Option Entity → Action (Store S) Fault Unit
  | none => pure ()
  | some head => do
    let links : SiblingLinks ← Action.query (·.get head (.siblingLinks t))
    Action.require links.prev.isNull (.headHasPrev head)
    let _ ← update head (.siblingLinks t) fun (l : SiblingLinks) => { l with prev := child }

/-- Adds one to the number of children of a parent. -/
def countUp (t : S.Tag) (parent : Entity) : Action (Store S) Fault Unit := do
  let (count, _) ← getOrAttach parent (.childCount t) fun _ => .ok ({} : ChildCount)
  Action.require (count.size.toNat + 1 < UInt64.size) .countOverflow
  let _ ← update parent (.childCount t) fun (n : ChildCount) => ⟨n.size + 1⟩

/-- Links a child as the new first child of a parent.  Both must be live and different, the child
must not have a parent, and the parent must not lie below the child. -/
def prependChild (t : S.Tag) (parent child : Entity) : Action (Store S) Fault Unit := do
  let s ← Action.state
  Action.require (s.valid parent) (.deadParent parent)
  Action.require (s.valid child) (.deadChild child)
  Action.require (parent ≠ child) (.ownChild parent)
  if ← Action.query (·.isChild t child) then
    let owner ← Action.query (·.parentOf? t child)
    Action.fail (.alreadyChild child owner)
  let above ← Action.query (·.isAncestorOf t child parent)
  Action.require (!above) (.wouldCycle child parent)
  let oldFirst ← Action.query (·.firstChildOf? t parent)
  linkBefore t child oldFirst
  let _ ← attach child (.parentLink t) (⟨parent⟩ : ParentLink)
  let _ ← attach child (.siblingLinks t) ({ next := oldFirst.getD .null } : SiblingLinks)
  let _ ← attachOrReplace parent (.firstChild t) (⟨child⟩ : FirstChild)
  countUp t parent

/-! ## Unlinking -/

/-- Closes the gap before a child that leaves: the neighbour before it, or else its parent, leads
on to the neighbour after it. -/
def closeBefore (t : S.Tag) (parent child : Entity) (links : SiblingLinks) :
    Action (Store S) Fault Unit := do
  if links.prev.isNull then
    let first ← Action.query (·.firstChildOf? t parent)
    Action.require (first = some child) (.notHead first child)
    let _ ← update parent (.firstChild t) fun _ => (⟨links.next⟩ : FirstChild)
  else
    let _ ← update links.prev (.siblingLinks t)
      fun (l : SiblingLinks) => { l with next := links.next }

/-- Closes the gap after a child that leaves: the neighbour after it leads back to the neighbour
before it. -/
def closeAfter (t : S.Tag) (links : SiblingLinks) : Action (Store S) Fault Unit := do
  unless links.next.isNull do
    let _ ← update links.next (.siblingLinks t)
      fun (l : SiblingLinks) => { l with prev := links.prev }

/-- Takes one from the number of children of a parent.  A parent without children loses its
links. -/
def countDown (t : S.Tag) (parent : Entity) : Action (Store S) Fault Unit := do
  let count : ChildCount ← Action.query (·.get parent (.childCount t))
  Action.require (count.size ≠ 0) .countUnderflow
  let _ ← update parent (.childCount t) fun (n : ChildCount) => ⟨n.size - 1⟩
  if count.size = 1 then
    let head : FirstChild ← Action.query (·.get parent (.firstChild t))
    Action.require head.first.isNull .headRemains
    let _ ← detach parent (.firstChild t)
    let _ ← detach parent (.childCount t)

/-- Takes both links from a child. -/
def dropChildLinks (t : S.Tag) (child : Entity) : Action (Store S) Fault Unit := do
  let _ ← detach child (.parentLink t)
  let _ ← detach child (.siblingLinks t)

/-- Whether there is an edge to be removed between a parent and a child. -/
def hasEdge (s : Store S) (t : S.Tag) (parent child : Entity) : Except Fault Bool :=
  if parent.isNull || child.isNull then pure false
  else do
    if ← s.isParent t parent then s.isChildOf t parent child else pure false

/-- Unlinks a child from a parent.  The answer is whether it was a child of that parent, and
nothing changes if it was not. -/
def removeChild (t : S.Tag) (parent child : Entity) : Action (Store S) Fault Bool := do
  if ← Action.query (·.hasEdge t parent child) then
    let links : SiblingLinks ← Action.query (·.get child (.siblingLinks t))
    closeBefore t parent child links
    closeAfter t links
    countDown t parent
    dropChildLinks t child
    pure true
  else pure false

/-- Unlinks a child from the parent that it has.  The answer is whether it had one. -/
def detachChild (t : S.Tag) (child : Entity) : Action (Store S) Fault Bool := do
  match ← Action.query (·.parentOf? t child) with
  | some parent => removeChild t parent child
  | none => pure false

/-! ## Unlinking many -/

/-- Takes both links from each of the listed children of a parent. -/
def dropEach (t : S.Tag) (parent : Entity) : List Entity → Action (Store S) Fault Unit
  | [] => pure ()
  | child :: rest => do
    let linked ← Action.query (·.isChildOf t parent child)
    Action.require linked .notChild
    dropChildLinks t child
    dropEach t parent rest

/-- Unlinks all children of a parent.  The answer is their number. -/
def clearChildren (t : S.Tag) (parent : Entity) : Action (Store S) Fault Nat := do
  let kids ← Action.query (·.listChildren t parent)
  let count ← Action.query (·.childCount t parent)
  Action.require (kids.length = count.toNat) (.countMismatch kids.length count)
  dropEach t parent kids
  let _ ← detach parent (.firstChild t)
  let _ ← detach parent (.childCount t)
  pure kids.length

/-- Unlinks all children of each of some parents.  The answer is their number. -/
def clearEach (t : S.Tag) : List Entity → Action (Store S) Fault Nat
  | [] => pure 0
  | parent :: rest => do
    let n ← clearChildren t parent
    let m ← clearEach t rest
    pure (n + m)

/-- The report of a selection whose children were unlinked. -/
def clearedSelection (t : S.Tag) (parents edges : Nat) : Report :=
  { level := .debug
    message := "cleared children of selection"
    fields :=
      [("hierarchy", .text (S.tagPath t)), ("parents", .number parents),
        ("edges", .number edges)] }

/-- Unlinks all children of all parents that pass a selector.  The answer is their number. -/
def clearSelection (t : S.Tag) (sel : Selector S) : Action (Store S) Fault Nat := do
  let parents := (← Action.state).select (sel.require (.firstChild t))
  let edges ← clearEach t parents
  Action.report (clearedSelection t parents.length edges)
  pure edges

end EntityStore.Store
