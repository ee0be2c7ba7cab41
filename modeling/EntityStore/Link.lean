import EntityStore.Entity
import EntityStore.Text.Form

/-!
# Links

A hierarchy is stored in four kinds of value, attached to the entities it joins.  A child has its
parent (`ParentLink`) and its two neighbours among the children of that parent (`SiblingLinks`).
A parent has the first of its children (`FirstChild`) and their number (`ChildCount`).  The null
handle stands for a neighbour that is absent.
-/

namespace EntityStore

/-- The parent of a child. -/
structure ParentLink where
  /-- The parent. -/
  parent : Entity := .null
deriving DecidableEq

/-- The neighbours of a child among the children of its parent. -/
structure SiblingLinks where
  /-- The child that comes after this one. -/
  next : Entity := .null
  /-- The child that comes before this one. -/
  prev : Entity := .null
deriving DecidableEq

/-- The head of the list of children of a parent. -/
structure FirstChild where
  /-- The first child. -/
  first : Entity := .null
deriving DecidableEq

/-- The number of children of a parent. -/
structure ChildCount where
  /-- The number. -/
  size : UInt64 := 0
deriving DecidableEq

/-! ## Text -/

/-- The link as a record. -/
def ParentLink.debug (v : ParentLink) : String :=
  Text.record "ParentLink" [("parent", v.parent.debug)]

/-- The links as a record. -/
def SiblingLinks.debug (v : SiblingLinks) : String :=
  Text.record "SiblingLinks" [("next", v.next.debug), ("prev", v.prev.debug)]

/-- The head as a record. -/
def FirstChild.debug (v : FirstChild) : String :=
  Text.record "FirstChild" [("first", v.first.debug)]

/-- The number as a record. -/
def ChildCount.debug (v : ChildCount) : String :=
  Text.record "ChildCount" [("size", toString v.size.toNat)]

end EntityStore
