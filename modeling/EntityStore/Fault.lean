import EntityStore.Entity
import EntityStore.Text.Form
import EntityStore.Text.Quoted

/-!
# What can go wrong

`StoreError` holds the refusals of the checked operations on a store, `Fault` the failures of those
that expect the caller to keep to the rules, and `LinkError` the findings of an examination of a
hierarchy.  Each is a cause with its data.  The wording of all of them is here.
-/

namespace EntityStore

/-! ## Refusals of the store -/

/-- Why a store refuses an operation. -/
inductive StoreError where
  /-- The entity is not live. -/
  | stale (entity : Entity)
  /-- The entity lacks the component. -/
  | missing (entity : Entity) (component : String)
  /-- The entity has the component already. -/
  | duplicate (entity : Entity) (component : String)
  /-- The entity has components that are not allowed. -/
  | unexpected (entity : Entity) (components : List String)
  /-- The context has no variable of the type. -/
  | missingContext (path : String)
deriving DecidableEq

/-- The refusal in words. -/
def StoreError.message : StoreError → String
  | stale e => "entity " ++ e.debug ++ " does not exist (stale or never allocated)"
  | missing e c => "entity " ++ e.debug ++ " has no '" ++ c ++ "' component"
  | duplicate e c => "entity " ++ e.debug ++ " already has a '" ++ c ++ "' component"
  | unexpected e cs =>
    "entity " ++ e.debug ++ " carries components outside its whitelist: " ++
      Text.list (cs.map Text.quoted)
  | missingContext path => "context variable of type '" ++ path ++ "' is not set"

/-- The refusal as a record. -/
def StoreError.debug : StoreError → String
  | stale e => Text.record "StaleEntity" [("entity", e.debug)]
  | missing e c =>
    Text.record "MissingComponent" [("entity", e.debug), ("component", Text.quoted c)]
  | duplicate e c =>
    Text.record "DuplicateComponent" [("entity", e.debug), ("component", Text.quoted c)]
  | unexpected e cs =>
    Text.record "UnexpectedComponents"
      [("entity", e.debug), ("components", Text.list (cs.map Text.quoted))]
  | missingContext path => Text.record "MissingContext" [("type_name", Text.quoted path)]

/-! ## Findings in a hierarchy -/

/-- How the links of a parent and its children are broken. -/
inductive LinkError where
  /-- The entity has a first child without a count, or the reverse. -/
  | halfParent (entity : Entity)
  /-- The entity has a parent without neighbours, or the reverse. -/
  | halfChild (entity : Entity)
  /-- The first child has a neighbour before it. -/
  | headHasPrev (parent head prev : Entity)
  /-- The parent is not live. -/
  | deadParent (parent : Entity)
  /-- A listed child is not live. -/
  | deadChild (parent child : Entity)
  /-- A listed child has no links. -/
  | unlinked (parent child : Entity)
  /-- A listed child has another parent. -/
  | foreignParent (parent child actual : Entity)
  /-- A child does not lead back to the one before it. -/
  | brokenBackLink (prev next actual : Entity)
  /-- A child is listed twice. -/
  | cycle (parent child : Entity)
  /-- The count is not the number of children listed. -/
  | countMismatch (parent : Entity) (recorded walked : Nat)
deriving DecidableEq

/-- The finding in words. -/
def LinkError.message : LinkError → String
  | halfParent e => e.debug ++ " carries only one of FirstChild/ChildCount"
  | halfChild e => e.debug ++ " carries only one of ParentLink/SiblingLinks"
  | headHasPrev p h v =>
    "first child " ++ h.debug ++ " of " ++ p.debug ++ " has prev = " ++ v.debug
  | deadParent p => p.debug ++ " is not a live entity"
  | deadChild p c => "child " ++ c.debug ++ " of " ++ p.debug ++ " is not a live entity"
  | unlinked p c =>
    c.debug ++ " is listed under " ++ p.debug ++ " but is not linked as a child"
  | foreignParent p c a =>
    c.debug ++ " is listed under " ++ p.debug ++ " but its parent link is " ++ a.debug
  | brokenBackLink v n a => n.debug ++ ".prev is " ++ a.debug ++ ", expected " ++ v.debug
  | cycle p c => c.debug ++ " appears twice under " ++ p.debug
  | countMismatch p recorded walked =>
    p.debug ++ " records " ++ toString recorded ++ " children but " ++ toString walked ++
      " were reachable"

/-- The finding as a record. -/
def LinkError.debug : LinkError → String
  | halfParent e => Text.record "HalfParent" [("entity", e.debug)]
  | halfChild e => Text.record "HalfChild" [("entity", e.debug)]
  | headHasPrev p h v =>
    Text.record "HeadHasPrev" [("parent", p.debug), ("head", h.debug), ("prev", v.debug)]
  | deadParent p => Text.record "DeadParent" [("parent", p.debug)]
  | deadChild p c => Text.record "DeadChild" [("parent", p.debug), ("child", c.debug)]
  | unlinked p c => Text.record "Unlinked" [("parent", p.debug), ("child", c.debug)]
  | foreignParent p c a =>
    Text.record "ForeignParent" [("parent", p.debug), ("child", c.debug), ("actual", a.debug)]
  | brokenBackLink v n a =>
    Text.record "BrokenBackLink" [("prev", v.debug), ("next", n.debug), ("actual", a.debug)]
  | cycle p c => Text.record "Cycle" [("parent", p.debug), ("child", c.debug)]
  | countMismatch p recorded walked =>
    Text.record "CountMismatch"
      [("parent", p.debug), ("recorded", toString recorded), ("walked", toString walked)]

/-! ## Failures -/

/-- Why an operation that expects the caller to keep to the rules fails. -/
inductive Fault where
  /-- The checked operation refuses. -/
  | refused (e : StoreError)
  /-- Every slot is in use. -/
  | exhausted
  /-- The entity has a parent without neighbours, or the reverse. -/
  | halfChild (entity : Entity) (hasParent hasSiblings : Bool)
  /-- The entity has a first child without a count, or the reverse. -/
  | halfParent (entity : Entity) (hasFirst hasCount : Bool)
  /-- A child is to be linked under a parent that is not live. -/
  | deadParent (parent : Entity)
  /-- A child that is not live is to be linked. -/
  | deadChild (child : Entity)
  /-- An entity is to be linked under itself. -/
  | ownChild (entity : Entity)
  /-- The child to be linked has a parent. -/
  | alreadyChild (child : Entity) (parent : Option Entity)
  /-- The parent lies below the child to be linked under it. -/
  | wouldCycle (child parent : Entity)
  /-- The first child has a neighbour before it. -/
  | headHasPrev (head : Entity)
  /-- The child to be unlinked has no neighbour before it, and yet is not the first. -/
  | notHead (first : Option Entity) (child : Entity)
  /-- A listed child has another parent, or none. -/
  | notChild
  /-- The last child is gone, and yet the list has a head. -/
  | headRemains
  /-- The number of children listed is not the count. -/
  | countMismatch (listed : Nat) (count : UInt64)
  /-- The count of children is at its greatest value. -/
  | countOverflow
  /-- The count of children is zero where a child is to be unlinked. -/
  | countUnderflow
  /-- The list of children never ends. -/
  | endless (parent : Entity)
  /-- More children were visited than the visitor allows. -/
  | visitLimit
deriving DecidableEq

/-- The failure in words. -/
def Fault.message : Fault → String
  | refused e => e.message
  | exhausted => "entity slot space exhausted"
  | halfChild e a b =>
    Text.failedComparison "==" (some (e.debug ++ " is half-linked as a child"))
      (Text.truth a) (Text.truth b)
  | halfParent e a b =>
    Text.failedComparison "==" (some (e.debug ++ " is half-linked as a parent"))
      (Text.truth a) (Text.truth b)
  | deadParent p => "parent " ++ p.debug ++ " is not a live entity"
  | deadChild c => "child " ++ c.debug ++ " is not a live entity"
  | ownChild e =>
    Text.failedComparison "!=" (some "an entity cannot be its own child") e.debug e.debug
  | alreadyChild c p => c.debug ++ " is already a child of " ++ Text.optional Entity.debug p
  | wouldCycle c p => "linking " ++ c.debug ++ " under " ++ p.debug ++ " would create a cycle"
  | headHasPrev h => "list head " ++ h.debug ++ " has a prev"
  | notHead first c =>
    Text.failedComparison "==" none (Text.optional Entity.debug first)
      (Text.optional Entity.debug (some c))
  | notChild => Text.failedCondition "is_child_of::<T>(reg, parent, child)"
  | headRemains => Text.failedCondition "reg.get::<FirstChild<T>>(parent).first.is_null()"
  | countMismatch listed count =>
    Text.failedComparison "==" none (toString listed) (toString count.toNat)
  | countOverflow => "attempt to add with overflow"
  | countUnderflow => "attempt to subtract with overflow"
  | endless p => "the children of " ++ p.debug ++ " never end"
  | visitLimit => "visit limit"

end EntityStore
