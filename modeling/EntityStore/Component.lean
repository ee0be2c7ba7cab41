import EntityStore.Link

/-!
# Components

A *component* is a kind of value that entities carry.  There are three families of them: the data
that an application chooses, the marks that steer construction and destruction, and the links of
the hierarchies, which are told apart by a tag.

A *schema* says what an application chooses: its data components with the types of their values,
the tags of its hierarchies, and how each component and each tag is named and laid out in memory.
-/

namespace EntityStore

/-- A mark, which carries no value besides being there. -/
inductive Mark where
  /-- The entity is kept for reuse and may hold stale data. -/
  | parked
  /-- The entity is to be destroyed. -/
  | doomed
  /-- The entity still lacks some of its parts. -/
  | unfinished
  /-- The entity lacked some of its parts until a moment ago. -/
  | finished
deriving DecidableEq

/-- A component over the data `D` and the tags `T`. -/
inductive Kind (D T : Type) where
  /-- Data of the application. -/
  | data (d : D)
  /-- A mark. -/
  | mark (m : Mark)
  /-- The parent of a child. -/
  | parentLink (t : T)
  /-- The neighbours of a child. -/
  | siblingLinks (t : T)
  /-- The first child of a parent. -/
  | firstChild (t : T)
  /-- The number of children of a parent. -/
  | childCount (t : T)
deriving DecidableEq

/-- How a component is named and laid out in memory. -/
structure Descriptor where
  /-- The full path of the type of its values. -/
  path : String
  /-- The number of bytes of a value. -/
  size : Nat
  /-- The alignment of a value. -/
  align : Nat
deriving DecidableEq

/-- The choices of an application. -/
structure Schema where
  /-- The data components. -/
  Data : Type
  /-- The tags of the hierarchies. -/
  Tag : Type
  /-- Data components can be compared. -/
  decEqData : DecidableEq Data
  /-- Tags can be compared. -/
  decEqTag : DecidableEq Tag
  /-- The type of the values of a data component. -/
  Value : Data → Type
  /-- The name and layout of each component. -/
  describe : Kind Data Tag → Descriptor
  /-- The full path of a tag. -/
  tagPath : Tag → String

instance (S : Schema) : DecidableEq S.Data := S.decEqData

instance (S : Schema) : DecidableEq S.Tag := S.decEqTag

/-- A component of a schema. -/
abbrev Component (S : Schema) := Kind S.Data S.Tag

/-- The type of the values of a component. -/
@[reducible]
def Component.Value {S : Schema} : Component S → Type
  | .data d => S.Value d
  | .mark _ => Unit
  | .parentLink _ => ParentLink
  | .siblingLinks _ => SiblingLinks
  | .firstChild _ => FirstChild
  | .childCount _ => ChildCount

/-- A list of components in the order of their first mention, after one more is mentioned. -/
def mention {S : Schema} (cs : List (Component S)) (c : Component S) : List (Component S) :=
  if c ∈ cs then cs else cs ++ [c]

end EntityStore
