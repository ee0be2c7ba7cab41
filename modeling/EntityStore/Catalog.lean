import EntityStore.Component
import EntityStore.Table

/-!
# The catalog of components

The catalog records a display name for each component that has been used or named, so that
messages can say `transform` in place of a full path.  A component enters the catalog with its path
as its name.  A component that is not in the catalog is called by its path.
-/

namespace EntityStore

/-- What the catalog says of a component. -/
structure Info where
  /-- The display name. -/
  name : String
  /-- The name of the type and the layout of a value. -/
  descriptor : Descriptor
deriving DecidableEq

/-- The entry with which a component enters the catalog. -/
def Info.initial {S : Schema} (c : Component S) : Info := ⟨(S.describe c).path, S.describe c⟩

/-- The components that have been used or named. -/
abbrev Catalog (S : Schema) := Table (Component S) fun _ => Info

namespace Catalog

variable {S : Schema}

/-- Enters a component, unless it is there already. -/
def ensure (g : Catalog S) (c : Component S) : Catalog S := g.insertIfNew c (.initial c)

/-- Gives a component a display name, in the place of any earlier one. -/
def setName (g : Catalog S) (c : Component S) (name : String) : Catalog S :=
  (g.ensure c).modify c fun info => { info with name }

/-- The display name of a component. -/
def nameOf (g : Catalog S) (c : Component S) : String :=
  ((g.get? c).map Info.name).getD (S.describe c).path

/-- The entry of a component, or the one with which it would enter. -/
def info (g : Catalog S) (c : Component S) : Info := (g.get? c).getD (.initial c)

/-- The display names, in ascending order. -/
def names (g : Catalog S) : List String :=
  (g.entries.map fun x => x.snd.name).mergeSort fun a b => decide (a ≤ b)

end Catalog

end EntityStore
