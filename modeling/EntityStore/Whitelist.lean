import EntityStore.Store.Basic

/-!
# Whitelists

A whitelist limits the components that an entity may carry.  The check of an entity names every
component that is not allowed, with repetitions where components share a display name, in ascending
order.
-/

namespace EntityStore

/-- The components that an entity may carry, in the order of their first mention. -/
structure Whitelist (S : Schema) where
  /-- The components. -/
  allowed : List (Component S) := []
deriving DecidableEq

namespace Whitelist

variable {S : Schema}

/-- Allows a component. -/
def allow (w : Whitelist S) (c : Component S) : Whitelist S := ⟨mention w.allowed c⟩

/-- Whether a component is allowed. -/
def allows (w : Whitelist S) (c : Component S) : Bool := w.allowed.contains c

end Whitelist

namespace Store

variable {S : Schema}

/-- The report of a component that is not allowed. -/
def strayComponent (e : Entity) (name : String) : Report :=
  { level := .warn
    message := "component not on whitelist"
    fields := [("entity", .text e.display), ("component", .text name)] }

/-- The display names of the components of an entity that are not allowed, in the order of the
pools. -/
def strays (s : Store S) (e : Entity) (w : Whitelist S) : Except Fault (List String) := do
  let carried ← s.visit e
  pure ((carried.filter fun x => !w.allows x.1).map fun x => x.2.name)

/-- Refuses a live entity that carries a component which is not allowed. -/
def checkWhitelist (e : Entity) (w : Whitelist S) :
    Action (Store S) Fault (Except StoreError Unit) := do
  let names ← Action.query (·.strays e w)
  Action.reportAll (names.map (strayComponent e))
  if names.isEmpty then pure (.ok ())
  else pure (.error (.unexpected e (names.mergeSort fun a b => decide (a ≤ b))))

end Store

end EntityStore
