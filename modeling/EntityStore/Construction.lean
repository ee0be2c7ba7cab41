import EntityStore.Store.Attachment

/-!
# Construction in several steps

An entity that is put together in several steps carries the mark `unfinished` until the last step,
which turns the mark into `finished`.  That mark stays until the next sweep, so each completion is
seen by one sweep only.
-/

namespace EntityStore.Store

variable {S : Schema}

/-- Marks an entity as lacking some of its parts. -/
def beginConstruction (e : Entity) : Action (Store S) Fault Unit := do
  let _ ← attachOrReplace e (.mark .unfinished) ()
  let _ ← detach? e (.mark .finished)

/-- Marks an entity as complete.  The answer is whether it lacked some of its parts before. -/
def finishConstruction (e : Entity) : Action (Store S) Fault Bool := do
  match ← detach? e (.mark .unfinished) with
  | none => pure false
  | some _ =>
    let _ ← attachOrReplace e (.mark .finished) ()
    pure true

/-- The report of a sweep. -/
def clearedMarks (count : Nat) : Report :=
  { level := .trace
    message := "cleared just-constructed markers"
    fields := [("count", .number count)] }

/-- Detaches a component from each of some entities. -/
def detachEach (c : Component S) : List Entity → Action (Store S) Fault Unit
  | [] => pure ()
  | e :: es => do
    let _ ← detach e c
    detachEach c es

/-- Removes the mark `finished` from all entities.  The answer is how many carried it. -/
def clearFinished : Action (Store S) Fault Nat := do
  let done := ((← Action.state).pool? (.mark .finished)).elim [] (·.entities)
  detachEach (.mark .finished) done
  unless done.isEmpty do Action.report (clearedMarks done.length)
  pure done.length

end EntityStore.Store
