import EntityStore.Store.Basic

/-!
# Context variables

A store has room for one value of each type beside its entities, for state that belongs to the
store as a whole, such as settings.  Each value has a name, given when it was set.  The context and
the entities do not affect each other.
-/

namespace EntityStore.Store

variable {S : Schema} {ε : Type}

/-- The cause for a variable that was never set. -/
def unset (c : Component S) : StoreError := .missingContext (S.describe c).path

/-- The value of a context variable, if it was set. -/
def contextValue? (s : Store S) (c : Component S) : Option c.Value :=
  (s.context.get? c).map (·.value)

/-- The value of a context variable that must have been set. -/
def contextValue (s : Store S) (c : Component S) : Except Fault c.Value :=
  match s.contextValue? c with
  | some v => pure v
  | none => throw (.refused (unset c))

/-- The name with which a context variable was set. -/
def contextName? (s : Store S) (c : Component S) : Option String :=
  (s.context.get? c).map (·.name)

/-- The report of a variable that is set once more. -/
def replacedVariable (name : String) : Report :=
  { level := .debug, message := "replaced context variable", fields := [("name", .text name)] }

/-- Sets a context variable, in the place of any value there. -/
def setContext (c : Component S) (name : String) (v : c.Value) :
    Action (Store S) ε c.Value := do
  if (← Action.state).context.contains c then
    Action.report (replacedVariable name)
  Action.modify fun s => { s with context := s.context.insert c ⟨name, v⟩ }
  pure v

/-- Changes the value of a context variable, if it was set.  The answer is the value before. -/
def updateContext? (c : Component S) (f : c.Value → c.Value) :
    Action (Store S) ε (Option c.Value) :=
  Action.modifyGet fun s =>
    (s.contextValue? c,
      { s with context := s.context.modify c fun x => { x with value := f x.value } })

/-- Changes the value of a context variable that must have been set. -/
def updateContext (c : Component S) (f : c.Value → c.Value) :
    Action (Store S) Fault c.Value := do
  match ← updateContext? c f with
  | some v => pure v
  | none => Action.fail (.refused (unset c))

/-- The value of a context variable, which is made and set first if it was not set.  The answer says
also whether it was.  Where the making fails, the context stays as it is. -/
def getOrSetContext (c : Component S) (name : String) (make : Unit → Except Fault c.Value) :
    Action (Store S) Fault (c.Value × Bool) := do
  match (← Action.state).contextValue? c with
  | some old => pure (old, false)
  | none =>
    let v ← Action.query fun _ => make ()
    Action.modify fun s => { s with context := s.context.insert c ⟨name, v⟩ }
    pure (v, true)

/-- Removes a context variable.  The answer is its value, if it was set. -/
def removeContext (c : Component S) : Action (Store S) ε (Option c.Value) :=
  Action.modifyGet fun s => (s.contextValue? c, { s with context := s.context.erase c })

/-! ## Text -/

/-- The names of the context variables, in ascending order, as a set. -/
def contextDebug (s : Store S) : String :=
  let names := s.context.entries.map fun x => x.snd.name
  Text.set ((names.mergeSort fun a b => decide (a ≤ b)).map Text.quoted)

/-- The store as a record of the sizes of its parts. -/
def debug (s : Store S) : String :=
  Text.record "Registry"
    [("entities", toString s.entityCount), ("pools", toString s.pools.size),
      ("context", s.contextDebug)]

end EntityStore.Store
