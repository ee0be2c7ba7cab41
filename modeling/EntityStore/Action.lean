import EntityStore.Journal

/-!
# Actions

An action works on a state of type `σ`.  It ends with a value or fails with an error of type `ε`,
and what it did to the state before it failed stays done.  Along the way it may leave reports in
the journal.

The journal is part of the outcome and not of the state.  So a law about values and states never
mentions it, and `x >>= f` acts on the state alone through `run_bind_of_ok` and
`run_bind_of_error`.
-/

namespace EntityStore

/-- How an action ended. -/
structure Outcome (σ ε α : Type) where
  /-- The value or the error. -/
  result : Except ε α
  /-- The state that is left. -/
  state : σ
  /-- The reports, oldest first. -/
  reports : List Report := []

/-- A step on a state of type `σ` that may fail with an error of type `ε`. -/
def Action (σ ε α : Type) := σ → Outcome σ ε α

namespace Action

variable {σ ε ε' α β : Type}

/-- The outcome of an action on a state. -/
def run (x : Action σ ε α) (s : σ) : Outcome σ ε α := x s

/-- Ends with a value and changes nothing. -/
protected def pure (a : α) : Action σ ε α := fun s => { result := .ok a, state := s }

/-- Goes on with the value of the first action, unless it failed. -/
protected def bind (x : Action σ ε α) (f : α → Action σ ε β) : Action σ ε β := fun s =>
  match x s with
  | { result := .ok a, state, reports } =>
    let o := f a state
    { o with reports := reports ++ o.reports }
  | { result := .error e, state, reports } => { result := .error e, state, reports }

instance : Monad (Action σ ε) where
  pure := Action.pure
  bind := Action.bind

/-! ## Single steps -/

/-- Fails and changes nothing. -/
def fail (e : ε) : Action σ ε α := fun s => { result := .error e, state := s }

/-- The state. -/
def state : Action σ ε σ := fun s => { result := .ok s, state := s }

/-- Changes the state. -/
def modify (f : σ → σ) : Action σ ε Unit := fun s => { result := .ok (), state := f s }

/-- Changes the state and ends with a value read off it before. -/
def modifyGet (f : σ → α × σ) : Action σ ε α := fun s =>
  let (a, s') := f s
  { result := .ok a, state := s' }

/-- Leaves a report. -/
def report (r : Report) : Action σ ε Unit := fun s =>
  { result := .ok (), state := s, reports := [r] }

/-- Leaves a number of reports. -/
def reportAll (rs : List Report) : Action σ ε Unit := fun s =>
  { result := .ok (), state := s, reports := rs }

/-- Asks the state a question that may fail. -/
def query (q : σ → Except ε α) : Action σ ε α := fun s => { result := q s, state := s }

/-- Fails unless a condition holds. -/
def require (condition : Bool) (e : ε) : Action σ ε Unit := if condition then pure () else fail e

/-- Names the error anew. -/
def mapError (f : ε → ε') (x : Action σ ε α) : Action σ ε' α := fun s =>
  let o := x s
  { o with result := o.result.mapError f }

/-- Makes a failure a value.  What the action did stays done. -/
def attempt (x : Action σ ε α) : Action σ ε' (Except ε α) := fun s =>
  let o := x s
  { o with result := .ok o.result }

/-! ## Laws -/

@[simp] theorem run_pure (a : α) (s : σ) :
    (pure a : Action σ ε α).run s = { result := .ok a, state := s } := rfl

@[simp] theorem run_fail (e : ε) (s : σ) :
    (fail e : Action σ ε α).run s = { result := .error e, state := s } := rfl

@[simp] theorem run_state (s : σ) :
    (state : Action σ ε σ).run s = { result := .ok s, state := s } := rfl

@[simp] theorem run_modify (f : σ → σ) (s : σ) :
    (modify f : Action σ ε Unit).run s = { result := .ok (), state := f s } := rfl

@[simp] theorem run_modifyGet (f : σ → α × σ) (s : σ) :
    (modifyGet f : Action σ ε α).run s = { result := .ok (f s).1, state := (f s).2 } := rfl

@[simp] theorem run_report (r : Report) (s : σ) :
    (report r : Action σ ε Unit).run s = { result := .ok (), state := s, reports := [r] } := rfl

@[simp] theorem run_reportAll (rs : List Report) (s : σ) :
    (reportAll rs : Action σ ε Unit).run s = { result := .ok (), state := s, reports := rs } :=
  rfl

@[simp] theorem run_query (q : σ → Except ε α) (s : σ) :
    (query q).run s = { result := q s, state := s } := rfl

@[simp] theorem run_mapError (f : ε → ε') (x : Action σ ε α) (s : σ) :
    (mapError f x).run s = { x.run s with result := (x.run s).result.mapError f } := rfl

@[simp] theorem run_attempt (x : Action σ ε α) (s : σ) :
    (attempt x : Action σ ε' (Except ε α)).run s =
      { x.run s with result := .ok (x.run s).result } := rfl

theorem run_bind (x : Action σ ε α) (f : α → Action σ ε β) (s : σ) :
    (x >>= f).run s =
      match (x.run s).result with
      | .ok a =>
        let o := (f a).run (x.run s).state
        { o with reports := (x.run s).reports ++ o.reports }
      | .error e =>
        { result := .error e, state := (x.run s).state, reports := (x.run s).reports } := by
  simp only [run]
  change Action.bind x f s = _
  unfold Action.bind
  split <;> simp_all

theorem run_bind_of_ok {x : Action σ ε α} {s : σ} {a : α} (f : α → Action σ ε β)
    (h : (x.run s).result = .ok a) :
    ((x >>= f).run s).result = ((f a).run (x.run s).state).result ∧
      ((x >>= f).run s).state = ((f a).run (x.run s).state).state := by
  simp [run_bind, h]

theorem run_bind_of_error {x : Action σ ε α} {s : σ} {e : ε} (f : α → Action σ ε β)
    (h : (x.run s).result = .error e) :
    ((x >>= f).run s).result = .error e ∧ ((x >>= f).run s).state = (x.run s).state := by
  simp [run_bind, h]

/-- Two actions are the same if they have the same outcomes. -/
@[ext] theorem ext {x y : Action σ ε α} (h : ∀ s, x.run s = y.run s) : x = y := funext h

instance : LawfulMonad (Action σ ε) := LawfulMonad.mk' (Action σ ε)
  (fun x => by
    ext1 s
    change (x >>= pure).run s = x.run s
    rw [run_bind]
    rcases x.run s with ⟨_ | _, _, _⟩ <;> simp [run_pure])
  (fun a f => by
    ext1 s
    simp [run_bind, run_pure])
  (fun x f g => by
    ext1 s
    simp only [run_bind]
    rcases x.run s with ⟨_ | a, t, _⟩
    · rfl
    · generalize h : (f a).run t = o
      rcases o with ⟨_ | _, _, _⟩ <;> simp [h])

end Action

end EntityStore
