import EntityStore.Proofs.Operations

/-!
# Calls and what an abstract store answers

A *call* is one use of an operation on entities and their components, with its arguments.  The
handles and the component of a call are arbitrary.

An abstract store is nothing but its contents: the live entities and a partial map from entities
and components to values.  `Contents.Allows` says what it answers to each call and what it holds
afterwards.  The answer is determined, apart from the handle that a creation issues and the order
in which a view lists its pairs.

`Call.allowed` is the simulation: on a sound store every call does what the abstract store does.
-/

namespace EntityStore

variable {S : Schema}

/-- A use of an operation on entities and their components. -/
inductive Call (S : Schema) where
  /-- Issue a handle. -/
  | create
  /-- Release a handle, which must be live. -/
  | destroy (e : Entity)
  /-- Release a handle, or refuse. -/
  | tryDestroy (e : Entity)
  /-- Attach a component that must not be there. -/
  | attach (e : Entity) (c : Component S) (v : c.Value)
  /-- Attach a component, or refuse. -/
  | tryAttach (e : Entity) (c : Component S) (v : c.Value)
  /-- Attach a component in the place of any value there. -/
  | attachOrReplace (e : Entity) (c : Component S) (v : c.Value)
  /-- Ask for a value that is made if it is not there. -/
  | getOrAttach (e : Entity) (c : Component S) (make : Unit → Except Fault c.Value)
  /-- Ask whether a component is there. -/
  | has (e : Entity) (c : Component S)
  /-- Ask for a value that must be there. -/
  | get (e : Entity) (c : Component S)
  /-- Ask for a value, or refuse. -/
  | fetch (e : Entity) (c : Component S)
  /-- Ask for a value that may be there. -/
  | get? (e : Entity) (c : Component S)
  /-- Change a value that must be there. -/
  | update (e : Entity) (c : Component S) (f : c.Value → c.Value)
  /-- Change a value, or refuse. -/
  | tryUpdate (e : Entity) (c : Component S) (f : c.Value → c.Value)
  /-- Change a value that may be there. -/
  | update? (e : Entity) (c : Component S) (f : c.Value → c.Value)
  /-- Detach a component that must be there. -/
  | detach (e : Entity) (c : Component S)
  /-- Detach a component, or refuse. -/
  | tryDetach (e : Entity) (c : Component S)
  /-- Detach a component that may be there. -/
  | detach? (e : Entity) (c : Component S)
  /-- List the owners of a component with their values. -/
  | view (c : Component S)
  /-- Change the values of all owners of a component. -/
  | updateAll (c : Component S) (f : Entity → c.Value → c.Value)

namespace Call

/-- What a call answers when it does not fail.  A refusal is an answer of the checked forms. -/
def Answer : Call S → Type
  | create => Entity
  | destroy _ => Unit
  | tryDestroy _ => Except StoreError Unit
  | attach _ c _ | attachOrReplace _ c _ | get _ c | update _ c _ | detach _ c => c.Value
  | tryAttach _ c _ | fetch _ c | tryUpdate _ c _ | tryDetach _ c => Except StoreError c.Value
  | getOrAttach _ c _ => c.Value × Bool
  | has _ _ => Bool
  | get? _ c | update? _ c _ | detach? _ c => Option c.Value
  | view c | updateAll c _ => List (Entity × c.Value)

/-- The operation that a call uses. -/
def run : (k : Call S) → Action (Store S) Fault k.Answer
  | create => Store.create
  | destroy e => Store.destroy e
  | tryDestroy e => (Store.tryDestroy e).attempt
  | attach e c v => Store.attach e c v
  | tryAttach e c v => (Store.tryAttach e c v).attempt
  | attachOrReplace e c v => Store.attachOrReplace e c v
  | getOrAttach e c make => Store.getOrAttach e c make
  | has e c => Action.query (·.has e c)
  | get e c => Action.query (·.get e c)
  | fetch e c => (Action.query (·.fetch e c)).attempt
  | get? e c => Action.query (·.get? e c)
  | update e c f => Store.update e c f
  | tryUpdate e c f => (Store.tryUpdate e c f).attempt
  | update? e c f => Store.update? e c f
  | detach e c => Store.detach e c
  | tryDetach e c => (Store.tryDetach e c).attempt
  | detach? e c => Store.detach? e c
  | view c => Action.query fun s => .ok (s.view c)
  | updateAll c f => Store.updateAll c f

/-- Whether a call is about the value of a component of an entity and may change it. -/
def Concerns : Call S → Entity → Component S → Prop
  | destroy e, x, _ | tryDestroy e, x, _ => x = e
  | attach e c _, x, d | tryAttach e c _, x, d | attachOrReplace e c _, x, d
  | getOrAttach e c _, x, d | update e c _, x, d | tryUpdate e c _, x, d | update? e c _, x, d
  | detach e c, x, d | tryDetach e c, x, d | detach? e c, x, d => x = e ∧ d = c
  | updateAll c _, _, d => d = c
  | create, _, _ | has _ _, _, _ | get _ _, _, _ | fetch _ _, _, _ | get? _ _, _, _
  | view _, _, _ => False

end Call

/-! ## The abstract store -/

namespace Contents

/-- Whether every slot there can be has a live handle. -/
def Full (m : Contents S) : Prop :=
  ∀ i : UInt32, i.toNat < Allocator.slotLimit → ∃ g, m.live ⟨i, g⟩ = true

variable {α : Type}

/-- The short form of an operation fails where the operation refuses. -/
def Fails (p : Except StoreError α × Contents S) (r : Except Fault α) (m' : Contents S) : Prop :=
  r = p.1.mapError .refused ∧ m' = p.2

/-- The checked form of an operation answers with the refusal. -/
def Answers (p : Except StoreError α × Contents S) (r : Except Fault (Except StoreError α))
    (m' : Contents S) : Prop :=
  r = .ok p.1 ∧ m' = p.2

/-- Whether a list has each value of a component once. -/
def Lists (m : Contents S) (c : Component S) (r : Except Fault (List (Entity × c.Value))) : Prop :=
  ∃ pairs, r = .ok pairs ∧ pairs.Nodup ∧ ∀ e v, (e, v) ∈ pairs ↔ m.value? e c = some v

/-- Whether an abstract store may give an answer to a call and hold some contents afterwards. -/
def Allows (m : Contents S) : (k : Call S) → Except Fault k.Answer → Contents S → Prop
  | .create, r, m' =>
    (∃ e, r = .ok e ∧ m.live e = false ∧ e ≠ .null ∧ m' = m.issue e) ∨
      (r = .error .exhausted ∧ m' = m ∧ m.Full)
  | .destroy e, r, m' => Fails (m.onLive e (.ok (), m.release e)) r m'
  | .tryDestroy e, r, m' => Answers (m.onLive e (.ok (), m.release e)) r m'
  | .attach e c v, r, m' => Fails (m.attach e c v) r m'
  | .tryAttach e c v, r, m' => Answers (m.attach e c v) r m'
  | .attachOrReplace e c v, r, m' => Fails (m.onLive e (.ok v, m.assign e c (some v))) r m'
  | .getOrAttach e c make, r, m' =>
    r = (m.getOrAttach e c make).1 ∧ m' = (m.getOrAttach e c make).2
  | .has e c, r, m' => Fails (m.onLive e (.ok (m.value? e c).isSome, m)) r m'
  | .get e c, r, m' => Fails (m.withValue e c fun _ => m) r m'
  | .fetch e c, r, m' => Answers (m.withValue e c fun _ => m) r m'
  | .get? e c, r, m' => Fails (m.onLive e (.ok (m.value? e c), m)) r m'
  | .update e c f, r, m' => Fails (m.withValue e c fun v => m.assign e c (some (f v))) r m'
  | .tryUpdate e c f, r, m' => Answers (m.withValue e c fun v => m.assign e c (some (f v))) r m'
  | .update? e c f, r, m' =>
    Fails (m.onLive e (.ok (m.value? e c), m.assign e c ((m.value? e c).map f))) r m'
  | .detach e c, r, m' => Fails (m.withValue e c fun _ => m.assign e c none) r m'
  | .tryDetach e c, r, m' => Answers (m.withValue e c fun _ => m.assign e c none) r m'
  | .detach? e c, r, m' => Fails (m.onLive e (.ok (m.value? e c), m.assign e c none)) r m'
  | .view c, r, m' => m.Lists c r ∧ m' = m
  | .updateAll c f, r, m' => m.Lists c r ∧ m' = m.revise c f

end Contents

/-! ## Simulation -/

namespace Call

open EntityStore.Action Store

variable {s : Store S}

/-- A call that settles for all contents does what the abstract store does. -/
theorem allowed_of_settles {k : Call S} {r : Except Fault k.Answer} {m' : Contents S}
    (h : s.Sound) (hx : k.run.Settles s.contents r m') (ha : s.contents.Allows k r m') :
    (k.run.run s).Sound ∧
      s.contents.Allows k (k.run.run s).result (k.run.run s).state.contents := by
  obtain ⟨hr, hsound, hm'⟩ := hx s h rfl
  rw [hr, hm']
  exact ⟨hsound, ha⟩

/-- On a sound store every call does what the abstract store does, and leaves a sound store. -/
theorem allowed (k : Call S) (h : s.Sound) :
    (k.run.run s).Sound ∧
      s.contents.Allows k (k.run.run s).result (k.run.run s).state.contents := by
  cases k with
  | create =>
    rcases h.run_create with ⟨e, hr, hfresh, hsound, hm'⟩ | ⟨hr, hsound, hstate, hfull⟩
    · refine ⟨hsound, .inl ⟨e, hr, hfresh, ?_, hm'⟩⟩
      refine hsound.state.ne_null ?_
      rw [← live_contents, hm', Contents.live_issue_self]
    · exact ⟨hsound, .inr ⟨hr, congrArg contents hstate, hfull⟩⟩
  | destroy e => exact allowed_of_settles h settles_destroy ⟨rfl, rfl⟩
  | tryDestroy e => exact allowed_of_settles h settles_tryDestroy.attempt ⟨rfl, rfl⟩
  | attach e c v => exact allowed_of_settles h settles_attach ⟨rfl, rfl⟩
  | tryAttach e c v => exact allowed_of_settles h settles_tryAttach.attempt ⟨rfl, rfl⟩
  | attachOrReplace e c v => exact allowed_of_settles h settles_attachOrReplace ⟨rfl, rfl⟩
  | getOrAttach e c make => exact allowed_of_settles h settles_getOrAttach ⟨rfl, rfl⟩
  | has e c => exact allowed_of_settles h settles_has ⟨rfl, (Contents.onLive_self_snd _).symm⟩
  | get e c => exact allowed_of_settles h settles_get ⟨rfl, Contents.withValue_self_snd.symm⟩
  | fetch e c =>
    exact allowed_of_settles h settles_fetch.attempt ⟨rfl, Contents.withValue_self_snd.symm⟩
  | get? e c => exact allowed_of_settles h settles_get? ⟨rfl, (Contents.onLive_self_snd _).symm⟩
  | update e c f => exact allowed_of_settles h (settles_update f) ⟨rfl, rfl⟩
  | tryUpdate e c f => exact allowed_of_settles h (settles_tryUpdate f).attempt ⟨rfl, rfl⟩
  | update? e c f => exact allowed_of_settles h (settles_update? f) ⟨rfl, rfl⟩
  | detach e c => exact allowed_of_settles h settles_detach ⟨rfl, rfl⟩
  | tryDetach e c => exact allowed_of_settles h settles_tryDetach.attempt ⟨rfl, rfl⟩
  | detach? e c => exact allowed_of_settles h settles_detach? ⟨rfl, rfl⟩
  | view c =>
    exact ⟨⟨h, by simp [run]⟩, ⟨s.view c, rfl, h.nodup_view, fun e v => h.mem_view_iff⟩, rfl⟩
  | updateAll c f =>
    obtain ⟨hr, hsound, hm'⟩ := h.run_updateAll (ε := Fault) f
    exact ⟨hsound, ⟨s.view c, hr, h.nodup_view, fun e v => h.mem_view_iff⟩, hm'⟩

end Call

end EntityStore
