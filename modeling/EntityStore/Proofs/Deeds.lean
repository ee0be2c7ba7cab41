import EntityStore.Proofs.Nameless

/-!
# Deeds

A *deed* (`Deed`) is one use of anything that a store offers but a walk: an operation, or a question
about entities, components, selections, hierarchies, the context or names.  Its arguments are
arbitrary, and it may fail.

On stores that are the same but for names, a deed ends alike (`Deed.endsAlike`): it fails on both
or on none, for the same reason, or with the same answer, up to the names that are shown.  These are
the names that the components have on either side, and a failure shows only names of components that
the deed is about.  The stores that are left are again the same but for names, which only a naming
changes (`Deed.naming`).
-/

namespace EntityStore

variable {S : Schema}

/-! ## Deeds -/

/-- A question that never fails and shows no name of a component. -/
inductive Sight (S : Schema) where
  /-- Whether an entity is live. -/
  | valid (e : Entity)
  /-- The number of live entities. -/
  | entityCount
  /-- The live entities. -/
  | entities
  /-- The owners of a component, if it has a pool, in the order of the pool. -/
  | owners (c : Component S)
  /-- The components that have pools, in the order of the pools. -/
  | pooled
  /-- Whether an entity passes a selector. -/
  | passes (sel : Selector S) (e : Entity)
  /-- The entities that pass a selector. -/
  | select (sel : Selector S)
  /-- One of the entities that pass a selector. -/
  | find? (sel : Selector S)
  /-- A context variable, if it was set. -/
  | contextValue? (c : Component S)
  /-- The name with which a context variable was set. -/
  | contextName? (c : Component S)
  /-- The context as text. -/
  | contextDebug
  /-- The store as text. -/
  | debug

namespace Sight

/-- What a question answers. -/
def Answer : Sight S → Type
  | valid _ | passes _ _ => Bool
  | entityCount => Nat
  | entities | select _ => List Entity
  | owners _ => Option (List Entity)
  | pooled => List (Component S)
  | find? _ => Option Entity
  | contextValue? c => Option c.Value
  | contextName? _ => Option String
  | contextDebug | debug => String

/-- The answer to a question. -/
def see (s : Store S) : (q : Sight S) → q.Answer
  | valid e => s.valid e
  | entityCount => s.entityCount
  | entities => s.entities
  | owners c => (s.pool? c).map (·.entities)
  | pooled => s.pools.keys
  | passes sel e => s.passes sel e
  | select sel => s.select sel
  | find? sel => s.find? sel
  | contextValue? c => s.contextValue? c
  | contextName? c => s.contextName? c
  | contextDebug => s.contextDebug
  | debug => s.debug

end Sight

/-- Anything that can be done with a store but a walk. -/
inductive Deed (S : Schema) where
  /-- Use an operation, or ask a question that may fail. -/
  | use (u : Use S)
  /-- Ask about a hierarchy. -/
  | ask (t : S.Tag) (q : Question)
  /-- Ask a question that shows no name. -/
  | see (q : Sight S)
  /-- Ask for the name of a component. -/
  | nameOf (c : Component S)
  /-- Ask for the entry of a component. -/
  | info? (c : Component S)
  /-- Ask for the names of all components that are listed. -/
  | names

namespace Deed

/-- Name a component. -/
abbrev setName (c : Component S) (name : String) : Deed S := .use (.op (.setName c name))

/-- What a deed answers when it does not fail. -/
def Answer : Deed S → Type
  | use u => u.Answer
  | ask _ q => q.Answer
  | see q => q.Answer
  | nameOf _ => String
  | info? _ => Option Info
  | names => List String

/-- What a deed does. -/
def run : (k : Deed S) → Action (Store S) Fault k.Answer
  | use u => u.run
  | ask t q => Action.query fun s => q.ask s t
  | see q => Action.query fun s => .ok (q.see s)
  | nameOf c => Action.query fun s => .ok (s.catalog.nameOf c)
  | info? c => Action.query fun s => .ok (s.catalog.get? c)
  | names => Action.query fun s => .ok s.catalog.names

end Deed

/-! ## Answers up to names -/

/-- The components whose names a call may show when it fails. -/
def Call.About : Call S → Component S → Prop
  | .attach _ c _, d | .get _ c, d | .update _ c _, d | .detach _ c, d => c = d
  | _, _ => False

/-- The components whose names an operation may show when it fails. -/
def Op.About : Op S → Component S → Prop
  | .call k, d => k.About d
  | .clearFinished, d => .mark .finished = d
  | .prependChild t _ _, d | .removeChild t _ _, d | .detachChild t _, d
  | .clearSelection t _, d => OfTag t d
  | _, _ => False

/-- A closure that an operation runs to make a value fails. -/
def Op.Raises : Op S → Fault → Prop
  | .call (.getOrAttach _ _ make), f => make () = .error f
  | .getOrSetContext _ _ make, f => make () = .error f
  | _, _ => False

section Alike

variable (N N' : Names S)

/-- Two answers of a checked form are the same value, or refusals that are the same but for the
names of some components. -/
def Checked {α : Type} (K : Component S → Prop) :
    Except StoreError α → Except StoreError α → Prop :=
  Corresponds (StoreError.Renamed K N N') Eq

/-- The checked forms may show names when they refuse.  The other calls give the same answer. -/
def Call.Alike : (k : Call S) → k.Answer → k.Answer → Prop
  | .tryDestroy _, a, a' => Checked N N' (α := Unit) (fun _ => False) a a'
  | .tryAttach _ c _, a, a' => Checked N N' (α := c.Value) (c = ·) a a'
  | .fetch _ c, a, a' => Checked N N' (α := c.Value) (c = ·) a a'
  | .tryUpdate _ c _, a, a' => Checked N N' (α := c.Value) (c = ·) a a'
  | .tryDetach _ c, a, a' => Checked N N' (α := c.Value) (c = ·) a a'
  | _, a, a' => a = a'

/-- A whitelist check shows the names of the components that it does not allow. -/
def Op.Alike : (k : Op S) → k.Answer → k.Answer → Prop
  | .call k, a, a' => k.Alike N N' a a'
  | .checkWhitelist _ w, a, a' => Checked N N' (α := Unit) (fun c => w.allows c = false) a a'
  | _, a, a' => a = a'

/-- A visit reports the same components, each with its entry. -/
def Use.Alike : (u : Use S) → u.Answer → u.Answer → Prop
  | .op k, a, a' => k.Alike N N' a a'
  | .visit _, a, a' => Store.ListsAlike N N' a a'
  | _, a, a' => a = a'

/-- An entry, if there is one, shows the name of its component. -/
def Names.Shows (N : Names S) (c : Component S) (o : Option Info) : Prop := ∀ i ∈ o, i = N.info c

/-- A list has the names of some components, in ascending order. -/
def Names.Lists (N : Names S) (names : List String) : Prop :=
  ∃ cs : List (Component S), cs.Nodup ∧ names = N.sorted cs

/-- Answers to questions about names show the names of their own side.  Which components are listed
may differ. -/
def Deed.Alike : (k : Deed S) → k.Answer → k.Answer → Prop
  | .use u, a, a' => u.Alike N N' a a'
  | .nameOf c, a, a' => a = N c ∧ a' = N' c
  | .info? c, a, a' => N.Shows c a ∧ N'.Shows c a'
  | .names, a, a' => N.Lists a ∧ N'.Lists a'
  | _, a, a' => a = a'

/-- A deed fails for the same reason on two sides, up to the names of components that it is about,
or because the same closure fails.  A question that shows no failure does not fail. -/
def Deed.FailsAlike : Deed S → Fault → Fault → Prop
  | .use (.op k), f, f' => f.Renamed k.About N N' f' ∨ k.Raises f ∧ f = f'
  | .use _, f, f' => f.Renamed (fun _ => False) N N' f'
  | .ask t _, f, f' => f.Renamed (OfTag t) N N' f'
  | .see _, _, _ | .nameOf _, _, _ | .info? _, _, _ | .names, _, _ => False

/-- A deed ends alike on two sides: it fails alike, or its answers are alike. -/
def Deed.EndsAlike (k : Deed S) : Except Fault k.Answer → Except Fault k.Answer → Prop :=
  Corresponds (k.FailsAlike N N') (k.Alike N N')

end Alike

/-- The names after a deed. -/
def Deed.naming (N : Names S) : Deed S → Names S
  | .use (.op (.setName c name)) => Function.update N c name
  | _ => N

/-! ## Deeds on stores that alias each other -/

section Deeds

open EntityStore.Action

variable {N N' : Names S} {α : Type} {E : Fault → Fault → Prop} {K : Component S → Prop}

theorem Action.Nameless.parallel {x : Action (Store S) Fault α} (hx : Nameless K x)
    (hE : ∀ f f', Fault.Renamed K N N' f f' → E f f') : Parallel N N' E Eq x x :=
  (hx N N').imp hE fun _ _ => id

theorem Call.parallel (k : Call S) :
    Parallel N N' (fun f f' => f.Renamed k.About N N' f' ∨ (Op.call k).Raises f ∧ f = f')
      (k.Alike N N') k.run k.run := by
  cases k with
  | create => exact Store.nameless_create.parallel fun _ _ => .inl
  | destroy e => exact (Store.nameless_destroy e).parallel fun _ _ => .inl
  | tryDestroy e => exact (Store.parallel_tryDestroy e).attempt
  | attach e c v => exact (Store.nameless_attach rfl e v).parallel fun _ _ => .inl
  | tryAttach e c v => exact (Store.parallel_tryAttach rfl e v).attempt
  | attachOrReplace e c v => exact (Store.nameless_attachOrReplace e c v).parallel fun _ _ => .inl
  | getOrAttach e c make =>
    exact Store.parallel_getOrAttach e c (fun _ _ => .inl) fun f hf => .inr ⟨hf, rfl⟩
  | has e c => exact (nameless_query fun _ _ _ _ h => h.has e c).parallel fun _ _ => .inl
  | get e c => exact (nameless_query fun _ _ _ _ h => h.get rfl e).parallel fun _ _ => .inl
  | fetch e c => exact (parallel_query fun _ _ h => h.fetch rfl e).attempt
  | get? e c => exact (nameless_query fun _ _ _ _ h => h.get? e c).parallel fun _ _ => .inl
  | update e c f => exact (Store.nameless_update rfl e f).parallel fun _ _ => .inl
  | tryUpdate e c f => exact (Store.parallel_tryUpdate rfl e f).attempt
  | update? e c f => exact (Store.nameless_update? e c f).parallel fun _ _ => .inl
  | detach e c => exact (Store.nameless_detach rfl e).parallel fun _ _ => .inl
  | tryDetach e c => exact (Store.parallel_tryDetach rfl e).attempt
  | detach? e c => exact (Store.nameless_detach? e c).parallel fun _ _ => .inl
  | view c => exact parallel_query fun _ _ h => .ok (h.same (q := fun s => s.view c) fun _ _ => rfl)
  | updateAll c f => exact (Store.nameless_updateAll c f).parallel fun _ _ => .inl

theorem Op.parallel (k : Op S) (hk : ∀ c name, k ≠ .setName c name) :
    Parallel N N' (fun f f' => f.Renamed k.About N N' f' ∨ k.Raises f ∧ f = f')
      (k.Alike N N') k.run k.run := by
  cases k with
  | call k => exact k.parallel
  | setName c name => exact (hk c name rfl).elim
  | setContext c name v => exact Store.parallel_setContext c name v
  | updateContext? c f => exact Store.parallel_updateContext? c f
  | updateContext c f => exact (Store.nameless_updateContext c f).parallel fun _ _ => .inl
  | getOrSetContext c name make =>
    exact Store.parallel_getOrSetContext c name fun f hf => .inr ⟨hf, rfl⟩
  | removeContext c => exact Store.parallel_removeContext c
  | beginConstruction e => exact (Store.nameless_beginConstruction e).parallel fun _ _ => .inl
  | finishConstruction e => exact (Store.nameless_finishConstruction e).parallel fun _ _ => .inl
  | clearFinished => exact (Store.nameless_clearFinished rfl).parallel fun _ _ => .inl
  | checkWhitelist e w =>
    exact (Store.parallel_checkWhitelist e w).imp (fun _ _ => .inl) fun _ _ => id
  | prependChild t parent child =>
    exact (Store.nameless_prependChild t parent child).parallel fun _ _ => .inl
  | removeChild t parent child =>
    exact (Store.nameless_removeChild t parent child).parallel fun _ _ => .inl
  | detachChild t child => exact (Store.nameless_detachChild t child).parallel fun _ _ => .inl
  | clearSelection t sel => exact (Store.nameless_clearSelection t sel).parallel fun _ _ => .inl

theorem Store.Alias.see {s s' : Store S} (h : Alias N N' s s') (q : Sight S) :
    q.see s = q.see s' :=
  h.same (q := q.see) fun s g => by cases q <;> rfl

/-- A deed other than a naming. -/
theorem Deed.parallel (k : Deed S) (hk : ∀ c name, k ≠ .setName c name) :
    Parallel N N' (k.FailsAlike N N') (k.Alike N N') k.run k.run := by
  cases k with
  | use u =>
    cases u with
    | op k => exact k.parallel fun c name hc => hk c name (hc ▸ rfl)
    | isOrphan e => exact parallel_query fun _ _ h => h.isOrphan e
    | visit e => exact parallel_query fun _ _ h => h.visit e
    | contextValue c => exact parallel_query fun _ _ h => h.contextValue c
  | ask t q => exact parallel_query fun _ _ h => h.ask q
  | see q => exact parallel_query fun _ _ h => .ok (h.see q)
  | nameOf c => exact parallel_query fun _ _ h => .ok ⟨h.named.nameOf c, h.named'.nameOf c⟩
  | info? c =>
    exact parallel_query fun _ _ h =>
      .ok ⟨fun _ => h.named.eq_info, fun _ => h.named'.eq_info⟩
  | names =>
    exact parallel_query fun s s' h =>
      .ok ⟨⟨_, h.named.nodup, h.named.names_eq⟩, _, h.named'.nodup, h.named'.names_eq⟩

/-- Every deed ends alike on stores that alias each other, and leaves such stores. -/
theorem Deed.endsAlike (k : Deed S) {s s' : Store S} (h : Store.Alias N N' s s') :
    k.EndsAlike N N' (k.run.run s).result (k.run.run s').result ∧
      Store.Alias (k.naming N) (k.naming N') (k.run.run s).state (k.run.run s').state := by
  by_cases hk : ∃ c name, k = .setName c name
  · obtain ⟨c, name, rfl⟩ := hk
    exact ⟨.ok rfl, h.allocator, h.pools, h.context, h.named.setName c name,
      h.named'.setName c name⟩
  · -- No other deed changes a name.
    have hnaming (N : Names S) : k.naming N = N := by
      cases k with
      | use u =>
        cases u with
        | op k =>
          cases k with
          | setName c name => exact (hk ⟨c, name, rfl⟩).elim
          | _ => rfl
        | _ => rfl
      | _ => rfl
    rw [hnaming, hnaming]
    exact k.parallel (fun c name hc => hk ⟨c, name, hc⟩) s s' h

end Deeds

end EntityStore
