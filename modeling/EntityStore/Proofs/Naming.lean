import EntityStore.Proofs.Locality

/-!
# Stores that differ in the names of components

The catalog of a store calls each component by a name, which is its path until another one is set
(`Store.Named`).  Two stores *alias* each other (`Store.Alias`) if they are the same but for their
catalogs, and each catalog calls the components by names of its own.  The catalogs may also list
different components, as long as they list all those that have pools.

Failures are *renamed* (`Fault.Renamed`) if they are the same but for the names of some components.
Two actions are *parallel* (`Action.Parallel`) if, from stores that alias each other, they end in
renamed failures or related values, and leave stores that alias each other.  Questions are compared
in the same way (`Corresponds`).
-/

namespace EntityStore

variable {S : Schema}

/-! ## Names -/

/-- A name for each component. -/
abbrev Names (S : Schema) := Component S → String

/-- The names that are shown where none was set. -/
def Names.paths : Names S := fun c => (S.describe c).path

/-- The names of some components, in ascending order. -/
def Names.sorted (N : Names S) (cs : List (Component S)) : List String :=
  (cs.map N).mergeSort fun a b => decide (a ≤ b)

/-- The entry of a component that is called by a name. -/
def Names.info (N : Names S) (c : Component S) : Info := ⟨N c, S.describe c⟩

namespace Catalog

variable {g : Catalog S} {c d : Component S} {name : String}

/-- The name that is shown is the one of the entry, made now or before. -/
theorem nameOf_eq (g : Catalog S) (c : Component S) : g.nameOf c = (g.info c).name := by
  unfold nameOf info
  cases g.get? c <;> rfl

/-- An entry that is made lazily does not change what is shown. -/
theorem info_ensure (g : Catalog S) (c d : Component S) : (g.ensure c).info d = g.info d := by
  by_cases hcd : c = d
  · subst hcd
    rw [info, ensure, Table.get?_insertIfNew_self]
    rfl
  · rw [info, ensure, Table.get?_insertIfNew_of_ne g hcd, info]

/-- To name a component changes its name only. -/
theorem info_setName_self (g : Catalog S) (c : Component S) (name : String) :
    (g.setName c name).info c = { g.info c with name } := by
  rw [info, setName, Table.get?_modify_self, ensure, Table.get?_insertIfNew_self]
  rfl

/-- To name a component changes no other one. -/
theorem info_setName_of_ne (h : c ≠ d) : (g.setName c name).info d = g.info d := by
  rw [info, setName, Table.get?_modify_of_ne _ h, ← info, info_ensure]

theorem nodup_keys_ensure (h : g.keys.Nodup) (c : Component S) : (g.ensure c).keys.Nodup := by
  unfold ensure Table.insertIfNew
  split
  · exact h
  · next hc => exact Table.nodup_keys_insert h (by simpa using hc)

theorem nodup_keys_setName (h : g.keys.Nodup) (c : Component S) (name : String) :
    (g.setName c name).keys.Nodup := by
  rw [setName, Table.keys_modify]
  exact nodup_keys_ensure h c

end Catalog

namespace Store

variable {N N' : Names S} {s s' : Store S} {c : Component S}

/-- The catalog of a store calls each component by its name, and lists each component that has a
pool. -/
structure Named (s : Store S) (N : Names S) : Prop where
  /-- The catalog has one entry for a component. -/
  nodup : s.catalog.keys.Nodup
  /-- It shows the name with the description of the component. -/
  info : ∀ c, s.catalog.info c = N.info c
  /-- Every component that has a pool is listed. -/
  listed : ∀ c, s.pools.contains c = true → s.catalog.contains c = true

namespace Named

theorem empty : ({} : Store S).Named .paths where
  nodup := List.nodup_nil
  info _ := rfl
  listed := by simp [Table.contains]

/-- A store shows the names that it was given. -/
theorem nameOf (h : s.Named N) (c : Component S) : s.catalog.nameOf c = N c := by
  rw [Catalog.nameOf_eq, h.info]
  rfl

/-- An entry shows the name and the description of its component. -/
theorem eq_info (h : s.Named N) {i : Info} (hi : s.catalog.get? c = some i) : i = N.info c := by
  rw [← h.info, Catalog.info, hi]
  rfl

/-- A component that has a pool is listed under its name. -/
theorem get?_of_contains (h : s.Named N) (hc : s.pools.contains c = true) :
    s.catalog.get? c = some (N.info c) := by
  obtain ⟨i, hi⟩ := Table.contains_iff_exists.1 (h.listed c hc)
  rw [hi, h.eq_info hi]

/-- The list of names has the name of each component that is listed. -/
theorem names_eq (h : s.Named N) : s.catalog.names = N.sorted s.catalog.keys := by
  have hmap : (s.catalog.entries.map fun x => x.snd.name) = s.catalog.keys.map N := by
    rw [Table.keys, List.map_map]
    refine List.map_congr_left fun x hx => ?_
    exact congrArg Info.name (h.eq_info ((Table.mem_entries_iff h.nodup).1 hx))
  rw [Catalog.names, hmap, Names.sorted]

/-- A store that names a component has this name, and the others as before. -/
theorem setName (h : s.Named N) (c : Component S) (name : String) :
    ({ s with catalog := s.catalog.setName c name } : Store S).Named
      (Function.update N c name) where
  nodup := Catalog.nodup_keys_setName h.nodup c name
  info d := by
    by_cases hcd : c = d
    · subst hcd
      show (s.catalog.setName c name).info c = _
      rw [Catalog.info_setName_self, h.info]
      simp [Names.info]
    · show (s.catalog.setName c name).info d = _
      rw [Catalog.info_setName_of_ne hcd, h.info]
      simp [Names.info, Function.update_of_ne (Ne.symm hcd)]
  listed d hd := contains_setName (h.listed d hd)

theorem withPool (h : s.Named N) (c : Component S) : (s.withPool c).Named N where
  nodup := Catalog.nodup_keys_ensure h.nodup c
  info d := (Catalog.info_ensure s.catalog c d).trans (h.info d)
  listed d hd := by
    by_cases hcd : c = d
    · subst hcd
      exact contains_ensure_self s.catalog
    · refine contains_ensure_of_contains (h.listed d ?_)
      rwa [Table.contains, ← pool?, ← pool?_withPool_of_ne hcd]

/-- A write that leaves the catalog alone and makes no pool. -/
theorem of_catalog (h : s.Named N) (hcatalog : s'.catalog = s.catalog)
    (hpools : ∀ c, s'.pools.contains c = true → s.pools.contains c = true) : s'.Named N where
  nodup := hcatalog ▸ h.nodup
  info c := hcatalog ▸ h.info c
  listed c hc := hcatalog ▸ h.listed c (hpools c hc)

end Named

/-- The store with another catalog. -/
def withCatalog (s : Store S) (g : Catalog S) : Store S := { s with catalog := g }

/-- Two stores are the same but for their catalogs, which call the components by names of their
own. -/
structure Alias (N N' : Names S) (s s' : Store S) : Prop where
  /-- The slots are the same. -/
  allocator : s.allocator = s'.allocator
  /-- The pools are the same, in the same order. -/
  pools : s.pools = s'.pools
  /-- The context is the same. -/
  context : s.context = s'.context
  /-- The names of the first store. -/
  named : s.Named N
  /-- The names of the second store. -/
  named' : s'.Named N'

namespace Alias

theorem empty : Alias .paths .paths ({} : Store S) {} := ⟨rfl, rfl, rfl, .empty, .empty⟩

/-- Stores that differ in names differ in the catalog only. -/
theorem eq_withCatalog (h : Alias N N' s s') : s' = s.withCatalog s'.catalog := by
  obtain ⟨a, p, g, x⟩ := s
  obtain ⟨a', p', g', x'⟩ := s'
  obtain ⟨rfl, rfl, rfl, -, -⟩ := h
  rfl

/-- What does not depend on the catalog is the same. -/
theorem same (h : Alias N N' s s') {α : Type} {q : Store S → α}
    (hq : ∀ (s : Store S) (g : Catalog S), q (s.withCatalog g) = q s) : q s = q s' := by
  rw [h.eq_withCatalog, hq]

/-- A write that goes with any catalog leaves the catalog alone. -/
theorem catalog_eq_of_write {w : Store S → Store S}
    (hw : ∀ (s : Store S) (g : Catalog S), w (s.withCatalog g) = (w s).withCatalog g)
    (s : Store S) : (w s).catalog = s.catalog := by
  have hself : w s = (w s).withCatalog s.catalog := hw s s.catalog
  rw [hself]
  rfl

/-- The same write to both stores, which leaves the catalog alone and makes no pool. -/
theorem write (h : Alias N N' s s') {w : Store S → Store S}
    (hw : ∀ (s : Store S) (g : Catalog S), w (s.withCatalog g) = (w s).withCatalog g)
    (hpools : ∀ s c, (w s).pools.contains c = true → s.pools.contains c = true) :
    Alias N N' (w s) (w s') where
  allocator := h.same (q := fun s => (w s).allocator) fun s g => by rw [hw]; rfl
  pools := h.same (q := fun s => (w s).pools) fun s g => by rw [hw]; rfl
  context := h.same (q := fun s => (w s).context) fun s g => by rw [hw]; rfl
  named := h.named.of_catalog (catalog_eq_of_write hw s) (hpools s)
  named' := h.named'.of_catalog (catalog_eq_of_write hw s') (hpools s')

theorem withPool (h : Alias N N' s s') (c : Component S) :
    Alias N N' (s.withPool c) (s'.withPool c) where
  allocator := h.allocator
  pools := congrArg (·.insert c {}) h.pools
  context := h.context
  named := h.named.withPool c
  named' := h.named'.withPool c

end Alias

end Store

/-! ## Failures up to names -/

/-- Refusals that are the same but for the names of some components. -/
inductive StoreError.Renamed (K : Component S → Prop) (N N' : Names S) :
    StoreError → StoreError → Prop where
  /-- The entity is not live. -/
  | stale (e : Entity) : Renamed K N N' (.stale e) (.stale e)
  /-- The entity lacks the same component. -/
  | missing (e : Entity) {c : Component S} (hc : K c) :
      Renamed K N N' (.missing e (N c)) (.missing e (N' c))
  /-- The entity has the same component already. -/
  | duplicate (e : Entity) {c : Component S} (hc : K c) :
      Renamed K N N' (.duplicate e (N c)) (.duplicate e (N' c))
  /-- The entity has the same components that are not allowed. -/
  | unexpected (e : Entity) {cs : List (Component S)} (hcs : ∀ c ∈ cs, K c) :
      Renamed K N N' (.unexpected e (N.sorted cs)) (.unexpected e (N'.sorted cs))
  /-- The context has no variable of the same type. -/
  | missingContext (path : String) : Renamed K N N' (.missingContext path) (.missingContext path)

/-- The failure is none of a checked operation, and so shows no name. -/
def Fault.Plain : Fault → Prop
  | .refused _ => False
  | _ => True

/-- Failures that are the same but for the names of some components. -/
inductive Fault.Renamed (K : Component S → Prop) (N N' : Names S) : Fault → Fault → Prop where
  /-- The refusals are the same but for names. -/
  | refused {err err' : StoreError} (h : err.Renamed K N N' err') :
      Renamed K N N' (.refused err) (.refused err')
  /-- The failure shows no name. -/
  | plain {f : Fault} (h : f.Plain) : Renamed K N N' f f

/-! ## Results up to names -/

section Corresponds

variable {ε ε' φ φ' α α' β β' : Type}

/-- Both results are failures, or both are values, and they are related. -/
inductive Corresponds (E : ε → ε' → Prop) (R : α → α' → Prop) :
    Except ε α → Except ε' α' → Prop where
  /-- The values are related. -/
  | ok {a : α} {a' : α'} (h : R a a') : Corresponds E R (.ok a) (.ok a')
  /-- The failures are related. -/
  | error {e : ε} {e' : ε'} (h : E e e') : Corresponds E R (.error e) (.error e')

namespace Corresponds

variable {E : ε → ε' → Prop} {D : φ → φ' → Prop} {R : α → α' → Prop} {Q : β → β' → Prop}
  {r : Except ε α} {r' : Except ε' α'}

theorem imp {E₂ : ε → ε' → Prop} {R₂ : α → α' → Prop} (h : Corresponds E R r r')
    (hE : ∀ e e', E e e' → E₂ e e') (hR : ∀ a a', R a a' → R₂ a a') : Corresponds E₂ R₂ r r' := by
  cases h with
  | ok h => exact .ok (hR _ _ h)
  | error h => exact .error (hE _ _ h)

theorem bind (h : Corresponds E R r r') {f : α → Except ε β} {f' : α' → Except ε' β'}
    (hf : ∀ a a', R a a' → Corresponds E Q (f a) (f' a')) :
    Corresponds E Q (r >>= f) (r' >>= f') := by
  cases h with
  | ok h => exact hf _ _ h
  | error h => exact .error h

/-- Two computations go on from the same value. -/
theorem seq {r' : Except ε' α} (h : Corresponds E Eq r r') {f : α → Except ε β}
    {f' : α → Except ε' β'} (hf : ∀ a, Corresponds E Q (f a) (f' a)) :
    Corresponds E Q (r >>= f) (r' >>= f') :=
  h.bind fun a _ haa => haa ▸ hf a

theorem map (h : Corresponds E R r r') {g : α → β} {g' : α' → β'}
    (hg : ∀ a a', R a a' → Q (g a) (g' a')) : Corresponds E Q (r.map g) (r'.map g') := by
  cases h with
  | ok h => exact .ok (hg _ _ h)
  | error h => exact .error h

theorem mapError (h : Corresponds E R r r') {g : ε → φ} {g' : ε' → φ'}
    (hg : ∀ e e', E e e' → D (g e) (g' e')) :
    Corresponds D R (r.mapError g) (r'.mapError g') := by
  cases h with
  | ok h => exact .ok h
  | error h => exact .error (hg _ _ h)

end Corresponds

end Corresponds

/-! ## Actions up to names -/

namespace Action

variable {ε ε' φ φ' α α' β β' : Type} {N N' : Names S}

/-- On stores that alias each other, the actions end in related failures or values, and leave stores
that alias each other. -/
def Parallel (N N' : Names S) (E : ε → ε' → Prop) (R : α → α' → Prop) (x : Action (Store S) ε α)
    (x' : Action (Store S) ε' α') : Prop :=
  ∀ s s' : Store S, Store.Alias N N' s s' →
    Corresponds E R (x.run s).result (x'.run s').result ∧
      Store.Alias N N' (x.run s).state (x'.run s').state

variable {E : ε → ε' → Prop} {D : φ → φ' → Prop} {R : α → α' → Prop} {Q : β → β' → Prop}
  {x : Action (Store S) ε α} {x' : Action (Store S) ε' α'}

theorem Parallel.imp {E₂ : ε → ε' → Prop} {R₂ : α → α' → Prop} (hx : Parallel N N' E R x x')
    (hE : ∀ e e', E e e' → E₂ e e') (hR : ∀ a a', R a a' → R₂ a a') :
    Parallel N N' E₂ R₂ x x' :=
  fun s s' h => ⟨(hx s s' h).1.imp hE hR, (hx s s' h).2⟩

/-- Two actions run alike if their parts do. -/
theorem Parallel.bind {f : α → Action (Store S) ε β} {f' : α' → Action (Store S) ε' β'}
    (hx : Parallel N N' E R x x') (hf : ∀ a a', R a a' → Parallel N N' E Q (f a) (f' a')) :
    Parallel N N' E Q (x >>= f) (x' >>= f') := by
  intro s s' h
  obtain ⟨hresult, hstate⟩ := hx s s' h
  generalize hr : (x.run s).result = r at hresult
  generalize hr' : (x'.run s').result = r' at hresult
  cases hresult with
  | ok haa =>
    rw [(run_bind_of_ok f hr).1, (run_bind_of_ok f hr).2, (run_bind_of_ok f' hr').1,
      (run_bind_of_ok f' hr').2]
    exact hf _ _ haa _ _ hstate
  | error hee =>
    rw [(run_bind_of_error f hr).1, (run_bind_of_error f hr).2, (run_bind_of_error f' hr').1,
      (run_bind_of_error f' hr').2]
    exact ⟨.error hee, hstate⟩

/-- Two actions go on from the same value. -/
theorem Parallel.seq {x' : Action (Store S) ε' α} {f : α → Action (Store S) ε β}
    {f' : α → Action (Store S) ε' β'} (hx : Parallel N N' E Eq x x')
    (hf : ∀ a, Parallel N N' E Q (f a) (f' a)) : Parallel N N' E Q (x >>= f) (x' >>= f') :=
  hx.bind fun a _ haa => haa ▸ hf a

theorem Parallel.mapError {g : ε → φ} {g' : ε' → φ'} (hx : Parallel N N' E R x x')
    (hg : ∀ e e', E e e' → D (g e) (g' e')) :
    Parallel N N' D R (x.mapError g) (x'.mapError g') :=
  fun s s' h => ⟨(hx s s' h).1.mapError hg, (hx s s' h).2⟩

theorem Parallel.attempt (hx : Parallel N N' E R x x') :
    Parallel N N' D (Corresponds E R) (x.attempt : Action (Store S) φ (Except ε α))
      (x'.attempt : Action (Store S) φ' (Except ε' α')) :=
  fun s s' h => ⟨.ok (hx s s' h).1, (hx s s' h).2⟩

theorem parallel_pure {a : α} {a' : α'} (h : R a a') :
    Parallel N N' E R (pure a : Action (Store S) ε α) (pure a' : Action (Store S) ε' α') :=
  fun _ _ hs => ⟨.ok h, hs⟩

theorem parallel_fail {e : ε} {e' : ε'} (h : E e e') :
    Parallel N N' E R (fail e : Action (Store S) ε α) (fail e' : Action (Store S) ε' α') :=
  fun _ _ hs => ⟨.error h, hs⟩

theorem parallel_state :
    Parallel N N' E (Store.Alias N N') (state : Action (Store S) ε (Store S))
      (state : Action (Store S) ε' (Store S)) :=
  fun _ _ h => ⟨.ok h, h⟩

theorem parallel_query {q : Store S → Except ε α} {q' : Store S → Except ε' α'}
    (hq : ∀ s s', Store.Alias N N' s s' → Corresponds E R (q s) (q' s')) :
    Parallel N N' E R (query q) (query q') :=
  fun s s' h => ⟨hq s s' h, h⟩

theorem parallel_require {b b' : Bool} {e : ε} {e' : ε'} (hb : b = b') (he : E e e') :
    Parallel N N' E Eq (require b e : Action (Store S) ε Unit)
      (require b' e' : Action (Store S) ε' Unit) := by
  subst hb
  cases b with
  | true => exact parallel_pure rfl
  | false => exact parallel_fail he

theorem parallel_report (r r' : Report) :
    Parallel N N' E Eq (report r : Action (Store S) ε Unit)
      (report r' : Action (Store S) ε' Unit) :=
  fun _ _ h => ⟨.ok rfl, h⟩

theorem parallel_reportAll (rs rs' : List Report) :
    Parallel N N' E Eq (reportAll rs : Action (Store S) ε Unit)
      (reportAll rs' : Action (Store S) ε' Unit) :=
  fun _ _ h => ⟨.ok rfl, h⟩

/-- The same write on both sides. -/
theorem parallel_modify {w : Store S → Store S}
    (hw : ∀ (s : Store S) (g : Catalog S), w (s.withCatalog g) = (w s).withCatalog g)
    (hpools : ∀ s c, (w s).pools.contains c = true → s.pools.contains c = true) :
    Parallel N N' E Eq (modify w : Action (Store S) ε Unit)
      (modify w : Action (Store S) ε' Unit) :=
  fun _ _ h => ⟨.ok rfl, h.write hw hpools⟩

/-- The same answer and the same write on both sides. -/
theorem parallel_modifyGet {w : Store S → α × Store S}
    (ha : ∀ (s : Store S) (g : Catalog S), (w (s.withCatalog g)).1 = (w s).1)
    (hw : ∀ (s : Store S) (g : Catalog S), (w (s.withCatalog g)).2 = (w s).2.withCatalog g)
    (hpools : ∀ s c, (w s).2.pools.contains c = true → s.pools.contains c = true) :
    Parallel N N' E Eq (modifyGet w : Action (Store S) ε α)
      (modifyGet w : Action (Store S) ε' α) :=
  fun _ _ h => ⟨.ok (h.same (q := fun s => (w s).1) ha), h.write (w := fun s => (w s).2) hw hpools⟩

/-- The action shows names in its failures only, and only those of some components. -/
def Nameless (K : Component S → Prop) (x : Action (Store S) Fault α) : Prop :=
  ∀ N N' : Names S, Parallel N N' (Fault.Renamed K N N') Eq x x

section Nameless

variable {K : Component S → Prop} {y : Action (Store S) Fault α} {f : α → Action (Store S) Fault β}

/-- An action does not depend on names if its parts do not. -/
theorem Nameless.bind (hy : Nameless K y) (hf : ∀ a, Nameless K (f a)) : Nameless K (y >>= f) :=
  fun N N' => (hy N N').seq fun a => hf a N N'

theorem nameless_pure (a : α) : Nameless K (pure a : Action (Store S) Fault α) :=
  fun _ _ => parallel_pure rfl

/-- A question does not depend on names if its answers correspond. -/
theorem nameless_query {q : Store S → Except Fault α}
    (hq : ∀ N N' s s', Store.Alias N N' s s' → Corresponds (Fault.Renamed K N N') Eq (q s) (q s')) :
    Nameless K (query q) :=
  fun N N' => parallel_query fun s s' h => hq N N' s s' h

/-- A condition may come first whose failure shows no name. -/
theorem nameless_require {b : Bool} {g : Fault} {f : Unit → Action (Store S) Fault β}
    (hg : g.Plain) (hf : Nameless K (f ())) : Nameless K (require b g >>= f) :=
  Nameless.bind (fun _ _ => parallel_require rfl (.plain hg)) fun _ => hf

/-- What an action looks at first is the same on both sides. -/
theorem nameless_state_bind {g : Store S → Action (Store S) Fault β}
    (hsame : ∀ (s : Store S) (k : Catalog S), g (s.withCatalog k) = g s)
    (hg : ∀ s, Nameless K (g s)) : Nameless K (Action.state >>= g) := by
  intro N N'
  refine parallel_state.bind fun s s' h => ?_
  rw [h.same hsame]
  exact hg s' N N'

end Nameless

end Action

end EntityStore
