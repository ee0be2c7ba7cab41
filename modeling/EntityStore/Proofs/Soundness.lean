import EntityStore.Proofs.Contents
import EntityStore.Proofs.Keys
import EntityStore.Proofs.Packing
import EntityStore.Proofs.Slots

/-!
# Sound stores

A store is *sound* when its allocator and its pools are coherent, every owner in a pool is live,
and every component that has a pool is in the catalog.  A pool then holds at most one entry for an
index, and that entry belongs to the live handle of the index.  So an attachment to a live handle
puts out no other owner (`Sound.evictee?_eq_none`), and a handle that is not live has no values
(`Sound.lookup?_eq_none`).

Every write to a sound store leaves a sound store and changes its contents in one place.  There are
four kinds: a new pool, an edit of one pool, an issue and a release.
-/

namespace EntityStore

variable {S : Schema}

namespace Store

variable {s : Store S} {e x : Entity} {c d : Component S}

/-- The parts of a store agree. -/
structure Sound (s : Store S) : Prop where
  /-- The slots agree with the queue. -/
  slots : s.allocator.Coherent
  /-- There is one pool for a component. -/
  pool_keys : s.pools.keys.Nodup
  /-- The pools are coherent. -/
  packed : ∀ c p, s.pool? c = some p → p.Coherent
  /-- Every owner is live. -/
  owner_valid : ∀ c p, s.pool? c = some p → ∀ x ∈ p.entities, s.valid x = true
  /-- Every component that has a pool is in the catalog. -/
  listed : ∀ c, s.pools.contains c = true → s.catalog.contains c = true

/-- The empty store is sound. -/
theorem sound_empty : ({} : Store S).Sound where
  slots := Allocator.coherent_empty
  pool_keys := List.nodup_nil
  packed := by simp [pool?]
  owner_valid := by simp [pool?]
  listed := by simp [Table.contains]

/-! ## What soundness gives -/

theorem lookup?_of_pool? {p : Pool c.Value} (hp : s.pool? c = some p) :
    s.lookup? e c = p.get? e := by
  simp [lookup?, hp]

theorem lookup?_of_pool?_eq_none (hp : s.pool? c = none) : s.lookup? e c = none := by
  simp [lookup?, hp]

/-- An entity carries a component exactly if it has a value of it. -/
theorem Sound.carries_eq (h : s.Sound) : s.carries e c = (s.lookup? e c).isSome := by
  cases hp : s.pool? c with
  | none => simp [carries, lookup?, hp]
  | some p =>
    rw [lookup?_of_pool? hp, (h.packed c p hp).isSome_get?, carries, hp, Option.any_some]

/-- An entity with a value is live. -/
theorem Sound.valid_of_lookup? (h : s.Sound) {v : c.Value} (hv : s.lookup? e c = some v) :
    s.valid e = true := by
  cases hp : s.pool? c with
  | none => simp [lookup?, hp] at hv
  | some p =>
    rw [lookup?_of_pool? hp] at hv
    refine h.owner_valid c p hp e ?_
    rw [(h.packed c p hp).mem_entities_iff_isSome, hv, Option.isSome_some]

/-- A handle that is not live has no values. -/
theorem Sound.lookup?_eq_none (h : s.Sound) (he : s.valid e = false) : s.lookup? e c = none := by
  cases hv : s.lookup? e c with
  | none => rfl
  | some v =>
    have := h.valid_of_lookup? hv
    simp [he] at this

/-- Two live entities do not share a slot. -/
theorem eq_of_valid (he : s.valid e = true) (hx : s.valid x = true) (hi : e.index = x.index) :
    e = x :=
  Allocator.eq_of_isAlive he hx hi

theorem Sound.ne_null (h : s.Sound) (he : s.valid e = true) : e ≠ .null := h.slots.ne_null he

/-- The null handle is not live. -/
theorem Sound.valid_null (h : s.Sound) : s.valid .null = false := by
  rw [Bool.eq_false_iff]
  intro hn
  exact h.ne_null hn rfl

/-- Distinct live handles are no more than the slots. -/
theorem length_le_slotCount {es : List Entity} (hn : es.Nodup)
    (hv : ∀ e ∈ es, s.valid e = true) : es.length ≤ s.slotCount :=
  Allocator.length_le_slotCount hn hv

theorem Sound.slotCount_le (h : s.Sound) : s.slotCount ≤ Allocator.slotLimit :=
  h.slots.slotCount_le

/-- An attachment to a live handle puts out no other owner. -/
theorem Sound.evictee?_eq_none (h : s.Sound) {p : Pool c.Value} (hp : s.pool? c = some p)
    (he : s.valid e = true) : p.evictee? e = none := by
  rw [Option.eq_none_iff_forall_ne_some]
  intro o ho
  obtain ⟨hmem, hi, hne⟩ := (h.packed c p hp).evictee?_eq_some_iff.1 ho
  exact hne (eq_of_valid (h.owner_valid c p hp o hmem) he hi)

/-! ## A new pool -/

/-- An entry that is made lazily has the name that was shown before. -/
theorem nameOf_ensure (g : Catalog S) : (g.ensure c).nameOf d = g.nameOf d := by
  by_cases hcd : c = d
  · subst hcd
    rw [Catalog.nameOf, Catalog.nameOf, Catalog.ensure, Table.get?_insertIfNew_self]
    cases g.get? c <;> rfl
  · rw [Catalog.nameOf, Catalog.nameOf, Catalog.ensure, Table.get?_insertIfNew_of_ne g hcd]

theorem contains_ensure_self (g : Catalog S) : (g.ensure c).contains c = true := by
  rw [Table.contains_iff_exists]
  exact ⟨_, Table.get?_insertIfNew_self g c _⟩

theorem contains_ensure_of_contains {g : Catalog S} (h : g.contains d = true) :
    (g.ensure c).contains d = true := by
  by_cases hcd : c = d
  · subst hcd
    exact contains_ensure_self g
  · rw [Table.contains, Catalog.ensure, Table.get?_insertIfNew_of_ne g hcd]
    exact h

theorem pool?_withPool_self : (s.withPool c).pool? c = some {} :=
  Table.get?_insert_self s.pools c {}

theorem pool?_withPool_of_ne (h : c ≠ d) : (s.withPool c).pool? d = s.pool? d :=
  Table.get?_insert_of_ne s.pools h {}

/-- A new pool may be made where there was none. -/
theorem Sound.withPool (h : s.Sound) (hc : s.pools.contains c = false) :
    (s.withPool c).Sound where
  slots := h.slots
  pool_keys := Table.nodup_keys_insert h.pool_keys hc
  packed d p hp := by
    by_cases hcd : c = d
    · subst hcd
      rw [pool?_withPool_self, Option.some.injEq] at hp
      exact hp ▸ Pool.coherent_empty
    · exact h.packed d p (pool?_withPool_of_ne hcd ▸ hp)
  owner_valid d p hp x hx := by
    by_cases hcd : c = d
    · subst hcd
      rw [pool?_withPool_self, Option.some.injEq] at hp
      rw [← hp] at hx
      simp [Pool.entities] at hx
    · exact h.owner_valid d p (pool?_withPool_of_ne hcd ▸ hp) x hx
  listed d hd := by
    by_cases hcd : c = d
    · subst hcd
      exact contains_ensure_self s.catalog
    · refine contains_ensure_of_contains (h.listed d ?_)
      rwa [Table.contains, ← pool?, ← pool?_withPool_of_ne hcd]

/-- A new pool changes no contents. -/
theorem contents_withPool (hc : s.pools.contains c = false) :
    (s.withPool c).contents = s.contents := by
  have hnone : s.pool? c = none := Table.contains_eq_false_iff.1 hc
  have hlookup : (s.withPool c).lookup? = s.lookup? := by
    funext x d
    by_cases hcd : c = d
    · subst hcd
      rw [lookup?_of_pool? pool?_withPool_self, lookup?_of_pool?_eq_none hnone]
      rfl
    · rw [lookup?, pool?_withPool_of_ne hcd]
      rfl
  ext1
  · rfl
  · exact hlookup
  · funext d
    exact nameOf_ensure s.catalog

/-! ## Edits of a pool -/

/-- The store with one of its pools edited. -/
def editPool (s : Store S) (c : Component S) (g : Pool c.Value → Pool c.Value) : Store S :=
  { s with pools := s.pools.modify c g }

variable {g : Pool c.Value → Pool c.Value}

theorem pool?_editPool_self : (s.editPool c g).pool? c = (s.pool? c).map g :=
  Table.get?_modify_self s.pools c g

theorem pool?_editPool_of_ne (h : c ≠ d) : (s.editPool c g).pool? d = s.pool? d :=
  Table.get?_modify_of_ne s.pools h g

/-- An edit that keeps a pool coherent and its owners live keeps the store sound. -/
theorem Sound.editPool (h : s.Sound)
    (hg : ∀ p, s.pool? c = some p → (g p).Coherent ∧ ∀ x ∈ (g p).entities, s.valid x = true) :
    (s.editPool c g).Sound where
  slots := h.slots
  pool_keys := (Table.keys_modify (t := s.pools) g).symm ▸ h.pool_keys
  packed d p hp := by
    by_cases hcd : c = d
    · subst hcd
      rw [pool?_editPool_self] at hp
      obtain ⟨q, hq, rfl⟩ := Option.map_eq_some_iff.1 hp
      exact (hg q hq).1
    · exact h.packed d p (pool?_editPool_of_ne hcd ▸ hp)
  owner_valid d p hp := by
    by_cases hcd : c = d
    · subst hcd
      rw [pool?_editPool_self] at hp
      obtain ⟨q, hq, rfl⟩ := Option.map_eq_some_iff.1 hp
      exact (hg q hq).2
    · exact h.owner_valid d p (pool?_editPool_of_ne hcd ▸ hp)
  listed d hd := h.listed d (Table.contains_modify (t := s.pools) g ▸ hd)

theorem contents_editPool_of_none (hp : s.pool? c = none) :
    (s.editPool c g).contents = s.contents := by
  have hpool : ∀ d, (s.editPool c g).pool? d = s.pool? d := by
    intro d
    by_cases hcd : c = d
    · subst hcd
      rw [pool?_editPool_self, hp, Option.map_none]
    · exact pool?_editPool_of_ne hcd
  ext1
  · rfl
  · funext x d
    exact congrArg (fun o => o.bind (·.get? x)) (hpool d)
  · rfl

/-- An edit of one entry of a pool is an assignment. -/
theorem contents_editPool {p : Pool c.Value} {o : Option c.Value} (hp : s.pool? c = some p)
    (hg : ∀ x, (g p).get? x = if x = e then o else p.get? x) :
    (s.editPool c g).contents = s.contents.assign e c o := by
  ext1
  · rfl
  · funext x d
    by_cases hcd : c = d
    · subst hcd
      have hedit : (s.editPool c g).lookup? x c = (g p).get? x :=
        lookup?_of_pool? (by rw [pool?_editPool_self, hp, Option.map_some])
      rw [value?_contents, hedit, hg]
      split
      · next hx => rw [hx, Contents.value?_assign_self]
      · next hx =>
        rw [Contents.value?_assign_of_ne_entity hx, value?_contents, lookup?_of_pool? hp]
    · rw [Contents.value?_assign_of_ne (Ne.symm hcd), value?_contents, value?_contents, lookup?,
        pool?_editPool_of_ne hcd]
      rfl
  · rfl

/-- A pool of a live entity's component takes a new value as its only change. -/
theorem Sound.get?_insert (h : s.Sound) {p : Pool c.Value} (hp : s.pool? c = some p)
    (he : s.valid e = true) (v : c.Value) :
    (p.insert e v).get? x = if x = e then some v else p.get? x := by
  have hcoh := h.packed c p hp
  split
  · next hx => rw [hx, hcoh.get?_insert_self]
  · next hx =>
    by_cases hi : x.index = e.index
    · have hdead : s.valid x = false := by
        rw [Bool.eq_false_iff]
        intro hv
        exact hx (eq_of_valid hv he hi)
      rw [hcoh.get?_insert_of_index_eq hx hi, ← lookup?_of_pool? hp, h.lookup?_eq_none hdead]
    · exact hcoh.get?_insert_of_index_ne hi

/-- A live entity may get a value. -/
theorem Sound.editPool_insert (h : s.Sound) (he : s.valid e = true) (v : c.Value) :
    (s.editPool c (·.insert e v)).Sound := by
  refine h.editPool fun p hp => ⟨(h.packed c p hp).insert e v, fun x hx => ?_⟩
  rw [((h.packed c p hp).insert e v).mem_entities_iff_isSome, h.get?_insert hp he] at hx
  split at hx
  · next hxe => exact hxe ▸ he
  · exact h.owner_valid c p hp x ((h.packed c p hp).mem_entities_iff_isSome.2 hx)

/-- A value that was stored is what its entity has. -/
theorem Sound.contents_editPool_insert (h : s.Sound) (hc : s.pools.contains c = true)
    (he : s.valid e = true) (v : c.Value) :
    (s.editPool c (·.insert e v)).contents = s.contents.assign e c (some v) := by
  obtain ⟨p, hp⟩ := Table.contains_iff_exists.1 hc
  exact contents_editPool hp fun x => h.get?_insert hp he v

/-- A value may be changed. -/
theorem Sound.editPool_modify (h : s.Sound) (f : c.Value → c.Value) :
    (s.editPool c (·.modify e f)).Sound :=
  h.editPool fun p hp => ⟨(h.packed c p hp).modify e f, fun x hx =>
    h.owner_valid c p hp x (Pool.entities_modify (p := p) (e := e) f ▸ hx)⟩

/-- A value that was changed is what its entity has. -/
theorem Sound.contents_editPool_modify (h : s.Sound) (f : c.Value → c.Value) :
    (s.editPool c (·.modify e f)).contents = s.contents.assign e c ((s.lookup? e c).map f) := by
  cases hp : s.pool? c with
  | none =>
    rw [contents_editPool_of_none hp, lookup?_of_pool?_eq_none hp, Option.map_none,
      Contents.assign_eq_self (lookup?_of_pool?_eq_none hp)]
  | some p =>
    rw [lookup?_of_pool? hp]
    exact contents_editPool hp fun x => (h.packed c p hp).get?_modify f

/-- A value may be taken out. -/
theorem Sound.editPool_erase (h : s.Sound) : (s.editPool c (·.erase e)).Sound := by
  refine h.editPool fun p hp => ⟨(h.packed c p hp).erase e, fun x hx => ?_⟩
  rw [((h.packed c p hp).erase e).mem_entities_iff_isSome, (h.packed c p hp).get?_erase] at hx
  split at hx
  · simp at hx
  · exact h.owner_valid c p hp x ((h.packed c p hp).mem_entities_iff_isSome.2 hx)

/-- An entity does not have what was taken out. -/
theorem Sound.contents_editPool_erase (h : s.Sound) :
    (s.editPool c (·.erase e)).contents = s.contents.assign e c none := by
  cases hp : s.pool? c with
  | none =>
    rw [contents_editPool_of_none hp, Contents.assign_eq_self (lookup?_of_pool?_eq_none hp)]
  | some p => exact contents_editPool hp fun x => (h.packed c p hp).get?_erase

theorem Sound.editPool_mapValues (h : s.Sound) (f : Entity → c.Value → c.Value) :
    (s.editPool c (·.mapValues f)).Sound :=
  h.editPool fun p hp => ⟨(h.packed c p hp).mapValues f, h.owner_valid c p hp⟩

theorem Sound.contents_editPool_mapValues (h : s.Sound) (f : Entity → c.Value → c.Value) :
    (s.editPool c (·.mapValues f)).contents = s.contents.revise c f := by
  ext1
  · rfl
  · funext x d
    by_cases hcd : c = d
    · subst hcd
      rw [Contents.value?_revise_self, value?_contents, value?_contents]
      cases hp : s.pool? c with
      | none =>
        rw [lookup?_of_pool?_eq_none hp, lookup?_of_pool?_eq_none, Option.map_none]
        rw [pool?_editPool_self, hp, Option.map_none]
      | some p =>
        rw [lookup?_of_pool? hp, ← (h.packed c p hp).get?_mapValues]
        exact lookup?_of_pool? (by rw [pool?_editPool_self, hp, Option.map_some])
    · rw [Contents.value?_revise_of_ne (Ne.symm hcd), value?_contents, value?_contents, lookup?,
        pool?_editPool_of_ne hcd]
      rfl
  · rfl

/-! ## Issue and release -/

/-- The allocator may change as long as all owners stay live. -/
theorem Sound.withAllocator (h : s.Sound) {a : Allocator} (ha : a.Coherent)
    (hv : ∀ c p, s.pool? c = some p → ∀ x ∈ p.entities, a.isAlive x = true) :
    ({ s with allocator := a } : Store S).Sound where
  slots := ha
  pool_keys := h.pool_keys
  packed := h.packed
  owner_valid := hv
  listed := h.listed

/-- An entity that is issued has no values. -/
theorem contents_withAllocator_of_issue {a : Allocator}
    (ha : ∀ x, a.isAlive x = true ↔ x = e ∨ s.valid x = true) :
    ({ s with allocator := a } : Store S).contents = s.contents.issue e := by
  ext1
  · funext x
    have hx := ha x
    change a.isAlive x = _
    by_cases hxe : x = e
    · rw [hxe] at hx ⊢
      rw [Contents.live_issue_self]
      exact hx.2 (.inl rfl)
    · rw [Contents.live_issue_of_ne hxe, Bool.eq_iff_iff, hx, live_contents]
      simp [hxe]
  · rfl
  · rfl

/-- The store without the components of an entity. -/
def strip (s : Store S) (e : Entity) : Store S :=
  { s with pools := s.pools.map fun _ p => p.erase e }

theorem pool?_strip : (s.strip e).pool? c = (s.pool? c).map (·.erase e) :=
  Table.get?_map s.pools (fun _ p => p.erase e) c

/-- A stripped entity has no values, and the others have theirs. -/
theorem Sound.lookup?_strip (h : s.Sound) :
    (s.strip e).lookup? x c = if x = e then none else s.lookup? x c := by
  cases hp : s.pool? c with
  | none =>
    rw [lookup?_of_pool?_eq_none hp, lookup?_of_pool?_eq_none (by rw [pool?_strip, hp]; rfl)]
    split <;> rfl
  | some p =>
    have hstrip : (s.strip e).pool? c = some (p.erase e) := by rw [pool?_strip, hp, Option.map_some]
    rw [lookup?_of_pool? hstrip, lookup?_of_pool? hp, (h.packed c p hp).get?_erase]

/-- An entity may be stripped of all its values. -/
theorem Sound.strip (h : s.Sound) : (s.strip e).Sound where
  slots := h.slots
  pool_keys := (Table.keys_map (t := s.pools) _).symm ▸ h.pool_keys
  packed c p hp := by
    rw [pool?_strip] at hp
    obtain ⟨q, hq, rfl⟩ := Option.map_eq_some_iff.1 hp
    exact (h.packed c q hq).erase e
  owner_valid c p hp x hx := by
    rw [pool?_strip] at hp
    obtain ⟨q, hq, rfl⟩ := Option.map_eq_some_iff.1 hp
    rw [((h.packed c q hq).erase e).mem_entities_iff_isSome, (h.packed c q hq).get?_erase] at hx
    split at hx
    · simp at hx
    · exact h.owner_valid c q hq x ((h.packed c q hq).mem_entities_iff_isSome.2 hx)
  listed c hc := by
    refine h.listed c ?_
    rw [Table.contains_iff_mem_keys] at hc ⊢
    exact (Table.keys_map (t := s.pools) _).symm ▸ hc

/-- Once its components are gone, the release of an entity leaves no owner that is not live. -/
theorem Sound.release (h : s.Sound) {a : Allocator} (hcoh : a.Coherent)
    (ha : ∀ x, a.isAlive x = true ↔ x ≠ e ∧ s.valid x = true) :
    ({ s.strip e with allocator := a } : Store S).Sound := by
  refine h.strip.withAllocator hcoh fun c p hp x hx => (ha x).2 ?_
  have hxs : (s.strip e).valid x = true := h.strip.owner_valid c p hp x hx
  refine ⟨?_, hxs⟩
  rintro rfl
  rw [(h.strip.packed c p hp).mem_entities_iff_isSome, ← lookup?_of_pool? hp,
    h.lookup?_strip, if_pos rfl] at hx
  simp at hx

/-- A released entity is not live and has no values. -/
theorem Sound.contents_release (h : s.Sound) {a : Allocator}
    (ha : ∀ x, a.isAlive x = true ↔ x ≠ e ∧ s.valid x = true) :
    ({ s.strip e with allocator := a } : Store S).contents = s.contents.release e := by
  ext1
  · funext x
    have hx := ha x
    change a.isAlive x = _
    by_cases hxe : x = e
    · rw [hxe] at hx ⊢
      rw [Contents.live_release_self, Bool.eq_false_iff]
      simp [hx]
    · rw [Contents.live_release_of_ne hxe, Bool.eq_iff_iff, hx, live_contents]
      simp [hxe]
  · funext x c
    change (s.strip e).lookup? x c = _
    rw [h.lookup?_strip]
    split
    · next hxe => rw [hxe, Contents.value?_release_self]
    · next hxe => rw [Contents.value?_release_of_ne hxe, value?_contents]
  · rfl

/-! ## The catalog and the context -/

theorem contains_setName {g : Catalog S} {name : String} (h : g.contains d = true) :
    (g.setName c name).contains d = true := by
  rw [Catalog.setName, Table.contains_modify]
  exact contains_ensure_of_contains h

/-- A component may be named. -/
theorem Sound.setName (h : s.Sound) (name : String) :
    ({ s with catalog := s.catalog.setName c name } : Store S).Sound where
  slots := h.slots
  pool_keys := h.pool_keys
  packed := h.packed
  owner_valid := h.owner_valid
  listed d hd := contains_setName (h.listed d hd)

/-- The variables do not matter for soundness. -/
theorem Sound.setContext (h : s.Sound) (v : Table (Component S) fun c => Variable c.Value) :
    ({ s with context := v } : Store S).Sound where
  slots := h.slots
  pool_keys := h.pool_keys
  packed := h.packed
  owner_valid := h.owner_valid
  listed := h.listed

end Store

end EntityStore
