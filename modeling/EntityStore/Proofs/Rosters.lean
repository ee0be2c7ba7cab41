import EntityStore.Proofs.PoolRefinement
import EntityStore.Proofs.Refusals

/-!
# The order in pools

A pool keeps its owners in an order (`Store.roster`).  An attachment puts a new owner last, a change
moves none, and a detachment takes an owner out and puts the last one in its place.

An action that only attaches and changes goes in steps of `Store.Lays`, and every roster is a prefix
of what it becomes.  An action that only changes and detaches goes in steps of `Store.Lifts`, and
owners are struck one after the other.  If the owners that are left are those of a prefix, then they
are that prefix, in its order (`eq_of_strikes`): whatever was put last was struck, and nothing
before it moved.
-/

namespace EntityStore

open Relation

/-! ## Striking elements of a list -/

section Strikes

variable {α : Type} {l l' l₀ r : List α} {a x : α}

/-- An element is taken out of a list.  Those before it stay, and those after it may change their
order. -/
inductive Strike : List α → List α → Prop where
  | mk (l : List α) (a : α) {r r' : List α} (h : r.Perm r') : Strike (l ++ a :: r) (l ++ r')

theorem Strike.exists_perm (h : Strike l l') : ∃ a, l.Perm (a :: l') := by
  obtain ⟨l, a, hr⟩ := h
  exact ⟨a, List.perm_middle.trans ((hr.append_left l).cons a)⟩

theorem Strike.nodup (h : Strike l l') (hn : l.Nodup) : l'.Nodup := by
  obtain ⟨a, hperm⟩ := h.exists_perm
  exact (List.nodup_cons.1 (hperm.nodup_iff.1 hn)).2

theorem Strike.subset (h : Strike l l') : l' ⊆ l := by
  obtain ⟨a, hperm⟩ := h.exists_perm
  exact fun x hx => hperm.mem_iff.2 (List.mem_cons_of_mem a hx)

/-- Who is left after some were struck out was there before. -/
theorem subset_of_strikes (h : ReflTransGen Strike l l') : l' ⊆ l := by
  induction h with
  | refl => exact List.Subset.refl l
  | tail _ hstrike ih => exact List.Subset.trans hstrike.subset ih

theorem prefix_of_eq (h : l' = l) : l <+: l' := by
  subst h
  exact List.prefix_refl _

/-- A prefix without an entity ends before that entity. -/
theorem prefix_of_not_mem (h : l₀ <+: l ++ a :: r) (ha : a ∉ l₀) : l₀ <+: l := by
  rcases List.prefix_or_prefix_of_prefix h (List.prefix_append l _) with hle | ⟨m, rfl⟩
  · exact hle
  · rw [List.prefix_append_right_inj] at h
    cases m with
    | nil => exact (List.append_nil l).symm ▸ List.prefix_refl l
    | cons b m =>
      obtain ⟨rfl, -⟩ := List.cons_prefix_cons.1 h
      simp at ha

/-- A strike leaves a prefix where it is if it leaves all its elements. -/
theorem Strike.keeps (h : Strike l l') (hn : l.Nodup) (hpre : l₀ <+: l) (hsub : l₀ ⊆ l') :
    l₀ <+: l' := by
  obtain ⟨l, a, hr⟩ := h
  have hnot : a ∉ l ++ _ := (List.nodup_middle.1 hn).notMem
  rw [(hr.append_left l).mem_iff] at hnot
  exact (prefix_of_not_mem hpre fun ha => hnot (hsub ha)).trans (List.prefix_append l _)

/-- The last element takes the place of the one that is taken out. -/
theorem strike_set_dropLast {i : Nat} (hi : i < l.length) (hx : l.getLast? = some x) :
    Strike l (l.set i x).dropLast := by
  obtain ⟨l, a, r, rfl, rfl⟩ : ∃ l₁ a r, l = l₁ ++ a :: r ∧ i = l₁.length :=
    ⟨l.take i, l[i], l.drop (i + 1), by simp, by simp; omega⟩
  rw [List.set_append_right _ _ (Nat.le_refl _), Nat.sub_self, List.set_cons_zero]
  rcases List.eq_nil_or_concat r with rfl | ⟨r, z, rfl⟩
  · rw [List.dropLast_concat]
    simpa using Strike.mk l a (.refl [])
  · rw [List.concat_eq_append] at hx ⊢
    obtain rfl : z = x := by simpa [List.getLast?_append, List.getLast?_cons] using hx
    have hdrop : ((z :: r) ++ [z]).dropLast = z :: r := List.dropLast_concat
    rw [List.cons_append] at hdrop
    rw [List.dropLast_append_cons, hdrop]
    exact .mk l a (List.perm_append_singleton z r)

/-- Strikes that leave just the elements of a prefix leave that prefix. -/
theorem eq_of_strikes (h : ReflTransGen Strike l l') (hn : l.Nodup) (hpre : l₀ <+: l)
    (hmem : ∀ x, x ∈ l' ↔ x ∈ l₀) : l' = l₀ := by
  -- Strikes are taken from the first on, since a prefix is kept only while its elements are left.
  induction h using ReflTransGen.head_induction_on with
  | refl =>
    obtain ⟨r, rfl⟩ := hpre
    have hnil : r = [] := List.eq_nil_iff_forall_not_mem.2 fun x hx =>
      List.disjoint_of_nodup_append hn ((hmem x).1 (List.mem_append_right l₀ hx)) hx
    rw [hnil, List.append_nil]
  | head hstrike hrest ih =>
    have hsub : l₀ ⊆ _ := fun x hx => subset_of_strikes hrest ((hmem x).2 hx)
    exact ih (hstrike.nodup hn) (hstrike.keeps hn hpre hsub)

end Strikes

/-! ## Owners of a pool -/

namespace Pool

variable {α : Type} {p q : Pool α} {e : Entity} {v : α}

/-- A new owner comes last, if it puts out no other. -/
theorem Coherent.entities_insert (h : p.Coherent) (hno : p.evictee? e = none) :
    p.entities <+: (p.insert e v).entities := by
  cases hi : p.held? e with
  | some i =>
    obtain ⟨o, ho, -⟩ := h.held?_iff.1 hi
    have hoe : o = e := by simpa [evictee?, hi, ho] using hno
    have hsame : p.owners.setIfInBounds i e = p.owners := by
      refine Array.ext_getElem? fun j => ?_
      rw [Array.getElem?_setIfInBounds]
      split
      · next hij => rw [← hij, ho, hoe, if_pos (Array.getElem?_eq_some_iff.1 ho).1]
      · rfl
    refine prefix_of_eq ?_
    rw [insert_of_held hi, entities, entities, hsame]
  | none =>
    rw [insert_of_not_held hi, entities, entities, Array.toList_push]
    exact List.prefix_append _ _

/-- The removal of an owner strikes it. -/
theorem Coherent.strike_erase (h : p.Coherent) :
    ReflTransGen Strike p.entities (p.erase e).entities := by
  cases hpos : p.position? e with
  | none => rw [erase_of_position?_eq_none hpos]
  | some i =>
    have hi := h.position?_eq_some_iff.1 hpos
    obtain ⟨last, hlast, heq⟩ := h.erase_of_position? hi
    have hlast' : p.entities.getLast? = some last := by
      rw [entities, Array.getLast?_toList, Array.back?_eq_getElem?, hlast]
    have hlt : i < p.entities.length := by
      rw [entities, Array.length_toList]
      exact (Array.getElem?_eq_some_iff.1 hi).1
    rw [heq]
    refine .single ?_
    change Strike p.entities (swapRemove p.owners i).toList
    rw [toList_swapRemove hlast']
    exact strike_set_dropLast hlt hlast'

/-- Pools with the same owners in the same order and the same values list the same pairs. -/
theorem Coherent.toList_eq_filterMap (h : p.Coherent) :
    p.toList = p.entities.filterMap fun e => (p.get? e).map (e, ·) := by
  rw [← h.map_fst_toList, List.filterMap_map]
  conv_lhs => rw [← List.map_id p.toList]
  refine (List.filterMap_eq_map_iff_forall_eq_some.2 fun x hx => ?_).symm
  rw [Function.comp_apply, h.mem_toList_iff.1 hx]
  rfl

end Pool

/-! ## Actions in steps -/

namespace Action

variable {σ ε ε' α β : Type} {R : σ → σ → Prop} {x : Action σ ε α} {f : α → Action σ ε β}

/-- Whatever the action does goes in steps. -/
def Goes (R : σ → σ → Prop) (x : Action σ ε α) : Prop :=
  ∀ s, x.Ends s fun _ s' => ReflTransGen R s s'

theorem Asks.goes (hx : x.Asks) : x.Goes R := fun s => by
  unfold Ends
  rw [hx s]

/-- A question may be asked first. -/
theorem Asks.ends_bind {Q : Except ε β → σ → Prop} {s : σ} (hx : x.Asks)
    (herror : ∀ e, Q (.error e) s) (hok : ∀ a, (f a).Ends s Q) : (x >>= f).Ends s Q := by
  refine Action.ends_bind ?_
  unfold Ends
  rw [hx s]
  cases (x.run s).result with
  | ok a => exact hok a
  | error e => exact herror e

/-- An action goes by such steps if its parts do. -/
theorem Goes.bind (hx : x.Goes R) (hf : ∀ a, (f a).Goes R) : (x >>= f).Goes R := by
  intro s
  refine ends_bind ((hx s).imp fun r s' h => ?_)
  cases r with
  | ok a => exact (hf a s').imp fun _ _ h' => h.trans h'
  | error e => exact h

theorem Goes.mapError (hx : x.Goes R) (g : ε → ε') : (x.mapError g).Goes R := hx

theorem goes_fail (e : ε) : (fail e : Action σ ε α).Goes R := fun _ => .refl

end Action

/-! ## Steps of a store -/

namespace Store

open EntityStore.Action

variable {S : Schema} {ε : Type} {s s' s'' : Store S} {t : S.Tag} {c d : Component S} {e x : Entity}

/-- The owners of a component, in the order of its pool. -/
def roster (s : Store S) (d : Component S) : List Entity := (s.pool? d).elim [] (·.entities)

/-- The roster has the entities with a value. -/
theorem Sound.mem_roster_iff (h : s.Sound) : x ∈ s.roster d ↔ (s.lookup? x d).isSome = true := by
  cases hp : s.pool? d with
  | none => simp [roster, hp, lookup?_of_pool?_eq_none hp]
  | some p =>
    rw [roster, hp, lookup?_of_pool? hp]
    exact (h.packed d p hp).mem_entities_iff_isSome

/-- Nobody is on a roster twice. -/
theorem Sound.nodup_roster (h : s.Sound) : (s.roster d).Nodup := by
  cases hp : s.pool? d with
  | none => simp [roster, hp]
  | some p => rw [roster, hp]; exact (h.packed d p hp).nodup_entities

/-- The order of the owners and the values determine the view of a component. -/
theorem Sound.view_eq (h : s.Sound) :
    s.view d = (s.roster d).filterMap fun e => (s.lookup? e d).map (e, ·) := by
  cases hp : s.pool? d with
  | none => simp [view, roster, hp]
  | some p =>
    simp only [view, roster, lookup?, hp]
    exact (h.packed d p hp).toList_eq_filterMap

theorem roster_editPool_of_ne {g : Pool c.Value → Pool c.Value} (h : c ≠ d) :
    (s.editPool c g).roster d = s.roster d := by
  rw [roster, pool?_editPool_of_ne h, roster]

/-- An edit of a pool relates the owners before and after it. -/
theorem roster_editPool {r : List Entity → List Entity → Prop} (hr : ∀ l, r l l)
    {g : Pool c.Value → Pool c.Value}
    (hg : ∀ p, s.pool? c = some p → r p.entities (g p).entities) :
    r (s.roster d) ((s.editPool c g).roster d) := by
  by_cases hcd : c = d
  · subst hcd
    cases hp : s.pool? c with
    | none =>
      rw [roster, roster, pool?_editPool_self, hp]
      exact hr []
    | some p =>
      rw [roster, roster, pool?_editPool_self, hp]
      exact hg p hp
  · rw [roster_editPool_of_ne hcd]
    exact hr _

/-- A step that opens a pool of a tag, or attaches or changes a link there. -/
inductive Lays (t : S.Tag) : Store S → Store S → Prop where
  /-- A pool is opened. -/
  | opened {s : Store S} {c : Component S} (hc : OfTag t c) (hnew : s.pools.contains c = false) :
      Lays t s (s.withPool c)
  /-- A live entity gets a link. -/
  | insert {s : Store S} {c : Component S} {e : Entity} (hc : OfTag t c) (he : s.valid e = true)
      (v : c.Value) : Lays t s (s.editPool c (·.insert e v))
  /-- A link is changed. -/
  | modify {s : Store S} {c : Component S} (hc : OfTag t c) (e : Entity) (f : c.Value → c.Value) :
      Lays t s (s.editPool c (·.modify e f))

/-- A step that changes or detaches a link of a tag. -/
inductive Lifts (t : S.Tag) : Store S → Store S → Prop where
  /-- A link is changed. -/
  | modify {s : Store S} {c : Component S} (hc : OfTag t c) (e : Entity) (f : c.Value → c.Value) :
      Lifts t s (s.editPool c (·.modify e f))
  /-- A link is detached. -/
  | erase {s : Store S} {c : Component S} (hc : OfTag t c) (e : Entity) :
      Lifts t s (s.editPool c (·.erase e))

/-! ### What steps do to rosters -/

theorem Lays.sound (h : Lays t s s') (hs : s.Sound) : s'.Sound := by
  cases h with
  | opened hc hnew => exact hs.withPool hnew
  | insert hc he v => exact hs.editPool_insert he v
  | modify hc e f => exact hs.editPool_modify f

theorem Lifts.sound (h : Lifts t s s') (hs : s.Sound) : s'.Sound := by
  cases h with
  | modify hc e f => exact hs.editPool_modify f
  | erase hc e => exact hs.editPool_erase

theorem sound_of_lays (h : ReflTransGen (Lays t) s s') (hs : s.Sound) : s'.Sound := by
  induction h with
  | refl => exact hs
  | tail _ hstep ih => exact hstep.sound ih

theorem sound_of_lifts (h : ReflTransGen (Lifts t) s s') (hs : s.Sound) : s'.Sound := by
  induction h with
  | refl => exact hs
  | tail _ hstep ih => exact hstep.sound ih

/-- A step that attaches or changes leaves every roster a prefix of what it becomes. -/
theorem Lays.roster (h : Lays t s s') (hs : s.Sound) (d : Component S) :
    s.roster d <+: s'.roster d := by
  cases h with
  | @opened c hc hnew =>
    by_cases hcd : c = d
    · subst hcd
      have hnone : s.pool? c = none := Table.contains_eq_false_iff.1 hnew
      rw [Store.roster, hnone]
      exact List.nil_prefix
    · refine prefix_of_eq ?_
      rw [Store.roster, Store.roster, pool?_withPool_of_ne hcd]
  | insert hc he v =>
    exact roster_editPool List.prefix_refl fun p hp =>
      (hs.packed _ p hp).entities_insert (hs.evictee?_eq_none hp he)
  | modify hc e f =>
    exact roster_editPool List.prefix_refl fun p _ => prefix_of_eq (Pool.entities_modify f)

/-- A step that changes or detaches strikes owners. -/
theorem Lifts.roster (h : Lifts t s s') (hs : s.Sound) (d : Component S) :
    ReflTransGen Strike (s.roster d) (s'.roster d) := by
  cases h with
  | modify hc e f =>
    refine roster_editPool (fun _ => .refl) fun p _ => ?_
    rw [Pool.entities_modify]
  | erase hc e =>
    exact roster_editPool (fun _ => .refl) fun p hp => (hs.packed _ p hp).strike_erase

/-- Writes of an edge add entities at the end of a roster only. -/
theorem roster_of_lays (h : ReflTransGen (Lays t) s s') (hs : s.Sound) (d : Component S) :
    s.roster d <+: s'.roster d := by
  induction h with
  | refl => exact List.prefix_refl _
  | tail hsteps hstep ih => exact ih.trans (hstep.roster (sound_of_lays hsteps hs) d)

/-- Writes that take an edge away strike entities out of a roster only. -/
theorem roster_of_lifts (h : ReflTransGen (Lifts t) s s') (hs : s.Sound) (d : Component S) :
    ReflTransGen Strike (s.roster d) (s'.roster d) := by
  induction h with
  | refl => exact .refl
  | tail hsteps hstep ih => exact ih.trans (hstep.roster (sound_of_lifts hsteps hs) d)

/-! ### What steps do to the rest of the store -/

/-- Only links of a tag changed.  No pool came or went, and all else is as it was. -/
structure Confined (t : S.Tag) (s s' : Store S) : Prop where
  allocator : s'.allocator = s.allocator
  catalog : s'.catalog = s.catalog
  context : s'.context = s.context
  other : ∀ d, ¬ OfTag t d → s'.pool? d = s.pool? d
  contains : ∀ d, s'.pools.contains d = s.pools.contains d

/-- The slots, the context and all that is not of a tag are as they were.  The pools of the tag
stay, and its components may have entered the catalog. -/
structure Furnished (t : S.Tag) (s s' : Store S) : Prop where
  allocator : s'.allocator = s.allocator
  context : s'.context = s.context
  other : ∀ d, ¬ OfTag t d → s'.pool? d = s.pool? d
  contains : ∀ d, s.pools.contains d = true → s'.pools.contains d = true
  catalog : ∀ d, s'.catalog.get? d = s.catalog.get? d ∨
    OfTag t d ∧ s'.catalog.get? d = some ((s.catalog.get? d).getD (.initial d))

namespace Confined

theorem refl (s : Store S) : s.Confined t s := ⟨rfl, rfl, rfl, fun _ _ => rfl, fun _ => rfl⟩

theorem trans (h : s.Confined t s') (h' : s'.Confined t s'') : s.Confined t s'' where
  allocator := h'.allocator.trans h.allocator
  catalog := h'.catalog.trans h.catalog
  context := h'.context.trans h.context
  other d hd := (h'.other d hd).trans (h.other d hd)
  contains d := (h'.contains d).trans (h.contains d)

theorem editPool (hc : OfTag t c) (g : Pool c.Value → Pool c.Value) :
    s.Confined t (s.editPool c g) where
  allocator := rfl
  catalog := rfl
  context := rfl
  other _ hd := pool?_editPool_of_ne (ne_of_not_mem hd hc).symm
  contains _ := Table.contains_modify (t := s.pools) g

theorem furnished (h : s.Confined t s') : s.Furnished t s' where
  allocator := h.allocator
  context := h.context
  other := h.other
  contains d hd := (h.contains d).trans hd
  catalog d := .inl (congrArg (·.get? d) h.catalog)

end Confined

namespace Furnished

theorem trans (h : s.Furnished t s') (h' : s'.Furnished t s'') : s.Furnished t s'' where
  allocator := h'.allocator.trans h.allocator
  context := h'.context.trans h.context
  other d hd := (h'.other d hd).trans (h.other d hd)
  contains d hd := h'.contains d (h.contains d hd)
  catalog d := by
    rcases h'.catalog d with heq' | ⟨hd, heq'⟩
    · rw [heq']
      exact h.catalog d
    · refine .inr ⟨hd, ?_⟩
      rcases h.catalog d with heq | ⟨-, heq⟩
      · rw [heq', heq]
      · rw [heq', heq]
        rfl

theorem withPool (hc : OfTag t c) : s.Furnished t (s.withPool c) where
  allocator := rfl
  context := rfl
  other d hd := pool?_withPool_of_ne (ne_of_not_mem hd hc).symm
  contains d hd := by
    by_cases hcd : c = d
    · subst hcd
      rw [Table.contains, ← pool?, pool?_withPool_self]
      rfl
    · rwa [Table.contains, ← pool?, pool?_withPool_of_ne hcd]
  catalog d := by
    by_cases hcd : c = d
    · subst hcd
      exact .inr ⟨hc, Table.get?_insertIfNew_self s.catalog c _⟩
    · exact .inl (Table.get?_insertIfNew_of_ne s.catalog hcd _)

end Furnished

/-- A write of an edge leaves the rest of the store as it is. -/
theorem Lays.furnished (h : Lays t s s') : s.Furnished t s' := by
  cases h with
  | opened hc _ => exact .withPool hc
  | insert hc _ _ => exact (Confined.editPool hc _).furnished
  | modify hc _ _ => exact (Confined.editPool hc _).furnished

/-- A write that takes an edge away leaves the rest of the store as it is. -/
theorem Lifts.confined (h : Lifts t s s') : s.Confined t s' := by
  cases h with
  | modify hc _ _ => exact .editPool hc _
  | erase hc _ => exact .editPool hc _

/-- Writes of an edge leave the rest of the store as it is. -/
theorem furnished_of_lays (h : ReflTransGen (Lays t) s s') : s.Furnished t s' := by
  induction h with
  | refl => exact (Confined.refl s).furnished
  | tail _ hstep ih => exact ih.trans hstep.furnished

/-- Writes that take edges away leave the rest of the store as it is. -/
theorem confined_of_lifts (h : ReflTransGen (Lifts t) s s') : s.Confined t s' := by
  induction h with
  | refl => exact .refl s
  | tail _ hstep ih => exact ih.trans hstep.confined

/-! ## The operations in steps -/

theorem lays_ensurePool (hc : OfTag t c) :
    (ensurePool c : Action (Store S) ε Unit).Ends s fun r s' =>
      r = .ok () ∧ s'.allocator = s.allocator ∧ ReflTransGen (Lays t) s s' := by
  obtain ⟨hresult, hstate⟩ := run_ensurePool (ε := ε) s c
  unfold Ends
  rw [hresult, hstate]
  split
  · exact ⟨rfl, rfl, .refl⟩
  · next hnew => exact ⟨rfl, rfl, .single (.opened hc (Bool.eq_false_iff.2 hnew))⟩

theorem asks_reportEviction (e : Entity) (c : Component S) :
    (reportEviction e c : Action (Store S) ε Unit).Asks := by
  refine asks_state.bind fun s => ?_
  split
  · exact fun _ => rfl
  · exact asks_pure ()

theorem lays_put (hc : OfTag t c) (he : s.valid e = true) (v : c.Value) :
    (put e c v : Action (Store S) ε Unit).Ends s fun _ s' => ReflTransGen (Lays t) s s' := by
  refine ends_bind ((lays_ensurePool hc).imp ?_)
  rintro _ s₁ ⟨rfl, halloc, hsteps⟩
  have he' : s₁.valid e = true := by rw [valid, halloc]; exact he
  exact (asks_reportEviction e c).ends_bind (fun _ => hsteps) fun _ =>
    hsteps.tail (.insert hc he' v)

theorem valid_of_check {u : Unit} (h : s.check e = .ok u) : s.valid e = true := by
  by_contra hv
  rw [check, if_neg hv] at h
  cases h

theorem valid_of_assertValid {u : Unit} (h : s.assertValid e = .ok u) : s.valid e = true := by
  by_contra hv
  rw [assertValid, check, if_neg hv] at h
  cases h

theorem lays_put_pure {α : Type} (hc : OfTag t c) (he : s.valid e = true) (v : c.Value) (a : α) :
    (do put e c v; pure a : Action (Store S) ε α).Ends s fun _ s' =>
      ReflTransGen (Lays t) s s' := by
  refine ends_bind ((lays_put hc he v).imp fun r s' hsteps => ?_)
  cases r with
  | ok _ => exact hsteps
  | error _ => exact hsteps

theorem lays_tryAttach (hc : OfTag t c) (e : Entity) (v : c.Value) :
    (tryAttach e c v).Goes (Lays t) := fun _ =>
  ends_state_bind <| ends_query_bind (fun _ _ => .refl) fun _ hcheck =>
    ends_require_bind (fun _ => .refl) fun _ => lays_put_pure hc (valid_of_check hcheck) v v

theorem lays_attach (hc : OfTag t c) (e : Entity) (v : c.Value) : (attach e c v).Goes (Lays t) :=
  (lays_tryAttach hc e v).mapError Fault.refused

theorem lays_attachOrReplace (hc : OfTag t c) (e : Entity) (v : c.Value) :
    (attachOrReplace e c v).Goes (Lays t) := fun _ =>
  ends_query_bind (fun _ _ => .refl) fun _ hcheck =>
    lays_put_pure hc (valid_of_assertValid hcheck) v v

theorem lays_getOrAttach (hc : OfTag t c) (e : Entity) (make : Unit → Except Fault c.Value) :
    (getOrAttach e c make).Goes (Lays t) := by
  intro s
  refine ends_query_bind (fun _ _ => .refl) fun _ hcheck => ends_bind ?_
  refine (lays_ensurePool hc).imp ?_
  rintro _ s₁ ⟨rfl, halloc, hsteps⟩
  have he' : s₁.valid e = true := by rw [valid, halloc]; exact valid_of_assertValid hcheck
  refine ends_state_bind ?_
  split
  · exact hsteps
  · exact ends_query_bind (fun _ _ => hsteps) fun v _ =>
      (lays_put_pure hc he' v (v, true)).imp fun _ _ hsteps' => hsteps.trans hsteps'

theorem lays_update (hc : OfTag t c) (e : Entity) (f : c.Value → c.Value) :
    (update e c f).Goes (Lays t) :=
  Goes.mapError ((asks_query _).goes.bind fun _ => Goes.bind
    (fun _ => .single (.modify hc e f)) fun _ => (asks_pure _).goes) Fault.refused

theorem lifts_update (hc : OfTag t c) (e : Entity) (f : c.Value → c.Value) :
    (update e c f).Goes (Lifts t) :=
  Goes.mapError ((asks_query _).goes.bind fun _ => Goes.bind
    (fun _ => .single (.modify hc e f)) fun _ => (asks_pure _).goes) Fault.refused

theorem lifts_detach (hc : OfTag t c) (e : Entity) : (detach e c).Goes (Lifts t) :=
  Goes.mapError ((asks_query _).goes.bind fun _ => Goes.bind
    (fun _ => .single (.erase hc e)) fun _ => (asks_pure _).goes) Fault.refused

/-! ### Linking -/

/-- The first child is led back by writes of an edge. -/
theorem lays_linkBefore (t : S.Tag) (child : Entity) (o : Option Entity) :
    (linkBefore t child o).Goes (Lays t) := by
  cases o with
  | none => exact (asks_pure ()).goes
  | some head =>
    exact (asks_query _).goes.bind fun _ => (asks_require _ _).goes.bind fun _ =>
      (lays_update ofTag_siblingLinks head _).bind fun _ => (asks_pure ()).goes

/-- The number of children goes up by writes of an edge. -/
theorem lays_countUp (t : S.Tag) (parent : Entity) : (countUp t parent).Goes (Lays t) :=
  (lays_getOrAttach ofTag_childCount parent _).bind fun _ => (asks_require _ _).goes.bind fun _ =>
    (lays_update ofTag_childCount parent _).bind fun _ => (asks_pure ()).goes

/-- Linking a child only attaches and changes links. -/
theorem lays_prependChild (t : S.Tag) (parent child : Entity) :
    (prependChild t parent child).Goes (Lays t) := by
  refine asks_state.goes.bind fun s => ?_
  refine (asks_require _ _).goes.bind fun _ => (asks_require _ _).goes.bind fun _ =>
    (asks_require _ _).goes.bind fun _ => (asks_query _).goes.bind fun linked => ?_
  have hlink : (do
      let above ← Action.query (·.isAncestorOf t child parent)
      Action.require (!above) (.wouldCycle child parent)
      let oldFirst ← Action.query (·.firstChildOf? t parent)
      linkBefore t child oldFirst
      let _ ← Store.attach child (.parentLink t) (⟨parent⟩ : ParentLink)
      let _ ← Store.attach child (.siblingLinks t) ({ next := oldFirst.getD .null } : SiblingLinks)
      let _ ← Store.attachOrReplace parent (.firstChild t) (⟨child⟩ : FirstChild)
      countUp t parent : Action (Store S) Fault Unit).Goes (Lays t) :=
    (asks_query _).goes.bind fun _ => (asks_require _ _).goes.bind fun _ =>
      (asks_query _).goes.bind fun _ => (lays_linkBefore t child _).bind fun _ =>
      (lays_attach ofTag_parentLink child _).bind fun _ =>
      (lays_attach ofTag_siblingLinks child _).bind fun _ =>
      (lays_attachOrReplace ofTag_firstChild parent _).bind fun _ => lays_countUp t parent
  split
  · exact (asks_query _).goes.bind fun _ => (goes_fail _).bind fun _ => hlink
  · exact hlink

/-! ### Unlinking -/

/-- What leads to a child is led past it by writes that take an edge away. -/
theorem lifts_closeBefore (t : S.Tag) (parent child : Entity) (links : SiblingLinks) :
    (closeBefore t parent child links).Goes (Lifts t) := by
  unfold closeBefore
  split
  · exact (asks_query _).goes.bind fun _ => (asks_require _ _).goes.bind fun _ =>
      (lifts_update ofTag_firstChild parent _).bind fun _ => (asks_pure ()).goes
  · exact (lifts_update ofTag_siblingLinks _ _).bind fun _ => (asks_pure ()).goes

/-- What comes after a child is led back by writes that take an edge away. -/
theorem lifts_closeAfter (t : S.Tag) (links : SiblingLinks) :
    (closeAfter t links).Goes (Lifts t) := by
  unfold closeAfter
  split
  · exact (asks_pure ()).goes
  · exact (lifts_update ofTag_siblingLinks _ _).bind fun _ => (asks_pure ()).goes

/-- The number of children goes down by writes that take an edge away. -/
theorem lifts_countDown (t : S.Tag) (parent : Entity) : (countDown t parent).Goes (Lifts t) := by
  refine (asks_query _).goes.bind fun _ => (asks_require _ _).goes.bind fun _ =>
    (lifts_update ofTag_childCount parent _).bind fun _ => ?_
  split
  · exact (asks_query _).goes.bind fun _ => (asks_require _ _).goes.bind fun _ =>
      (lifts_detach ofTag_firstChild parent).bind fun _ =>
      (lifts_detach ofTag_childCount parent).bind fun _ => (asks_pure ()).goes
  · exact (asks_pure ()).goes

/-- The links of a child go by writes that take an edge away. -/
theorem lifts_dropChildLinks (t : S.Tag) (child : Entity) :
    (dropChildLinks t child).Goes (Lifts t) :=
  (lifts_detach ofTag_parentLink child).bind fun _ =>
    (lifts_detach ofTag_siblingLinks child).bind fun _ => (asks_pure ()).goes

/-- Unlinking a child only changes and detaches links. -/
theorem lifts_removeChild (t : S.Tag) (parent child : Entity) :
    (removeChild t parent child).Goes (Lifts t) := by
  refine (asks_query _).goes.bind fun _ => ?_
  split
  · exact (asks_query _).goes.bind fun links => (lifts_closeBefore t parent child links).bind
      fun _ => (lifts_closeAfter t links).bind fun _ => (lifts_countDown t parent).bind fun _ =>
      (lifts_dropChildLinks t child).bind fun _ => (asks_pure true).goes
  · exact (asks_pure false).goes

end Store

end EntityStore
