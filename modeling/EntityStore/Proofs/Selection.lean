import EntityStore.Proofs.Soundness
import EntityStore.Selector
import Mathlib.Data.List.Induction

/-!
# What a selection lists

A selection looks through one pool or through all live entities, whichever is the cheapest, and
lists those that pass its selector.  Every entity that passes is among those looked through, since
it carries each required component.  So in a sound store the selection lists exactly the entities
that pass, each of them once (`Sound.mem_select`, `Sound.nodup_select`), and the choice of the pool
shows only in their order.
-/

namespace EntityStore.Store

variable {S : Schema} {s : Store S} {sel : Selector S} {e : Entity} {c : Component S}

/-! ## The pools of the required components -/

/-- The shortest of some arrays is shorter than those before it, and no longer than those after
it. -/
theorem exists_split_shortest {α : Type} (first : Array α) (others : List (Array α)) :
    ∃ before after, first :: others = before ++ shortest first others :: after ∧
      (∀ xs ∈ before, (shortest first others).size < xs.size) ∧
      ∀ xs ∈ after, (shortest first others).size ≤ xs.size := by
  induction others using List.reverseRecOn with
  | nil => exact ⟨[], [], rfl, by simp, by simp⟩
  | append_singleton others ys ih =>
    obtain ⟨before, after, heq, hbefore, hafter⟩ := ih
    have hstep : shortest first (others ++ [ys]) =
        if ys.size < (shortest first others).size then ys else shortest first others := by
      rw [shortest, List.foldl_append]
      rfl
    rw [hstep, ← List.cons_append, heq]
    split
    · next hlt =>
      refine ⟨_, [], rfl, fun xs hxs => Nat.lt_of_lt_of_le hlt ?_, by simp⟩
      rcases List.mem_append.1 hxs with h | h
      · exact Nat.le_of_lt (hbefore xs h)
      · rcases List.mem_cons.1 h with rfl | h
        · exact Nat.le_refl _
        · exact hafter xs h
    · next hle =>
      refine ⟨before, after ++ [ys], by simp, hbefore, fun xs hxs => ?_⟩
      rcases List.mem_append.1 hxs with h | h
      · exact hafter xs h
      · rw [List.mem_singleton.1 h]
        omega

theorem mapM_cons_eq_some_iff {α β : Type} {f : α → Option β} {a : α} {as : List α} {bs : List β} :
    (a :: as).mapM f = some bs ↔
      ∃ b rest, f a = some b ∧ as.mapM f = some rest ∧ bs = b :: rest := by
  rw [List.mapM_cons]
  cases f a with
  | none => simp
  | some b =>
    cases as.mapM f with
    | none => simp
    | some rest => simp [eq_comm]

theorem mem_of_mapM {α β : Type} {f : α → Option β} {as : List α} {bs : List β}
    (h : as.mapM f = some bs) {a : α} (ha : a ∈ as) : ∃ b ∈ bs, f a = some b := by
  induction as generalizing bs with
  | nil => cases ha
  | cons a' as ih =>
    obtain ⟨b, rest, hb, hrest, rfl⟩ := mapM_cons_eq_some_iff.1 h
    rcases List.mem_cons.1 ha with rfl | ha
    · exact ⟨b, List.mem_cons_self, hb⟩
    · obtain ⟨b', hb', hf⟩ := ih hrest ha
      exact ⟨b', List.mem_cons_of_mem _ hb', hf⟩

theorem exists_of_mapM_eq_none {α β : Type} {f : α → Option β} {as : List α}
    (h : as.mapM f = none) : ∃ a ∈ as, f a = none := by
  induction as with
  | nil => simp at h
  | cons a as ih =>
    cases ha : f a with
    | none => exact ⟨a, List.mem_cons_self, ha⟩
    | some b =>
      cases hrest : as.mapM f with
      | none =>
        obtain ⟨a', ha', hf⟩ := ih hrest
        exact ⟨a', List.mem_cons_of_mem a ha', hf⟩
      | some rest =>
        rw [mapM_cons_eq_some_iff.2 ⟨b, rest, ha, hrest, rfl⟩] at h
        cases h

/-- Where the results split, the arguments split. -/
theorem exists_split_of_mapM {α β : Type} {f : α → Option β} {as : List α} {before after : List β}
    {b : β} (h : as.mapM f = some (before ++ b :: after)) :
    ∃ as₁ a as₂, as = as₁ ++ a :: as₂ ∧ as₁.mapM f = some before ∧ f a = some b ∧
      as₂.mapM f = some after := by
  induction before generalizing as with
  | nil =>
    cases as with
    | nil => simp at h
    | cons a as =>
      obtain ⟨b', rest, ha, hrest, heq⟩ := mapM_cons_eq_some_iff.1 h
      obtain ⟨rfl, rfl⟩ := List.cons.inj heq
      exact ⟨[], a, as, rfl, rfl, ha, hrest⟩
  | cons b' before ih =>
    cases as with
    | nil => simp at h
    | cons a as =>
      obtain ⟨b'', rest, ha, hrest, heq⟩ := mapM_cons_eq_some_iff.1 h
      obtain ⟨rfl, rfl⟩ := List.cons.inj heq
      obtain ⟨as₁, a', as₂, rfl, hbefore, hb, hafter⟩ := ih hrest
      exact ⟨a :: as₁, a', as₂, rfl, mapM_cons_eq_some_iff.2 ⟨_, _, ha, hbefore, rfl⟩, hb, hafter⟩

/-- The pool of a component is a smallest one among the pools of some components, and the first
mentioned of these. -/
structure FirstSmallest (s : Store S) (cs : List (Component S)) (c : Component S)
    (p : Pool c.Value) : Prop where
  /-- It is the pool of the component. -/
  pool : s.pool? c = some p
  /-- The pools mentioned before are larger, and those mentioned after are not smaller. -/
  split : ∃ before after, cs = before ++ c :: after ∧
    (∀ d ∈ before, ∀ q, s.pool? d = some q → p.size < q.size) ∧
    ∀ d ∈ after, ∀ q, s.pool? d = some q → p.size ≤ q.size

/-- A selection looks through the live entities where nothing is required, through nothing where a
required component has no pool, and else through the first smallest pool. -/
theorem candidates_cases (s : Store S) (sel : Selector S) :
    (sel.required = [] ∧ s.candidates sel = s.entities) ∨
    ((∃ c ∈ sel.required, s.pool? c = none) ∧ s.candidates sel = []) ∨
    ((∀ c ∈ sel.required, ∃ p, s.pool? c = some p) ∧
      ∃ c p, s.FirstSmallest sel.required c p ∧ s.candidates sel = p.entities) := by
  unfold candidates
  split
  · next hnone =>
    obtain ⟨c, hc, hp⟩ := exists_of_mapM_eq_none hnone
    exact .inr (.inl ⟨⟨c, hc, Option.map_eq_none_iff.1 hp⟩, rfl⟩)
  · next hsome =>
    refine .inl ⟨List.eq_nil_iff_forall_not_mem.2 fun c hc => ?_, rfl⟩
    obtain ⟨_, hmem, -⟩ := mem_of_mapM hsome hc
    cases hmem
  · next first others hsome =>
    refine .inr (.inr ⟨fun c hc => ?_, ?_⟩)
    · obtain ⟨_, -, hp⟩ := mem_of_mapM hsome hc
      obtain ⟨p, hp, -⟩ := Option.map_eq_some_iff.1 hp
      exact ⟨p, hp⟩
    · obtain ⟨before, after, hsplit, hbefore, hafter⟩ := exists_split_shortest first others
      rw [hsplit] at hsome
      obtain ⟨cs₁, c, cs₂, hcs, hcs₁, hc, hcs₂⟩ := exists_split_of_mapM hsome
      obtain ⟨p, hp, howners⟩ := Option.map_eq_some_iff.1 hc
      rw [← howners] at hbefore hafter ⊢
      refine ⟨c, p, ⟨hp, cs₁, cs₂, hcs, fun d hd q hq => ?_, fun d hd q hq => ?_⟩, rfl⟩
      · obtain ⟨xs, hxs, hf⟩ := mem_of_mapM hcs₁ hd
        rw [hq, Option.map_some, Option.some.injEq] at hf
        rw [← hf] at hxs
        exact hbefore q.owners hxs
      · obtain ⟨xs, hxs, hf⟩ := mem_of_mapM hcs₂ hd
        rw [hq, Option.map_some, Option.some.injEq] at hf
        rw [← hf] at hxs
        exact hafter q.owners hxs

theorem FirstSmallest.mem {cs : List (Component S)} {p : Pool c.Value}
    (h : s.FirstSmallest cs c p) : c ∈ cs := by
  obtain ⟨before, after, rfl, -, -⟩ := h.split
  exact List.mem_append_right before List.mem_cons_self

/-! ## Selections -/

theorem passes_iff : s.passes sel e = true ↔ s.valid e = true ∧
    (∀ c ∈ sel.required, s.carries e c = true) ∧ ∀ c ∈ sel.rejected, s.carries e c = false := by
  simp [passes, and_assoc]

/-- An entity that passes is among those looked through, which are listed once each. -/
theorem Sound.candidates (h : s.Sound) :
    (s.candidates sel).Nodup ∧ ∀ e, s.passes sel e = true → e ∈ s.candidates sel := by
  rcases s.candidates_cases sel with ⟨-, heq⟩ | ⟨⟨c, hc, hp⟩, heq⟩ | ⟨-, c, p, hsmall, heq⟩
  · rw [heq]
    exact ⟨h.slots.nodup_entities, fun e he => h.slots.mem_entities_iff.2 (passes_iff.1 he).1⟩
  · rw [heq]
    refine ⟨List.nodup_nil, fun e he => ?_⟩
    have hcarries := (passes_iff.1 he).2.1 c hc
    simp [carries, hp] at hcarries
  · rw [heq]
    refine ⟨(h.packed c p hsmall.pool).nodup_entities, fun e he => ?_⟩
    have hcarries := (passes_iff.1 he).2.1 c hsmall.mem
    rw [h.carries_eq, lookup?_of_pool? hsmall.pool] at hcarries
    exact (h.packed c p hsmall.pool).mem_entities_iff_isSome.2 hcarries

theorem Sound.mem_select (h : s.Sound) : e ∈ s.select sel ↔ s.passes sel e = true := by
  rw [select, List.mem_filter]
  exact ⟨And.right, fun he => ⟨h.candidates.2 e he, he⟩⟩

theorem Sound.nodup_select (h : s.Sound) : (s.select sel).Nodup := h.candidates.1.filter _

/-- A selection lists the live entities that pass, in some order. -/
theorem Sound.select_perm (h : s.Sound) :
    (s.select sel).Perm (s.entities.filter (s.passes sel)) := by
  have hn : (s.entities.filter (s.passes sel)).Nodup := h.slots.nodup_entities.filter _
  rw [List.perm_ext_iff_of_nodup h.nodup_select hn]
  intro e
  rw [h.mem_select, List.mem_filter, Store.entities, h.slots.mem_entities_iff]
  exact ⟨fun he => ⟨(passes_iff.1 he).1, he⟩, And.right⟩

theorem mem_mention {cs : List (Component S)} {d : Component S} :
    d ∈ mention cs c ↔ d ∈ cs ∨ d = c := by
  unfold mention
  split <;> simp_all

/-- One more required component narrows a selection down. -/
theorem passes_require : s.passes (sel.require c) e = (s.passes sel e && s.carries e c) := by
  rw [Bool.eq_iff_iff, Bool.and_eq_true, passes_iff, passes_iff]
  simp only [Selector.require, mem_mention]
  constructor
  · rintro ⟨hv, hreq, hrej⟩
    exact ⟨⟨hv, fun d hd => hreq d (.inl hd), hrej⟩, hreq c (.inr rfl)⟩
  · rintro ⟨⟨hv, hreq, hrej⟩, hc⟩
    exact ⟨hv, fun d hd => hd.elim (hreq d) (· ▸ hc), hrej⟩

end EntityStore.Store
