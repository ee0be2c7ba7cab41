import EntityStore.Proofs.Runs
import EntityStore.Proofs.Selection
import Mathlib.Data.List.Induction

/-!
# The order of a selection

The entities that pass a selector are listed in the order of the pool through which the selection
looks, or in the order of the slots where the selector requires nothing.  That pool is a smallest
one, and the first mentioned of the smallest.

`Run.selects_what_passes` is about every store that a run leaves, starting from a new store.  It
says which entities a selection lists, whatever pool it looks through, and in which order.  A
selector counts there only by the sets of components that it mentions.
-/

namespace EntityStore

variable {S : Schema}

/-! ## The components that a selector mentions -/

namespace Selector

/-- The components that a step requires. -/
def Term.required : Term S → List (Component S)
  | .require c => [c]
  | .reject _ | .rejectUnready => []

/-- The components that a step rejects. -/
def Term.rejected : Term S → List (Component S)
  | .require _ => []
  | .reject c => [c]
  | .rejectUnready => [.mark .doomed, .mark .unfinished, .mark .parked]

/-- One more mention is dropped where it repeats an earlier one. -/
theorem mention_eraseDups (cs : List (Component S)) (c : Component S) :
    mention cs.eraseDups c = (cs ++ [c]).eraseDups := by
  rw [mention, List.eraseDups_append]
  by_cases hc : c ∈ cs
  · simp [hc, List.removeAll]
  · simp [hc, List.removeAll, List.eraseDups_cons]

/-- The components of a selector are those that its steps mention, in the order of the first
mention. -/
theorem ofTerms_eq (ts : List (Term S)) :
    ofTerms ts =
      { required := (ts.flatMap Term.required).eraseDups
        rejected := (ts.flatMap Term.rejected).eraseDups } := by
  induction ts using List.reverseRecOn with
  | nil => rfl
  | append_singleton ts t ih =>
    rw [ofTerms, List.foldl_append, ← ofTerms, ih]
    cases t with
    | require c => simp [add, require, Term.required, Term.rejected, mention_eraseDups]
    | reject c => simp [add, reject, Term.required, Term.rejected, mention_eraseDups]
    | rejectUnready =>
      simp [add, rejectUnready, reject, Term.required, Term.rejected, mention_eraseDups]

end Selector

/-! ## What a selection lists, and in which order -/

namespace Store

variable {s : Store S} {sel : Selector S}

/-- A list is what a selection of a store has to answer. -/
structure Selects (s : Store S) (sel : Selector S) (es : List Entity) : Prop where
  /-- No entity is listed twice. -/
  nodup : es.Nodup
  /-- The entities listed are those that pass. -/
  mem_iff_passes : ∀ e, e ∈ es ↔ s.passes sel e = true
  /-- The entities listed are live, have each required component and no rejected one. -/
  mem_iff : ∀ e, e ∈ es ↔ s.valid e = true ∧
    (∀ c ∈ sel.required, (s.lookup? e c).isSome = true) ∧ ∀ c ∈ sel.rejected, s.lookup? e c = none
  /-- They are the live entities that pass, in some order. -/
  perm : es.Perm (s.entities.filter (s.passes sel))
  /-- Where nothing is required, the order is that of the slots. -/
  slot_order : sel.required = [] →
    es = s.entities.filter (s.passes sel) ∧ es.Pairwise fun x y => x.index < y.index
  /-- Where a required component has no pool, nothing is listed. -/
  missing_pool : ∀ c ∈ sel.required, s.pool? c = none → es = []
  /-- Where something is required and has pools, the order is that of the first smallest pool. -/
  pool_order : sel.required ≠ [] → (∀ c ∈ sel.required, ∃ p, s.pool? c = some p) →
    ∃ c p, s.FirstSmallest sel.required c p ∧ es = p.entities.filter (s.passes sel)

theorem Sound.mem_select_iff (h : s.Sound) (e : Entity) :
    e ∈ s.select sel ↔ s.valid e = true ∧
      (∀ c ∈ sel.required, (s.lookup? e c).isSome = true) ∧
      ∀ c ∈ sel.rejected, s.lookup? e c = none := by
  rw [h.mem_select, passes_iff]
  simp only [h.carries_eq, Option.isSome_eq_false_iff, Option.isNone_iff_eq_none]

theorem Sound.selects (h : s.Sound) (sel : Selector S) : s.Selects sel (s.select sel) where
  nodup := h.nodup_select
  mem_iff_passes _ := h.mem_select
  mem_iff := h.mem_select_iff
  perm := h.select_perm
  slot_order hnil := by
    rcases s.candidates_cases sel with ⟨-, heq⟩ | ⟨⟨c, hc, -⟩, -⟩ | ⟨-, c, p, hsmall, -⟩
    · rw [select, heq]
      exact ⟨rfl, h.slots.pairwise_entities.filter _⟩
    · rw [hnil] at hc
      cases hc
    · have hc := hsmall.mem
      rw [hnil] at hc
      cases hc
  missing_pool c hc hnone := by
    rcases s.candidates_cases sel with ⟨hnil, -⟩ | ⟨-, heq⟩ | ⟨hall, -⟩
    · rw [hnil] at hc
      cases hc
    · rw [select, heq, List.filter_nil]
    · obtain ⟨p, hp⟩ := hall c hc
      rw [hnone] at hp
      cases hp
  pool_order hne hall := by
    rcases s.candidates_cases sel with ⟨hnil, -⟩ | ⟨⟨c, hc, hnone⟩, -⟩ | ⟨-, c, p, hsmall, heq⟩
    · exact absurd hnil hne
    · obtain ⟨p, hp⟩ := hall c hc
      rw [hnone] at hp
      cases hp
    · exact ⟨c, p, hsmall, by rw [select, heq]⟩

/-- Selectors that require the same components and reject the same components select the same
entities. -/
theorem Sound.select_perm_of_mem_iff (h : s.Sound) {sel' : Selector S}
    (hrequired : ∀ c, c ∈ sel.required ↔ c ∈ sel'.required)
    (hrejected : ∀ c, c ∈ sel.rejected ↔ c ∈ sel'.rejected) :
    (s.select sel).Perm (s.select sel') := by
  rw [List.perm_ext_iff_of_nodup h.nodup_select h.nodup_select]
  intro e
  simp only [h.mem_select_iff, hrequired, hrejected]

theorem Sound.isSome_find? (h : s.Sound) :
    (s.find? sel).isSome = true ↔ ∃ e, s.passes sel e = true := by
  rw [find?, List.isSome_head?]
  constructor
  · intro hne
    obtain ⟨e, he⟩ := List.exists_mem_of_ne_nil _ hne
    exact ⟨e, h.mem_select.1 he⟩
  · rintro ⟨e, he⟩
    exact List.ne_nil_of_mem (h.mem_select.2 he)

theorem Sound.passes_of_find? (h : s.Sound) {e : Entity} (he : s.find? sel = some e) :
    s.passes sel e = true :=
  h.mem_select.1 (List.mem_of_head? he)

end Store

/-- On a store that a run leaves, starting from a new store, every selection lists exactly the
entities that pass its selector, each once and in the order of the pool or of the slots that it
looks through.  A search finds an entity that passes, where there is one.  A selector has the
components that its steps mention, in the order of the first mention, and selectors whose steps
mention the same components, in whatever order and however often, select the same entities. -/
theorem Run.selects_what_passes {s : Store S} {rs : List Report} (h : Run ({} : Store S) rs s) :
    (∀ sel : Selector S, s.Selects sel (s.select sel) ∧
      ((s.find? sel).isSome = true ↔ ∃ e, s.passes sel e = true) ∧
      ∀ e, s.find? sel = some e → s.passes sel e = true) ∧
    (∀ ts : List (Selector.Term S), Selector.ofTerms ts =
      { required := (ts.flatMap Selector.Term.required).eraseDups
        rejected := (ts.flatMap Selector.Term.rejected).eraseDups }) ∧
    ∀ ts ts' : List (Selector.Term S),
      (∀ c, c ∈ ts.flatMap Selector.Term.required ↔ c ∈ ts'.flatMap Selector.Term.required) →
      (∀ c, c ∈ ts.flatMap Selector.Term.rejected ↔ c ∈ ts'.flatMap Selector.Term.rejected) →
      (s.select (.ofTerms ts)).Perm (s.select (.ofTerms ts')) := by
  have hs := (h.sound Store.sound_empty).1
  refine ⟨fun sel => ⟨hs.selects sel, hs.isSome_find?, fun e => hs.passes_of_find?⟩,
    Selector.ofTerms_eq, ?_⟩
  intro ts ts' hrequired hrejected
  refine hs.select_perm_of_mem_iff ?_ ?_
  · simpa only [Selector.ofTerms_eq, List.mem_eraseDups] using hrequired
  · simpa only [Selector.ofTerms_eq, List.mem_eraseDups] using hrejected

/-- Of two entities with a number, one of which is to be destroyed, the other one is ready.  It is
found whichever step comes first, and with steps that repeat others. -/
theorem Run.selects_what_passes_ready :
    ∃ (rs : List Report) (s : Store Schema.sample), Run {} rs s ∧
      s.Selects (.ofTerms [.require (.data ()), .rejectUnready]) [⟨1, 0⟩] ∧
      s.find? (.ofTerms [.require (.data ()), .rejectUnready]) = some ⟨1, 0⟩ ∧
      (s.select (.ofTerms [.require (.data ()), .rejectUnready])).Perm
        (s.select (.ofTerms [.reject (.mark .parked), .rejectUnready, .require (.data ()),
          .require (.data ())])) := by
  have hrun : Run ({} : Store Schema.sample) _ _ :=
    (((((Run.refl {}).op (.call .create)).op (.call .create)).op
      (.call (.attach ⟨0, 0⟩ (.data ()) (7 : Nat)))).op
      (.call (.attach ⟨1, 0⟩ (.data ()) (8 : Nat)))).op
      (.call (.attach ⟨0, 0⟩ (.mark .doomed) ()))
  obtain ⟨hselects, -, hsame⟩ := hrun.selects_what_passes
  refine ⟨_, _, hrun, (hselects (.ofTerms [.require (.data ()), .rejectUnready])).1, rfl,
    hsame _ _ ?_ ?_⟩
  · simp [Selector.Term.required]
  · intro c
    simp only [Selector.Term.rejected, List.flatMap_cons, List.flatMap_nil, List.mem_append,
      List.mem_cons, List.not_mem_nil, or_false, false_or]
    exact ⟨.inr, fun h => h.elim (fun h => .inr (.inr h)) id⟩

end EntityStore
