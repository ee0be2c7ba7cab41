import EntityStore.Proofs.Histories
import EntityStore.Proofs.Rosters
import EntityStore.Proofs.Stalling

/-!
# Linking and unlinking again

When a child is linked and then unlinked from the same parent, every pool lists its owners in the
same order with the same values as before (`Store.Restored`).  The links are the same since they
show the same forest, and a forest determines its links.  The order is the same since linking puts
new owners last, unlinking only strikes owners, and those that are left are the old ones
(`eq_of_strikes`).
-/

namespace EntityStore

open Relation

variable {S : Schema}

namespace Store

variable {s s₁ s₂ : Store S} {t : S.Tag} {F : Forest} {c p : Entity} {d : Component S}

/-- A store is as another one was, but for pools of one tag that were created meanwhile, with the
entries of their components in the catalog. -/
structure Restored (t : S.Tag) (s s' : Store S) : Prop where
  allocator : s'.allocator = s.allocator
  context : s'.context = s.context
  /-- Every pool has the same owners with the same values, in the same order. -/
  view : ∀ d, s'.view d = s.view d
  other : ∀ d, ¬ OfTag t d → s'.pool? d = s.pool? d ∧ s'.catalog.get? d = s.catalog.get? d
  /-- All pools of the tag exist now. -/
  pools : ∀ d, OfTag t d → s'.pools.contains d = true ∧
    s'.catalog.get? d = some ((s.catalog.get? d).getD (.initial d))

theorem contains_of_isSome (h : (s.lookup? p d).isSome = true) : s.pools.contains d = true := by
  rw [Table.contains, ← pool?]
  cases hp : s.pool? d with
  | none => simp [lookup?_of_pool?_eq_none hp] at h
  | some q => rfl

/-- A parent and a child have all links of a tag between them. -/
theorem Shows.contains_of_mem (hF : s.Shows t F) (hc : c ∈ F p) (hd : OfTag t d) :
    s.pools.contains d = true := by
  have hparent : (s.lookup? c (.parentLink t)).isSome = true := by rw [hF.parent?_eq hc]; rfl
  have hne : F p ≠ [] := List.ne_nil_of_mem hc
  cases d with
  | data d => cases hd
  | mark k => cases hd
  | parentLink u =>
    obtain rfl : u = t := Option.some.inj hd
    exact contains_of_isSome hparent
  | siblingLinks u =>
    obtain rfl : u = t := Option.some.inj hd
    exact contains_of_isSome (hF.isSome_siblings?.trans hparent)
  | firstChild u =>
    obtain rfl : u = t := Option.some.inj hd
    exact contains_of_isSome (hF.isSome_first?.trans (decide_eq_true hne))
  | childCount u =>
    obtain rfl : u = t := Option.some.inj hd
    exact contains_of_isSome (hF.isSome_count?.trans (decide_eq_true hne))

/-- If a store came to another by attachments and then by detachments, and holds what it held
before, then it is as it was. -/
theorem Sound.restored (h : s.Sound) (hlays : ReflTransGen (Lays t) s s₁)
    (hlifts : ReflTransGen (Lifts t) s₁ s₂) (hsame : s₂.contents = s.contents)
    (hpools : ∀ d, OfTag t d → s₁.pools.contains d = true) : s.Restored t s₂ := by
  have hs₁ : s₁.Sound := sound_of_lays hlays h
  have hs₂ : s₂.Sound := sound_of_lifts hlifts hs₁
  have hfirst : s.Furnished t s₁ := furnished_of_lays hlays
  have hsecond : s₁.Furnished t s₂ := (confined_of_lifts hlifts).furnished
  have hboth := hfirst.trans hsecond
  have hlookup : ∀ e (d : Component S), s₂.lookup? e d = s.lookup? e d := fun e d =>
    congrArg (fun m : Contents S => m.value? e d) hsame
  have hroster : ∀ d, s₂.roster d = s.roster d := by
    intro d
    -- Equal contents give equal owners, and the steps fix their order.
    refine eq_of_strikes (roster_of_lifts hlifts hs₁ d) hs₁.nodup_roster
      (roster_of_lays hlays h d) fun x => ?_
    rw [hs₂.mem_roster_iff, h.mem_roster_iff, hlookup]
  refine ⟨hboth.allocator, hboth.context, fun d => ?_, fun d hd => ⟨hboth.other d hd, ?_⟩,
    fun d hd => ?_⟩
  · rw [hs₂.view_eq, h.view_eq, hroster d]
    simp only [hlookup]
  · exact (hboth.catalog d).resolve_right fun hin => hd hin.1
  · have hcontains : s₂.pools.contains d = true := hsecond.contains d (hpools d hd)
    refine ⟨hcontains, ?_⟩
    rcases hboth.catalog d with heq | ⟨-, heq⟩
    · obtain ⟨info, hinfo⟩ := Table.contains_iff_exists.1 (hs₂.listed d hcontains)
      rw [← heq, hinfo]
      rfl
    · exact heq

/-- Linking a child and unlinking it again gives back what the store held. -/
theorem Sound.contents_unlinked (h : s.Sound) (hF : s.Shows t F)
    (hok : ((prependChild t p c).run s).result = .ok ()) :
    let s₁ := ((prependChild t p c).run s).state
    s₁.Sound ∧ s₁.Shows t (F.prepend p c) ∧ ((removeChild t p c).run s₁).result = .ok true ∧
      ((removeChild t p c).run s₁).state.contents = s.contents := by
  intro s₁
  obtain ⟨L, F', hL, hm, ⟨ha, -, rfl⟩ | ⟨-, ⟨f, hf⟩, -⟩⟩ := h.run_prependChild (p := p) (c := c) hF
  · have hs₁ : s₁.Sound := sound_of_lays (lays_prependChild t p c s) h
    obtain ⟨L', hL', hsettles⟩ :=
      settles_removeChild (m := s.contents) (t := t) (p := p) (c := c) hL h.valid_null
    obtain ⟨hr, -, hm'⟩ := hsettles s₁ hs₁ hm
    have hmem : c ∈ F.prepend p c p := by simp [Forest.prepend]
    rw [Forest.remove_prepend] at hL'
    refine ⟨hs₁, shows_of_contents hm hL, ?_, ?_⟩
    · exact hr.trans ((Forest.hasEdge_eq_ok_true_iff h.valid_null hL.live).2 hmem)
    · rw [hm', ← Links.Shows.unique hF hL', Contents.relink_links]
  · rw [hf] at hok
    cases hok

end Store

/-- Wherever a disciplined history leads, to link a child and to unlink it from its parent again, or
to detach it, answers yes and leaves every pool with the same owners in the same order and with the
same values.  Only the pools of the tag are there now if they were not. -/
theorem History.Leads.unlinking_restores {H : History S} {s : Store S} {G : Forests S}
    (h : H.Leads s G) {t : S.Tag} {p c : Entity}
    (hok : ((Store.prependChild t p c).run s).result = .ok ()) :
    let s₁ := ((Store.prependChild t p c).run s).state
    let removed := (Store.removeChild t p c).run s₁
    let detached := (Store.detachChild t c).run s₁
    removed.result = .ok true ∧ s.Restored t removed.state ∧
      detached.result = .ok true ∧ s.Restored t detached.state := by
  obtain ⟨hs, hG⟩ := h.shows
  obtain ⟨hs₁, hF₁, hr, hsame⟩ := hs.contents_unlinked (hG t) hok
  have hmem : c ∈ (G t).prepend p c p := by simp [Forest.prepend]
  have hrestored := hs.restored (Store.lays_prependChild t p c s)
    (Store.lifts_removeChild t p c _) hsame fun d hd => hF₁.contains_of_mem hmem hd
  have hdetach := hs₁.run_detachChild_of_parent (hF₁.parent?_eq hmem)
  intro s₁ removed detached
  exact ⟨hr, hrestored, (congrArg Outcome.result hdetach).trans hr,
    (congrArg Outcome.state hdetach).symm ▸ hrestored⟩

/-- Two families are there, and the parent of one becomes a child in the other for a while. -/
theorem History.Leads.unlinking_restores_families :
    ∃ (H : History Schema.sample) (s : Store Schema.sample) (G : Forests Schema.sample),
      H.Leads s G ∧ s.listChildren () ⟨0, 0⟩ = .ok [⟨1, 0⟩] ∧
      s.listChildren () ⟨2, 0⟩ = .ok [⟨3, 0⟩] ∧
      ((Store.prependChild () ⟨1, 0⟩ ⟨2, 0⟩).run s).result = .ok () ∧
      s.Restored () ((Store.removeChild () ⟨1, 0⟩ ⟨2, 0⟩).run
        ((Store.prependChild () ⟨1, 0⟩ ⟨2, 0⟩).run s).state).state := by
  have hrun : History.Leads (S := Schema.sample) _ _ _ :=
    ((((((History.Leads.new.step (.call .create) trivial).step (.call .create) trivial).step
      (.call .create) trivial).step (.call .create) trivial).step
      (.prependChild () ⟨0, 0⟩ ⟨1, 0⟩) trivial).step
      (.prependChild () ⟨2, 0⟩ ⟨3, 0⟩) trivial)
  refine ⟨_, _, _, hrun, rfl, rfl, rfl, ?_⟩
  exact (hrun.unlinking_restores (p := ⟨1, 0⟩) (c := ⟨2, 0⟩) rfl).2.1

end EntityStore
