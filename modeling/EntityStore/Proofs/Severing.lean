import EntityStore.Proofs.Examination
import EntityStore.Proofs.Stalling

/-!
# Destruction without unlinking

A destruction takes an entity and its own values, and leaves the links of others alone.  So an
entity that is destroyed while it is linked leaves links that lead to it: those of its children and
the list of its parent.

After a disciplined history the damage is confined to these (`Store.Severs`).  An examination finds
the broken list, and reports the former parent and nobody else.  What it cannot see are the former
children.  They go on naming the dead parent, and they can neither be unlinked nor linked anew.
-/

namespace EntityStore

open EntityStore.Action

variable {S : Schema} {s s' : Store S} {t : S.Tag} {F : Forest} {c e p q x : Entity}
  {d : Component S} {l r : List Entity} {H : History S} {G : Forests S}

namespace Store

/-! ## The store after a release -/

/-- A store holds what another one held, without an entity and its values. -/
structure Releases (s : Store S) (e : Entity) (s' : Store S) : Prop where
  /-- The store that is left is sound. -/
  sound : s'.Sound
  /-- It has the same contents otherwise. -/
  contents : s'.contents = s.contents.release e

/-- A live entity can be destroyed. -/
theorem Sound.releases (h : s.Sound) (he : s.valid e = true) :
    ((destroy e).run s).result = .ok () ∧ s.Releases e ((destroy e).run s).state := by
  obtain ⟨hresult, hsound, hcontents⟩ := settles_destroy_of_live he s h rfl
  exact ⟨hresult, hsound.state, hcontents⟩

namespace Releases

theorem valid_self (h : s.Releases e s') : s'.valid e = false := by
  rw [← live_contents, h.contents, Contents.live_release_self]

theorem valid_of_ne (h : s.Releases e s') (hx : x ≠ e) : s'.valid x = s.valid x := by
  rw [← live_contents, h.contents, Contents.live_release_of_ne hx, live_contents]

theorem ne_of_valid (h : s.Releases e s') (hx : s'.valid x = true) : x ≠ e := by
  rintro rfl
  rw [h.valid_self] at hx
  cases hx

/-- The released entity dies, and no other one does. -/
theorem valid_iff (h : s.Releases e s') : s'.valid x = true ↔ x ≠ e ∧ s.valid x = true := by
  constructor
  · intro hx
    have hne := h.ne_of_valid hx
    exact ⟨hne, h.valid_of_ne hne ▸ hx⟩
  · rintro ⟨hne, hx⟩
    rwa [h.valid_of_ne hne]

/-- The handle that was released can no longer be asked about. -/
theorem not_askable (h : s.Releases e s') (hs : s.Sound) (he : s.valid e = true) :
    ¬ s'.Askable e :=
  not_or.2 ⟨Bool.eq_false_iff.1 h.valid_self, hs.ne_null he⟩

/-- No other entity loses a value. -/
theorem lookup?_of_ne (h : s.Releases e s') (hx : x ≠ e) : s'.lookup? x d = s.lookup? x d := by
  rw [← value?_contents, h.contents, Contents.value?_release_of_ne hx, value?_contents]

theorem parentOf?_eq (h : s.Releases e s') (hs : s.Sound) (hx : s'.valid x = true) :
    s'.parentOf? t x = s.parentOf? t x := by
  obtain ⟨hne, hvalid⟩ := h.valid_iff.1 hx
  rw [h.sound.parentOf?_eq (.inl hx), hs.parentOf?_eq (.inl hvalid), h.lookup?_of_ne hne]

end Releases

/-! ## What is found -/

/-- Where links show a forest, the list of a parent is well linked as far as it is followed. -/
theorem Shows.stretch (hF : s.Shows t F) (hs : s.Sound) (hsplit : F p = l ++ r) :
    s.Stretch t p ((F p).head?.getD .null) l (r.head?.getD .null) where
  nodup := (List.nodup_append.1 (hsplit ▸ Links.Shows.nodup hF p)).1
  live c hc := (hF.live_ne_null hs c (hsplit ▸ List.mem_append_left r hc)).symm
  parent c hc := hF.parent?_eq (hsplit ▸ List.mem_append_left r hc)
  threaded := (threaded_append.1 (hsplit ▸ Links.Shows.threaded hF p)).1
  head := by
    rw [hsplit]
    cases l <;> rfl

namespace Releases

variable (h : s.Releases e s') (hs : s.Sound) (hF : s.Shows t F)

include h

/-- A stretch of a list without the entity stays well linked. -/
theorem stretch {first after : Entity} (hl : s.Stretch t p first l after) (he : e ∉ l) :
    s'.Stretch t p first l after := by
  have hne : ∀ c ∈ l, c ≠ e := fun c hc => ne_of_mem_of_not_mem hc he
  refine ⟨hl.nodup, fun c hc => ?_, fun c hc => ?_, ?_, hl.head⟩
  · rw [h.valid_of_ne (hne c hc)]
    exact hl.live c hc
  · rw [h.lookup?_of_ne (hne c hc)]
    exact hl.parent c hc
  · exact hl.threaded.congr fun c hc => h.lookup?_of_ne (hne c hc)

include hF

theorem carries_pair (hq : q ≠ e) :
    s'.carries q (.parentLink t) = s'.carries q (.siblingLinks t) := by
  rw [h.sound.carries_eq, h.sound.carries_eq, h.lookup?_of_ne hq, h.lookup?_of_ne hq,
    hF.isSome_siblings?]

/-- The parent of the entity is still live. -/
theorem valid_of_mem (hq : e ∈ F q) : s'.valid q = true := by
  refine h.valid_iff.2 ⟨?_, (hF.valid hq).2⟩
  rintro rfl
  exact Links.Shows.acyclic hF q (.single hq)

include hs

/-- A parent that did not list the entity is as it should be. -/
theorem intact (hq : s'.valid q = true) (he : e ∉ F q) : s'.Intact t q := by
  have hne := h.ne_of_valid hq
  refine ⟨hq, h.carries_pair hF hne, ?_⟩
  rw [h.lookup?_of_ne hne, h.lookup?_of_ne hne, hF.first?_eq, hF.count?_eq]
  by_cases hnil : F q = []
  · exact .inl ⟨headOf_eq_none_iff.2 hnil, countOf_eq_none_iff.2 hnil⟩
  · refine .inr ⟨_, _, F q, headOf_of_ne_nil hnil, if_neg hnil, hnil, ?_, ?_⟩
    · exact h.stretch (hF.stretch hs (List.append_nil _).symm) he
    · have hroom := hF.length_lt_size hs (p := q)
      exact UInt64.toNat_ofNat_of_lt' (by omega)

/-- The parent that listed the entity is found, since the walk along its list comes to the
entity. -/
theorem finding (hq : e ∈ F q) : s'.Finding t q (.deadChild q e) := by
  have hlive := h.valid_of_mem hF hq
  have hne := h.ne_of_valid hlive
  have hnil : F q ≠ [] := List.ne_nil_of_mem hq
  have hhead : s'.lookup? q (.firstChild t) =
      some (⟨(F q).head?.getD .null⟩ : FirstChild) := by
    rw [h.lookup?_of_ne hne, hF.first?_eq]
    exact headOf_of_ne_nil hnil
  have hcount : s'.lookup? q (.childCount t) =
      some (⟨UInt64.ofNat (F q).length⟩ : ChildCount) := by
    rw [h.lookup?_of_ne hne, hF.count?_eq]
    exact if_neg hnil
  obtain ⟨l, r, hsplit, hel⟩ := List.eq_append_cons_of_mem hq
  exact .child hlive (h.carries_pair hF hne) hhead hcount
    (h.stretch (hF.stretch hs hsplit) hel) (hs.ne_null (hF.valid hq).1) (.deadChild h.valid_self)

/-- The entities that are reported are those that listed the entity. -/
theorem examine_isOk_eq (hq : s'.valid q = true) :
    (s'.examine t q).isOk = decide (e ∉ F q) := by
  by_cases he : e ∈ F q
  · rw [examine_of_finding (h.finding hs hF he), decide_eq_false (not_not_intro he)]
    rfl
  · rw [examine_of_intact (h.intact hs hF hq he), decide_eq_true he]
    rfl

/-- A list that did not have the entity is still the same. -/
theorem listChildren_eq (hp : s'.valid p = true) (he : e ∉ F p) :
    s'.listChildren t p = s.listChildren t p := by
  obtain ⟨hne, hvalid⟩ := h.valid_iff.1 hp
  have hthread : Threaded (s'.contents.links t).siblings? .null (F p) .null :=
    (Links.Shows.threaded hF p).congr fun c hc =>
      h.lookup?_of_ne (d := .siblingLinks t) (ne_of_mem_of_not_mem hc he)
  have htrail : Trail (s'.contents.links t).nextOf? ((F p).head?.getD .null) (F p) .null :=
    hthread.trail (h.sound.lookup?_null (d := .siblingLinks t))
  have hbound : (F p).length < s'.listBound t :=
    h.sound.length_lt_listBound (Links.Shows.nodup hF p) fun c hc => hthread.isSome hc
  have hplace : s'.children t p = s.children t p := by
    rw [children, children, h.sound.firstChildOf?_eq (.inl hp), hs.firstChildOf?_eq (.inl hvalid),
      h.sound.childCount_eq (.inl hp), hs.childCount_eq (.inl hvalid), h.lookup?_of_ne hne,
      h.lookup?_of_ne hne]
  rw [hF.listChildren_eq hs (.inl hvalid), listChildren, hplace, hF.children_eq hs (.inl hvalid)]
  exact h.sound.listFrom_eq htrail h.sound.valid_null hbound

end Releases

/-! ## What is left of the children -/

/-- What is a child already is not linked, and nothing is written before that is known. -/
theorem ends_prependChild_of_isChild (hc : s.isChild t c = .ok true) :
    (prependChild t p c).Ends s fun r s' => (∃ f, r = .error f) ∧ s' = s := by
  refine ends_state_bind ?_
  refine ends_require_bind (fun _ => ⟨⟨_, rfl⟩, rfl⟩) fun _ => ?_
  refine ends_require_bind (fun _ => ⟨⟨_, rfl⟩, rfl⟩) fun _ => ?_
  refine ends_require_bind (fun _ => ⟨⟨_, rfl⟩, rfl⟩) fun _ => ?_
  refine ends_query_bind (fun f _ => ⟨⟨f, rfl⟩, rfl⟩) fun b hb => ?_
  obtain rfl : b = true := Except.ok.inj (hb.symm.trans hc)
  exact ends_query_bind (fun f _ => ⟨⟨f, rfl⟩, rfl⟩) fun _ _ => ⟨⟨_, rfl⟩, rfl⟩

/-- A child of a dead parent names it still.  It can neither be unlinked nor linked anew, and the
attempts change nothing. -/
structure Orphaned (s : Store S) (t : S.Tag) (e c : Entity) : Prop where
  /-- The child is live. -/
  live : s.valid c = true
  /-- It names the dead parent. -/
  parent : s.parentOf? t c = .ok (some e)
  /-- It cannot be unlinked. -/
  detach : ((detachChild t c).run s).result = .error (.refused (.stale e)) ∧
    ((detachChild t c).run s).state = s
  /-- It cannot be linked, under whatever parent. -/
  prepend : ∀ p, (∃ f, ((prependChild t p c).run s).result = .error f) ∧
    ((prependChild t p c).run s).state = s

/-- A child of the released entity still records it, but no question leads from the one to the
other. -/
theorem Releases.orphaned (h : s.Releases e s') (hs : s.Sound) (hF : s.Shows t F)
    (hc : c ∈ F e) : s'.Orphaned t e c := by
  obtain ⟨hvalid, he⟩ := hF.valid hc
  have hne : c ≠ e := by
    rintro rfl
    exact Links.Shows.acyclic hF c (.single hc)
  have hlive : s'.valid c = true := h.valid_iff.2 ⟨hne, hvalid⟩
  have hparent : s'.lookup? c (.parentLink t) = some (⟨e⟩ : ParentLink) := by
    rw [h.lookup?_of_ne hne]
    exact hF.parent?_eq hc
  have hchild : s'.isChild t c = .ok true := by
    rw [h.sound.isChild_eq (.inl hlive), hparent]
    · rfl
    · rw [h.lookup?_of_ne hne, h.lookup?_of_ne hne, hF.isSome_siblings?]
  have hedge := hasEdge_of_not_askable (t := t) (h.not_askable hs he) (h.sound.ne_null hlive)
  refine ⟨hlive, ?_, ?_, fun p => ends_prependChild_of_isChild hchild⟩
  · rw [h.sound.parentOf?_eq (.inl hlive), hparent]
    rfl
  · rw [h.sound.run_detachChild_of_parent hparent]
    exact run_removeChild_of_hasEdge hedge nofun

/-! ## The whole damage -/

/-- What the destruction of a linked entity `e` does to one hierarchy of a store, where it leaves
the store `s'`. -/
structure Severs (s : Store S) (t : S.Tag) (e : Entity) (s' : Store S) : Prop where
  /-- The entity is dead, and every other one is live if it was. -/
  live : ∀ x, s'.valid x = true ↔ x ≠ e ∧ s.valid x = true
  /-- The former parent is found to have a dead child. -/
  found : ∀ q, s.parentOf? t e = .ok (some q) → s'.examine t q = .error (.deadChild q e)
  /-- Nothing is wrong with any other live entity, the former children included. -/
  unseen : ∀ q, s'.valid q = true → s.parentOf? t e ≠ .ok (some q) → s'.examine t q = .ok ()
  /-- So one live entity is reported if there was a parent, and none otherwise. -/
  reported : ∃ o, s.parentOf? t e = .ok o ∧
    s'.entities.filter (fun q => !(s'.examine t q).isOk) = o.toList
  /-- The former children are stuck. -/
  orphaned : ∀ c, s.parentOf? t c = .ok (some e) → s'.Orphaned t e c
  /-- No live entity has another parent than before. -/
  parent : ∀ x, s'.valid x = true → s'.parentOf? t x = s.parentOf? t x
  /-- No live entity has other children than before, except for the former parent. -/
  children : ∀ p, s'.valid p = true → s.parentOf? t e ≠ .ok (some p) →
    s'.listChildren t p = s.listChildren t p

/-- The release of any live entity cuts all that the forest shows of it. -/
theorem Releases.severs (h : s.Releases e s') (hs : s.Sound) (hF : s.Shows t F)
    (he : s.valid e = true) : s.Severs t e s' := by
  have hparent : ∀ {c q}, s.valid c = true → (s.parentOf? t c = .ok (some q) ↔ c ∈ F q) := by
    intro c q hc
    obtain ⟨o, ho, hiff⟩ := hF.exists_parentOf? hs (.inl hc)
    rw [ho, Except.ok.injEq, hiff]
  obtain ⟨o, ho, hiff⟩ := hF.exists_parentOf? hs (.inl he)
  constructor
  case live => exact fun x => h.valid_iff
  case found => exact fun q hq => examine_of_finding (h.finding hs hF ((hparent he).1 hq))
  case unseen =>
    exact fun q hq hnot => examine_of_intact (h.intact hs hF hq (mt (hparent he).2 hnot))
  case reported =>
    refine ⟨o, ho, ?_⟩
    -- no entity is listed twice, so it is enough to say which ones are reported
    have hmem : ∀ q, q ∈ s'.entities.filter (fun q => !(s'.examine t q).isOk) ↔
        q ∈ o.toList := by
      intro q
      rw [List.mem_filter, Option.mem_toList, hiff, entities, h.sound.slots.mem_entities_iff]
      constructor
      · rintro ⟨hq, hreport⟩
        simpa [h.examine_isOk_eq hs hF hq] using hreport
      · intro hq
        have hvalid := h.valid_of_mem hF hq
        exact ⟨hvalid, by simpa [h.examine_isOk_eq hs hF hvalid] using hq⟩
    have hperm := (List.perm_ext_iff_of_nodup (h.sound.slots.nodup_entities.filter _)
      (by cases o <;> simp)).2 hmem
    cases o with
    | none => exact List.perm_nil.1 hperm
    | some q => exact List.perm_singleton.1 hperm
  case orphaned =>
    intro c hc
    by_cases hask : s.Askable c
    · obtain ⟨o, ho, hiff⟩ := hF.exists_parentOf? hs hask
      exact h.orphaned hs hF ((hiff e).1 (Except.ok.inj (ho.symm.trans hc)))
    · rw [parentOf?_of_not_askable hask] at hc
      cases hc
  case parent => exact fun x hx => h.parentOf?_eq hs hx
  case children =>
    exact fun p hp hnot => h.listChildren_eq hs hF hp (mt (hparent he).2 hnot)

end Store

/-- After a disciplined history, the destruction of a live entity that was not unlinked before
damages every hierarchy in this way only. -/
theorem History.Leads.destruction_severs (h : H.Leads s G) (he : s.valid e = true) (t : S.Tag) :
    ((Store.destroy e).run s).result = .ok () ∧
      s.Severs t e ((Store.destroy e).run s).state := by
  obtain ⟨hs, hG⟩ := h.shows
  obtain ⟨hresult, hreleases⟩ := hs.releases he
  exact ⟨hresult, hreleases.severs hs (hG t) he⟩

/-- The second of three children is destroyed, and leaves a child of its own. -/
theorem History.Leads.destruction_severs_middle :
    ∃ (H : History Schema.sample) (s : Store Schema.sample) (G : Forests Schema.sample),
      H.Leads s G ∧ s.valid ⟨2, 0⟩ = true ∧ s.parentOf? () ⟨2, 0⟩ = .ok (some ⟨0, 0⟩) ∧
      s.listChildren () ⟨0, 0⟩ = .ok [⟨3, 0⟩, ⟨2, 0⟩, ⟨1, 0⟩] ∧
      s.listChildren () ⟨2, 0⟩ = .ok [⟨4, 0⟩] ∧
      s.Severs () ⟨2, 0⟩ ((Store.destroy ⟨2, 0⟩).run s).state := by
  have hnew : History.Leads (S := Schema.sample) _ _ _ :=
    ((((History.Leads.new.step (.call .create) trivial).step (.call .create) trivial).step
      (.call .create) trivial).step (.call .create) trivial).step (.call .create) trivial
  have hrun : History.Leads (S := Schema.sample) _ _ _ :=
    (((hnew.step (.prependChild () ⟨0, 0⟩ ⟨1, 0⟩) trivial).step
      (.prependChild () ⟨0, 0⟩ ⟨2, 0⟩) trivial).step
      (.prependChild () ⟨0, 0⟩ ⟨3, 0⟩) trivial).step (.prependChild () ⟨2, 0⟩ ⟨4, 0⟩) trivial
  exact ⟨_, _, _, hrun, rfl, rfl, rfl, rfl, (hrun.destruction_severs rfl ()).2⟩

end EntityStore
