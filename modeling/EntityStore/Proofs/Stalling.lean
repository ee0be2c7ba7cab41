import EntityStore.Proofs.Roaming

/-!
# Removals that stop half-way

The removal of a child writes to its neighbours and to its parent before it writes to the child.
Where one of them was destroyed while it was linked, the removal fails.  A dead parent and a dead
neighbour before the child are met by the first write, so nothing is written then.  The neighbour
after the child is met by the second write.  Where that one is dead, the link that led to the child
leads past it already (`Store.Stalls`).

After a roaming history this is the only way in which a removal that fails leaves a trace
(`History.Takes.fails_whole_or_stalls`).
-/

namespace EntityStore

open EntityStore.Action Contents

variable {S : Schema} {s : Store S} {t : S.Tag} {H : History S} {m : Contents S} {L : Links}
  {past : Entity → Prop} {p c u n : Entity}

namespace Store

/-- A child of a live parent has the neighbours `u` and `n`, and the one after it is dead. -/
structure Stub (s : Store S) (t : S.Tag) (p c u n : Entity) : Prop where
  /-- The parent is live. -/
  parent_live : s.valid p = true
  /-- The child names the parent. -/
  parent : s.lookup? c (.parentLink t) = some (⟨p⟩ : ParentLink)
  /-- The neighbours of the child. -/
  siblings : s.lookup? c (.siblingLinks t) = some ({ next := n, prev := u } : SiblingLinks)
  /-- The child does not come last. -/
  next_ne : n ≠ .null
  /-- The neighbour after the child is dead. -/
  next_dead : s.valid n = false

/-- What a store holds after the removal of a child stopped half-way.  One link is different: the
one that led to the child leads to the dead neighbour after it. -/
inductive Stalls (s : Store S) (t : S.Tag) (p c : Entity) : Contents S → Prop where
  /-- The child comes first, so the link is that of the parent. -/
  | first {n : Entity} (hc : s.Stub t p c .null n)
      (hfirst : s.lookup? p (.firstChild t) = some (⟨c⟩ : FirstChild)) :
      Stalls s t p c (s.contents.assign p (.firstChild t) (some (⟨n⟩ : FirstChild)))
  /-- The child comes later, so the link is that of the neighbour before it. -/
  | later {u n w : Entity} (hc : s.Stub t p c u n)
      (hbefore : s.lookup? u (.siblingLinks t) =
        some ({ next := c, prev := w } : SiblingLinks)) :
      Stalls s t p c (s.contents.assign u (.siblingLinks t)
        (some ({ next := n, prev := w } : SiblingLinks)))

theorem Stalls.parent (hm : s.Stalls t p c m) :
    s.lookup? c (.parentLink t) = some (⟨p⟩ : ParentLink) := by
  cases hm with
  | first hc => exact hc.parent
  | later hc => exact hc.parent

/-! ## From links to values -/

/-- A parent that is led past its first child has another first child. -/
theorem relink_bypass_first (hnull : (s.contents.links t).siblings? .null = none) :
    s.contents.relink t ((s.contents.links t).bypass p .null n) =
      s.contents.assign p (.firstChild t) (some (⟨n⟩ : FirstChild)) := by
  have hassign := relink_assign_firstChild (m := s.contents) (t := t) (e := p)
    (L := s.contents.links t) (some ⟨n⟩)
  rw [relink_links] at hassign
  rw [hassign, Links.bypass, if_pos rfl, setNext_of_eq_none hnull]

/-- An entity that is led past its neighbour has another neighbour. -/
theorem relink_bypass_later {v : SiblingLinks} (hu : u ≠ .null)
    (hv : s.lookup? u (.siblingLinks t) = some v) :
    s.contents.relink t ((s.contents.links t).bypass p u n) =
      s.contents.assign u (.siblingLinks t) (some ({ v with next := n } : SiblingLinks)) := by
  have hassign := relink_assign_siblingLinks (m := s.contents) (t := t) (e := u)
    (L := s.contents.links t) (some { v with next := n })
  have hold : (s.contents.links t).siblings? u = some v := hv
  rw [relink_links] at hassign
  rw [hassign, Links.bypass, if_neg hu, setNext, hold, Option.map_some]

section

variable (hF : s.Frayed t)
include hF

/-- A stub is a child between two neighbours of which the second is past. -/
theorem Stub.between (hc : s.Stub t p c u n)
    (hentry : u = .null ∧ (s.contents.links t).headOf? p = some c ∨
      u ≠ .null ∧ s.valid u = true) :
    (s.contents.links t).Between s.valid p c u n ∧ s.allocator.Past n := by
  have hnext : (s.contents.links t).nextOf? c = some n :=
    congrArg (Option.map SiblingLinks.next) hc.siblings
  have hprev : (s.contents.links t).prevOf? c = some u :=
    congrArg (Option.map SiblingLinks.prev) hc.siblings
  refine ⟨⟨Links.parentOf?_eq_some_iff.2 hc.parent, hprev, hnext, hentry⟩, ?_⟩
  rcases Links.Frayed.next hF c n hnext with hnull | hpast | ⟨hback, -⟩
  · exact absurd hnull hc.next_ne
  · exact hpast
  · have hlive := Links.Frayed.live_of_prevOf? hF hback
    rw [hc.next_dead] at hlive
    cases hlive

/-- What leads to a child whose neighbour after it is past leads past it, after the removal, or it
did before. -/
theorem stalls_of_between (hp : s.valid p = true)
    (hc : (s.contents.links t).Between s.valid p c u n) (hn : s.allocator.Past n) :
    s.contents.relink t ((s.contents.links t).bypass p u n) = s.contents ∨
      s.Stalls t p c (s.contents.relink t ((s.contents.links t).bypass p u n)) := by
  have hstub : s.Stub t p c u n :=
    { parent_live := hp
      parent := Links.parentOf?_eq_some_iff.1 hc.parent
      siblings := hc.siblings?_eq
      next_ne := fun hnull => Links.Frayed.null_new hF (hnull ▸ hn)
      next_dead := Links.Frayed.past_dead hF n hn }
  rcases hc.entry with ⟨rfl, hhead⟩ | ⟨hne, hlive⟩
  · have hnull : (s.contents.links t).siblings? .null = none :=
      Option.map_eq_none_iff.1 (Links.Frayed.nextOf?_null hF)
    rw [relink_bypass_first hnull]
    exact .inr (.first hstub (Links.headOf?_eq_some_iff.1 hhead))
  · rcases Links.Frayed.prev hF c u hc.prev with hnull | hpast | ⟨-, hback⟩
    · exact absurd hnull hne
    · exact absurd hpast (Links.Frayed.not_past hF hlive)
    · rcases hback with hon | ⟨x, -, hon, hnext⟩
      · obtain ⟨⟨_, w⟩, hw, rfl⟩ := Option.map_eq_some_iff.1 hon
        rw [relink_bypass_later hne hw]
        exact .inr (.later hstub hw)
      · -- an earlier removal of the child stopped here already
        obtain rfl : x = n := Option.some.inj (hnext.symm.trans hc.next)
        obtain ⟨⟨_, w⟩, hw, rfl⟩ := Option.map_eq_some_iff.1 hon
        rw [relink_bypass_later hne hw]
        exact .inl (assign_eq_self hw)

end

/-! ## Removals that fail -/

/-- A removal stops half-way where the neighbour after the child is past. -/
theorem settles_removeChild_of_past (hL : L.Frayed m.live past) (hp : m.live p = true)
    (hc : L.Between m.live p c u n) (hn : past n) :
    (removeChild t p c).Settles (m.relink t L) (.error (.refused (.stale n)))
      (m.relink t (L.bypass p u n)) := by
  have hget := settles_get_of_some (m := m.relink t L) (c := .siblingLinks t)
    (hL.child_live c p hc.parent) (siblingLinks_relink.trans hc.siblings?_eq)
  refine (settles_hasEdge_of_parentOf? hL hp hc.parent).bind ?_
  rw [if_pos rfl]
  exact hget.bind ((settles_closeBefore_of_between hL hp hc).bind
    (settles_closeAfter_of_past (hL.stall hc hn) hn))

section

variable (hs : s.Sound) (hF : s.Frayed t)
include hs hF

/-- A removal that fails changes nothing or stops half-way. -/
theorem stalls_of_removeChild_error {f : Fault}
    (hf : ((removeChild t p c).run s).result = .error f) :
    ((removeChild t p c).run s).state.contents = s.contents ∨
      s.Stalls t p c ((removeChild t p c).run s).state.contents := by
  have hend := ends_removeChild (p := p) (c := c) hs (relink_links (t := t)).symm hF
  unfold Ends at hend
  rcases hend with ⟨-, hm⟩ | ⟨_, _, _, -, -, -, -, hok, -⟩ | ⟨u, n, hc, hn, hp, -, hm⟩
  · exact .inl (hm.trans relink_links)
  · rw [hok] at hf
    cases hf
  · rw [hm]
    exact stalls_of_between hF hp hc hn

/-- Where a removal can stop half-way, it does. -/
theorem Stalls.run_removeChild (hm : s.Stalls t p c m) :
    (∃ f, ((removeChild t p c).run s).result = .error f) ∧
      ((removeChild t p c).run s).state.contents = m := by
  have hrun : ∀ {u n}, (s.contents.links t).Between s.valid p c u n → s.allocator.Past n →
      s.valid p = true → (∃ f, ((removeChild t p c).run s).result = .error f) ∧
        ((removeChild t p c).run s).state.contents =
          s.contents.relink t ((s.contents.links t).bypass p u n) := by
    intro u n hc hn hp
    have hsettles := settles_removeChild_of_past (m := s.contents) (t := t) hF hp hc hn
    rw [relink_links] at hsettles
    obtain ⟨hr, -, hm⟩ := hsettles s hs rfl
    exact ⟨⟨_, hr⟩, hm⟩
  cases hm with
  | @first n hc hfirst =>
    obtain ⟨hbetween, hn⟩ :=
      hc.between hF (.inl ⟨rfl, Links.headOf?_eq_some_iff.2 hfirst⟩)
    have hnull : (s.contents.links t).siblings? .null = none :=
      Option.map_eq_none_iff.1 (Links.Frayed.nextOf?_null hF)
    rw [← relink_bypass_first hnull]
    exact hrun hbetween hn hc.parent_live
  | @later u n w hc hbefore =>
    have hlive : s.valid u = true := hs.valid_of_lookup? hbefore
    have hne := hs.ne_null hlive
    obtain ⟨hbetween, hn⟩ := hc.between hF (.inr ⟨hne, hlive⟩)
    rw [← relink_bypass_later (p := p) hne hbefore]
    exact hrun hbetween hn hc.parent_live

end

/-- A detachment is the removal of the child from the parent that it names. -/
theorem Sound.run_detachChild_of_parent (hs : s.Sound)
    (hparent : s.lookup? c (.parentLink t) = some (⟨p⟩ : ParentLink)) :
    (detachChild t c).run s = (removeChild t p c).run s := by
  have howner : s.parentOf? t c = .ok (some p) := by
    rw [hs.parentOf?_eq (.inl (hs.valid_of_lookup? hparent)), hparent]
    rfl
  simp [detachChild, run_bind, howner]

/-- A detachment of what names no parent leaves the store alone. -/
theorem Sound.state_detachChild_of_root (hs : s.Sound)
    (hroot : s.lookup? c (.parentLink t) = none) : ((detachChild t c).run s).state = s := by
  by_cases hc : s.Askable c
  · have howner : s.parentOf? t c = .ok none := by
      rw [hs.parentOf?_eq hc, hroot]
      rfl
    simp [detachChild, run_bind, howner]
  · exact (run_detachChild_of_not_askable hc).2

end Store

/-- After a roaming history, the removal of a child and its detachment change nothing where they
fail, unless they stop half-way: the child is followed by a dead entity, and then the one link that
led to the child leads to that entity. -/
theorem History.Takes.fails_whole_or_stalls (h : Takes Op.Roams {} H s) (t : S.Tag)
    (p c : Entity) :
    ((∀ f, ((Store.removeChild t p c).run s).result = .error f →
        ((Store.removeChild t p c).run s).state.contents = s.contents ∨
          s.Stalls t p c ((Store.removeChild t p c).run s).state.contents) ∧
      ∀ m, s.Stalls t p c m →
        (∃ f, ((Store.removeChild t p c).run s).result = .error f) ∧
          ((Store.removeChild t p c).run s).state.contents = m) ∧
    (∀ f, ((Store.detachChild t c).run s).result = .error f →
      ((Store.detachChild t c).run s).state.contents = s.contents ∨
        ∃ q, s.Stalls t q c ((Store.detachChild t c).run s).state.contents) ∧
    ∀ q m, s.Stalls t q c m →
      (∃ f, ((Store.detachChild t c).run s).result = .error f) ∧
        ((Store.detachChild t c).run s).state.contents = m := by
  obtain ⟨hs, hF⟩ := h.frayed (t := t) Store.sound_empty Store.frayed_new
  refine ⟨⟨fun f => Store.stalls_of_removeChild_error hs hF,
    fun m => Store.Stalls.run_removeChild hs hF⟩, fun f hf => ?_, fun q m hm => ?_⟩
  · cases hparent : s.lookup? c (.parentLink t) with
    | none => exact .inl (congrArg Store.contents (hs.state_detachChild_of_root hparent))
    | some link =>
      obtain ⟨q⟩ := link
      rw [hs.run_detachChild_of_parent hparent] at hf ⊢
      exact (Store.stalls_of_removeChild_error hs hF hf).imp_right fun hm => ⟨q, hm⟩
  · rw [hs.run_detachChild_of_parent hm.parent]
    exact hm.run_removeChild hs hF

/-- The last of three children was destroyed, so the removal of the second one stops half-way: the
first one leads to the last one now.  The detachment of the last one fails and changes nothing. -/
theorem History.Takes.fails_whole_or_stalls_later :
    ∃ (H : History Schema.sample) (s : Store Schema.sample), Takes Op.Roams {} H s ∧
      ((Store.removeChild () ⟨0, 0⟩ ⟨2, 0⟩).run s).state.contents =
        s.contents.assign ⟨3, 0⟩ (.siblingLinks ()) (some ({ next := ⟨1, 0⟩ } : SiblingLinks)) ∧
      ((Store.detachChild () ⟨1, 0⟩).run s).state.contents = s.contents := by
  have hnew : Takes (S := Schema.sample) Op.Roams {} _ _ :=
    (((Takes.start.step (.call .create) Op.roams_create).step (.call .create)
      Op.roams_create).step (.call .create) Op.roams_create).step (.call .create) Op.roams_create
  have hrun : Takes (S := Schema.sample) Op.Roams {} _ _ :=
    (((hnew.step (.prependChild () ⟨0, 0⟩ ⟨1, 0⟩) (Op.roams_of_tag? rfl)).step
      (.prependChild () ⟨0, 0⟩ ⟨2, 0⟩) (Op.roams_of_tag? rfl)).step
      (.prependChild () ⟨0, 0⟩ ⟨3, 0⟩) (Op.roams_of_tag? rfl)).step
      (.call (.destroy ⟨1, 0⟩)) (Op.roams_destroy (by decide))
  obtain ⟨⟨-, hstalls⟩, -⟩ := hrun.fails_whole_or_stalls () ⟨0, 0⟩ ⟨2, 0⟩
  obtain ⟨-, hfails, -⟩ := hrun.fails_whole_or_stalls () ⟨0, 0⟩ ⟨1, 0⟩
  refine ⟨_, _, hrun, (hstalls _ (.later ?_ ?_)).2, ?_⟩
  · exact ⟨rfl, rfl, rfl, by decide, rfl⟩
  · rfl
  · rcases hfails _ rfl with hsame | ⟨q, hstall⟩
    · exact hsame
    · cases hstall.parent

/-- The second of three children was destroyed.  The removal of the first one fails, and not every
value is what it was: the parent has the destroyed entity for its first child. -/
theorem History.Takes.not_fails_whole :
    ∃ (H : History Schema.sample) (s : Store Schema.sample), Takes Op.Roams {} H s ∧
      ((Store.removeChild () ⟨0, 0⟩ ⟨3, 0⟩).run s).result =
        .error (.refused (.stale ⟨2, 0⟩)) ∧
      s.lookup? ⟨0, 0⟩ (.firstChild ()) = some (⟨⟨3, 0⟩⟩ : FirstChild) ∧
      ((Store.removeChild () ⟨0, 0⟩ ⟨3, 0⟩).run s).state.lookup? ⟨0, 0⟩ (.firstChild ()) =
        some (⟨⟨2, 0⟩⟩ : FirstChild) := by
  have hnew : Takes (S := Schema.sample) Op.Roams {} _ _ :=
    (((Takes.start.step (.call .create) Op.roams_create).step (.call .create)
      Op.roams_create).step (.call .create) Op.roams_create).step (.call .create) Op.roams_create
  have hrun : Takes (S := Schema.sample) Op.Roams {} _ _ :=
    (((hnew.step (.prependChild () ⟨0, 0⟩ ⟨1, 0⟩) (Op.roams_of_tag? rfl)).step
      (.prependChild () ⟨0, 0⟩ ⟨2, 0⟩) (Op.roams_of_tag? rfl)).step
      (.prependChild () ⟨0, 0⟩ ⟨3, 0⟩) (Op.roams_of_tag? rfl)).step
      (.call (.destroy ⟨2, 0⟩)) (Op.roams_destroy (by decide))
  exact ⟨_, _, hrun, rfl, rfl, rfl⟩

end EntityStore
