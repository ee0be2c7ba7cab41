import EntityStore.Proofs.Clearing
import EntityStore.Proofs.Fraying
import EntityStore.Proofs.Issuing
import EntityStore.Proofs.Runs

/-!
# Edits of damaged hierarchies

A hierarchy is damaged when linked entities were destroyed, or when an edit failed half-way because
of that.  Its links are frayed then (`Links.Frayed`).

An edit of frayed links does one of the few things that leave frayed links: it links a new first
child (`ends_prependChild`), or it takes edges away (`ends_removeChild_wears` and those after it).
The walks that it takes before it writes all end, since a list of children on frayed links comes to
a loose end (`exists_trail`).
-/

namespace EntityStore.Store

open EntityStore.Action Contents

variable {S : Schema} {s : Store S} {m : Contents S} {t : S.Tag} {L : Links}
  {past : Entity → Prop} {p c e h n u x : Entity} {k : ChildCount}

/-! ## Linking -/

/-- The first child of a parent, if there is one, is led back to a new child.  If it is dead, this
fails, and nothing changes. -/
theorem ends_linkBefore (hs : s.Sound) (hm : s.contents = m.relink t L)
    (hL : L.Frayed m.live past) :
    (linkBefore t c (L.headOf? p)).Ends s fun r s' =>
      (∃ f, r = .error f) ∧ s' = s ∧ (∃ h, L.headOf? p = some h ∧ m.live h = false) ∨
      r = .ok () ∧ s'.Sound ∧ ∃ h,
        (L.headOf? p = none ∧ h = .null ∨ L.headOf? p = some h ∧ m.live h = true) ∧
        s'.contents = m.relink t { L with siblings? := setPrev L.siblings? h c } := by
  cases hhead : L.headOf? p with
  | none =>
    have hnull : L.siblings? .null = none := Option.map_eq_none_iff.1 hL.nextOf?_null
    refine .inr ⟨rfl, hs, .null, .inl ⟨rfl, rfl⟩, ?_⟩
    rw [setPrev_of_eq_none hnull]
    exact hm
  | some h =>
    cases hlive : m.live h with
    | false =>
      refine ends_query_bind (fun f _ => .inl ⟨⟨f, rfl⟩, rfl, h, rfl, hlive⟩) fun v hget => ?_
      have hv := (get_eq_ok_iff.1 hget).1
      rw [valid_of_contents hm, hlive] at hv
      cases hv
    | true =>
      -- a live first child names the parent and comes first
      obtain ⟨hfirst, -⟩ : L.prevOf? h = some .null ∧ L.parentOf? h = some p :=
        ((hL.head p h hhead).resolve_left (hL.ne_null hlive)).resolve_left (hL.not_past hlive)
      obtain ⟨v, hv, hprev⟩ := Option.map_eq_some_iff.1 hfirst
      have hget := settles_get_of_some (m := m.relink t L) (c := .siblingLinks t) hlive
        (siblingLinks_relink.trans hv)
      refine (hget.bind ((settles_require (by rw [hprev]; rfl) _).bind
        ((settles_setPrev hlive hv).bind (settles_pure ())))).ends hs hm fun s' hs' hm' => ?_
      exact .inr ⟨rfl, hs', h, .inr ⟨rfl, hlive⟩, hm'⟩

/-- The writes that make a child the first one, up to the number of children. -/
theorem settles_join (hL : L.Frayed m.live past) (hl : L.Linkable m.live p c h)
    {r : Except Fault Unit} {L' : Links}
    (hcount : (countUp t p).Settles (m.relink t (L.join p c h)) r (m.relink t L')) :
    (do
      let _ ← attach c (.parentLink t) (⟨p⟩ : ParentLink)
      let _ ← attach c (.siblingLinks t) ({ next := (L.headOf? p).getD .null } : SiblingLinks)
      let _ ← attachOrReplace p (.firstChild t) (⟨c⟩ : FirstChild)
      countUp t p : Action (Store S) Fault Unit).Settles
        (m.relink t { L with siblings? := setPrev L.siblings? h c }) r (m.relink t L') := by
  have hhead : (L.headOf? p).getD .null = h := by
    rcases hl.head with ⟨hnone, hnull⟩ | ⟨hsome, -⟩
    · rw [hnone, hnull]
      rfl
    · rw [hsome]
      rfl
  have hroot : L.parent? c = none := Option.map_eq_none_iff.1 hl.root
  have hfree : setPrev L.siblings? h c c = none := by
    rw [← Option.not_isSome_iff_eq_none, isSome_setPrev, hL.linked, hroot]
    simp
  rw [hhead]
  refine Settles.bind (settles_attach_of_none hl.child_live (parentLink_relink.trans hroot)) ?_
  rw [relink_assign_parentLink]
  refine Settles.bind (settles_attach_of_none hl.child_live (siblingLinks_relink.trans hfree)) ?_
  rw [relink_assign_siblingLinks]
  refine Settles.bind (settles_attachOrReplace_of_live hl.parent_live) ?_
  rw [relink_assign_firstChild]
  exact hcount

/-- A new edge is refused before anything is written, or the child becomes the first one.  In the
second case the number of children may already be the greatest there is, and then it stays. -/
theorem ends_prependChild (hs : s.Sound) (hm : s.contents = m.relink t L)
    (hL : L.Frayed m.live past) :
    (prependChild t p c).Ends s fun r s' =>
      (∃ f, r = .error f) ∧ s' = s ∧ (∀ h, ¬ L.Linkable m.live p c h) ∨
      ∃ h k, L.Linkable m.live p c h ∧ s'.contents = m.relink t (L.link p c h k) ∧
        (r = .ok () ∧ k.size.toNat = L.sizeOf p + 1 ∨
          r = .error .countOverflow ∧ k.size.toNat = L.sizeOf p ∧
            UInt64.size ≤ L.sizeOf p + 1) := by
  have hvalid := valid_of_contents hm
  have hlinks : s.contents.links t = L := by rw [hm, links_relink]
  refine ends_state_bind ?_
  refine ends_require_bind (fun hp => .inl ⟨⟨_, rfl⟩, rfl, fun h hl => ?_⟩) fun hp => ?_
  · rw [hvalid, hl.parent_live] at hp
    cases hp
  refine ends_require_bind (fun hc => .inl ⟨⟨_, rfl⟩, rfl, fun h hl => ?_⟩) fun hc => ?_
  · rw [hvalid, hl.child_live] at hc
    cases hc
  refine ends_require_bind (fun hne => .inl ⟨⟨_, rfl⟩, rfl, fun h hl => ?_⟩) fun hne => ?_
  · rw [decide_eq_false_iff_not, not_not] at hne
    exact hl.not_above (hne ▸ .refl)
  have hask : ∀ e, s.valid e = true → s.Askable e := fun e he => .inl he
  have hpair := hL.linked c
  rw [← hlinks] at hpair
  have hchild := hs.isChild_eq (t := t) (hask c hc) hpair
  refine ends_query_bind (fun f hf => ?_) fun b hb => ?_
  · rw [hchild] at hf
    cases hf
  rw [hb, Except.ok.injEq] at hchild
  have hroot : b = (L.parentOf? c).isSome := by
    rw [hchild, Links.isSome_parentOf?, ← hlinks]
    rfl
  split
  · next htrue =>
    have hno : ∀ h, ¬ L.Linkable m.live p c h := by
      intro h hl
      rw [htrue, hl.root] at hroot
      cases hroot
    refine ends_query_bind (fun f _ => .inl ⟨⟨f, rfl⟩, rfl, hno⟩) fun owner _ => ?_
    exact .inl ⟨⟨_, rfl⟩, rfl, hno⟩
  · next hfalse =>
    have hroot : L.parentOf? c = none := by
      rw [← Option.not_isSome_iff_eq_none, ← hroot]
      exact hfalse
    obtain ⟨above, habove, hiff⟩ := hs.isAncestorOf_eq (t := t) (a := c) (hask p hp)
    rw [hlinks] at hiff
    refine ends_query_bind (fun f hf => ?_) fun b' hb' => ?_
    · rw [habove] at hf
      cases hf
    rw [habove, Except.ok.injEq] at hb'
    subst hb'
    refine ends_require_bind (fun hcycle => .inl ⟨⟨_, rfl⟩, rfl, fun h hl => ?_⟩) fun hnot => ?_
    · rw [Bool.not_eq_false'] at hcycle
      exact hl.not_above (hiff.1 hcycle).to_reflTransGen
    have hhead : s.firstChildOf? t p = .ok ((s.contents.links t).headOf? p) :=
      hs.firstChildOf?_eq (hask p hp)
    refine ends_query_bind (fun f hf => ?_) fun first hfirst => ?_
    · rw [hhead] at hf
      cases hf
    rw [hhead, Except.ok.injEq, hlinks] at hfirst
    subst hfirst
    refine ends_bind ((ends_linkBefore hs hm hL).imp ?_)
    rintro r s' (⟨⟨f, rfl⟩, rfl, x, hx, hdead⟩ | ⟨rfl, hs', h, hh, hm'⟩)
    · refine .inl ⟨⟨f, rfl⟩, rfl, fun h hl => ?_⟩
      rcases hl.head with ⟨hnone, -⟩ | ⟨hsome, hlive⟩
      · rw [hnone] at hx
        cases hx
      · obtain rfl := Option.some.inj (hsome.symm.trans hx)
        rw [hlive] at hdead
        cases hdead
    · rw [hvalid] at hp hc
      have hl : L.Linkable m.live p c h :=
        { parent_live := hp
          child_live := hc
          root := hroot
          not_above := fun hreach => by
            rcases Relation.reflTransGen_iff_eq_or_transGen.1 hreach with heq | htrans
            · simp [heq] at hne
            · simp [hiff.2 htrans] at hnot
          head := hh }
      by_cases hroom : L.sizeOf p + 1 < UInt64.size
      · have hup := settles_countUp_of_lt (t := t) (m := m) (L := L.join p c h) hp hroom
        refine (settles_join hL hl hup).ends hs' hm' fun s'' _ hm'' => ?_
        exact .inr ⟨h, _, hl, hm'', .inl ⟨rfl, UInt64.toNat_ofNat_of_lt' hroom⟩⟩
      · have hfull : UInt64.size ≤ L.sizeOf p + 1 := by omega
        have hup := settles_countUp_of_ge (t := t) (m := m) (L := L.join p c h) hp hfull
        obtain ⟨k, hk⟩ : ∃ k, L.count? p = some k := by
          rw [← Option.ne_none_iff_exists']
          intro hnone
          rw [Links.sizeOf, hnone] at hfull
          exact absurd hfull (by decide)
        have hkeep : L.link p c h k = L.join p c h := by
          rw [Links.link, ← hk, Function.update_eq_self]
          rfl
        refine (settles_join hL hl hup).ends hs' hm' fun s'' _ hm'' => ?_
        refine .inr ⟨h, k, hl, by rw [hkeep, hm''], .inr ⟨rfl, ?_, hfull⟩⟩
        exact (Links.sizeOf_of_count? hk).symm

/-! ## Unlinking -/

/-- Where there is an edge, the parent is live and the child names it. -/
theorem Sound.of_hasEdge (h : s.Sound) (hedge : s.hasEdge t p c = .ok true) :
    s.valid p = true ∧ (s.contents.links t).parentOf? c = some p := by
  unfold hasEdge at hedge
  split at hedge
  · cases hedge
  next hnull =>
  obtain ⟨hpn, hcn⟩ : p ≠ .null ∧ c ≠ .null := by
    simpa [Entity.isNull_iff] using hnull
  have hp : s.valid p = true := by
    by_contra hdead
    rw [isParent_of_not_askable fun hask => hdead (hask.resolve_right hpn)] at hedge
    cases hedge
  refine ⟨hp, ?_⟩
  cases hb : s.isParent t p with
  | error f =>
    rw [hb] at hedge
    cases hedge
  | ok b =>
    rw [hb] at hedge
    cases b with
    | false => cases hedge
    | true =>
      change s.isChildOf t p c = .ok true at hedge
      have hc : s.Askable c := by
        by_contra hask
        rw [isChildOf_of_not_askable hask] at hedge
        cases hedge
      have hparent : s.parentOf? t c = .ok ((s.contents.links t).parentOf? c) :=
        h.parentOf?_eq hc
      rw [isChildOf, hparent] at hedge
      exact of_decide_eq_true (Except.ok.inj hedge)

/-- There is an edge where a child names a live parent, since such a parent has a first child. -/
theorem settles_hasEdge_of_parentOf? (hL : L.Frayed m.live past) (hp : m.live p = true)
    (hparent : L.parentOf? c = some p) :
    (query (·.hasEdge t p c)).Settles (m.relink t L) (.ok true) (m.relink t L) := by
  obtain ⟨k, hk⟩ := hL.exists_count hp hparent
  have hcount : (L.count? p).isSome = true := Option.isSome_of_eq_some hk
  exact settles_hasEdge_of_links hp (Links.parentOf?_eq_some_iff.1 hparent)
    ((hL.counted p).symm.trans hcount) hcount

/-- What leads to a child is led past it. -/
theorem settles_closeBefore_of_between (hL : L.Frayed m.live past) (hp : m.live p = true)
    (hc : L.Between m.live p c u n) :
    (closeBefore t p c ⟨n, u⟩).Settles (m.relink t L) (.ok ())
      (m.relink t (L.bypass p u n)) := by
  refine settles_closeBefore (Option.map_eq_none_iff.1 hL.nextOf?_null) hp ?_
  refine hc.entry.imp (And.imp_right Links.headOf?_eq_some_iff.1) fun ⟨hne, hlive⟩ => ?_
  rcases hL.entry hc with ⟨hnull, -⟩ | ⟨-, hu, -⟩
  · exact absurd hnull hne
  · rw [hL.linked, ← Links.isSome_parentOf?, hu]
    exact ⟨hne, hlive, rfl⟩

/-- What leads to a child is led past it, unless it is dead or does not lead to the child. -/
theorem ends_closeBefore {v : SiblingLinks} (hs : s.Sound) (hm : s.contents = m.relink t L)
    (hL : L.Frayed m.live past) (hp : m.live p = true) (hparent : L.parentOf? c = some p)
    (hv : L.siblings? c = some v) :
    (closeBefore t p c v).Ends s fun r s' =>
      (∃ f, r = .error f) ∧ s'.contents = m.relink t L ∨
      r = .ok () ∧ s'.Sound ∧ L.Between m.live p c v.prev v.next ∧
        s'.contents = m.relink t (L.bypass p v.prev v.next) := by
  have hprev : L.prevOf? c = some v.prev := by rw [Links.prevOf?, hv]; rfl
  have hnext : L.nextOf? c = some v.next := by rw [Links.nextOf?, hv]; rfl
  by_cases hc : L.Between m.live p c v.prev v.next
  · refine (settles_closeBefore_of_between hL hp hc).ends hs hm fun s' hs' hm' => ?_
    exact .inr ⟨rfl, hs', hc, hm'⟩
  have hentry : ¬ (v.prev = .null ∧ L.headOf? p = some c ∨
      v.prev ≠ .null ∧ m.live v.prev = true) :=
    fun hentry => hc ⟨hparent, hprev, hnext, hentry⟩
  unfold closeBefore
  split
  · next hnull =>
    rw [Entity.isNull_iff] at hnull
    have hhead : s.firstChildOf? t p = .ok (L.headOf? p) := by
      have hask : s.Askable p := .inl (by rw [valid_of_contents hm]; exact hp)
      rw [hs.firstChildOf?_eq hask, ← value?_contents, hm, firstChild_relink]
      rfl
    refine ends_query_bind (fun f _ => .inl ⟨⟨f, rfl⟩, hm⟩) fun first hfirst => ?_
    refine ends_require_bind (fun _ => .inl ⟨⟨_, rfl⟩, hm⟩) fun hmine => ?_
    rw [hhead, Except.ok.injEq] at hfirst
    exact absurd (.inl ⟨hnull, hfirst.trans (of_decide_eq_true hmine)⟩) hentry
  · next hne =>
    rw [Entity.isNull_iff] at hne
    have hlive : m.live v.prev = false :=
      Bool.eq_false_iff.2 fun hlive => hentry (.inr ⟨hne, hlive⟩)
    have hupdate := settles_update_of_dead (m := m.relink t L) (c := .siblingLinks t) hlive
      fun (l : SiblingLinks) => { l with next := v.next }
    refine hupdate.bind_error.ends hs hm fun s' _ hm' => ?_
    exact .inl ⟨⟨_, rfl⟩, hm'⟩

/-- The writes that take a child out once what leads to it was led past it. -/
theorem settles_takeOut (hL : L.Frayed m.live past) (hc : L.Between m.live p c u n)
    (hn : ¬ past n) (hp : m.live p = true) (hk : L.count? p = some k) :
    (do
      closeAfter t ⟨n, u⟩
      countDown t p
      dropChildLinks t c
      pure true : Action (Store S) Fault Bool).Settles (m.relink t (L.bypass p u n)) (.ok true)
        (m.relink t (L.unlink p c u n k)) := by
  have hlive := hL.child_live c p hc.parent
  have hparent : (L.parent? c).isSome = true := by
    rw [← Links.isSome_parentOf?, hc.parent]
    rfl
  have hnull : (L.bypass p u n).siblings? .null = none := by
    rw [Links.bypass, ← Option.not_isSome_iff_eq_none, isSome_setNext, hL.linked,
      ← Links.isSome_parentOf?, hL.parentOf?_null]
    simp
  refine Settles.bind (settles_closeAfter hnull fun hne => ?_) ?_
  · rcases hL.next c n hc.next with hnull | hpast | ⟨hback, hsame⟩
    · exact absurd hnull hne
    · exact absurd hpast hn
    · refine ⟨hL.live_of_prevOf? hback, ?_⟩
      rw [Links.bypass, isSome_setNext, hL.linked, ← Links.isSome_parentOf?, hsame, hc.parent]
      rfl
  have hpos := hL.count_ne_zero hp hc.parent hk
  refine Settles.bind (settles_countDown_of_some hp hk hpos fun hone => ?_) ?_
  · refine Links.headOf?_eq_some_iff.1 (hL.headOf?_bypass_of_last hc hn hp ?_)
    rw [Links.sizeOf_of_count? hk, hone]
    rfl
  refine Settles.bind (settles_dropChildLinks hlive hparent ?_) (settles_pure true)
  rw [isSome_setPrev, Links.bypass, isSome_setNext, hL.linked, hparent]

/-- A neighbour after the gap that is past cannot be led back, so the removal stops there. -/
theorem settles_closeAfter_of_past (hL : L.Frayed m.live past) (hn : past n) :
    (do
      closeAfter t ⟨n, u⟩
      countDown t p
      dropChildLinks t c
      pure true : Action (Store S) Fault Bool).Settles (m.relink t L)
        (.error (.refused (.stale n))) (m.relink t L) :=
  Settles.bind_error (settles_closeAfter_of_dead (m := m.relink t L)
    (fun hnull => hL.null_new (hnull ▸ hn)) (hL.past_dead _ hn))

/-- A removal changes nothing, takes the child out, or stops half-way since the neighbour after the
child is past. -/
theorem ends_removeChild (hs : s.Sound) (hm : s.contents = m.relink t L)
    (hL : L.Frayed m.live past) :
    (removeChild t p c).Ends s fun r s' =>
      r ≠ .ok true ∧ s'.contents = m.relink t L ∨
      (∃ u n k, L.Between m.live p c u n ∧ ¬ past n ∧ m.live p = true ∧ L.count? p = some k ∧
        r = .ok true ∧ s'.contents = m.relink t (L.unlink p c u n k)) ∨
      ∃ u n, L.Between m.live p c u n ∧ past n ∧ m.live p = true ∧
        r = .error (.refused (.stale n)) ∧ s'.contents = m.relink t (L.bypass p u n) := by
  refine ends_query_bind (fun f _ => .inl ⟨by simp, hm⟩) fun b hedge => ?_
  split
  · next hb =>
    subst hb
    obtain ⟨hp, hparent⟩ := hs.of_hasEdge hedge
    rw [valid_of_contents hm] at hp
    rw [hm, links_relink] at hparent
    refine ends_query_bind (fun f _ => .inl ⟨by simp, hm⟩) fun v hget => ?_
    have hv := (get_eq_ok_iff.1 hget).2
    rw [← value?_contents, hm, siblingLinks_relink] at hv
    refine ends_bind ((ends_closeBefore hs hm hL hp hparent hv).imp ?_)
    rintro r s' (⟨⟨f, rfl⟩, hm'⟩ | ⟨rfl, hs', hc, hm'⟩)
    · exact .inl ⟨by simp, hm'⟩
    · by_cases hn : past v.next
      · refine (settles_closeAfter_of_past (hL.stall hc hn) hn).ends hs' hm' fun s'' _ hm'' => ?_
        exact .inr (.inr ⟨_, _, hc, hn, hp, rfl, hm''⟩)
      · obtain ⟨k, hk⟩ := hL.exists_count hp hparent
        refine (settles_takeOut hL hc hn hp hk).ends hs' hm' fun s'' _ hm'' => ?_
        exact .inr (.inl ⟨_, _, k, hc, hn, hp, hk, rfl, hm''⟩)
  · exact .inl ⟨by simp, hm⟩

/-- A removal takes edges away or changes nothing. -/
theorem ends_removeChild_wears (hs : s.Sound) (hm : s.contents = m.relink t L)
    (hL : L.Frayed m.live past) :
    (removeChild t p c).Ends s fun _ s' =>
      ∃ L', Relation.ReflTransGen (Links.Loses m.live past) L L' ∧ s'.contents = m.relink t L' := by
  refine (ends_removeChild hs hm hL).imp ?_
  rintro r s' (⟨-, hm'⟩ | ⟨u, n, k, hc, hn, hp, hk, -, hm'⟩ | ⟨u, n, hc, hn, -, -, hm'⟩)
  · exact ⟨L, .refl, hm'⟩
  · exact ⟨_, .single (.unlink hc hn hp hk), hm'⟩
  · exact ⟨_, .single (.stall hc hn), hm'⟩

/-- To take a child away from its parent, whoever that is, takes edges away or changes nothing. -/
theorem ends_detachChild_wears (hs : s.Sound) (hm : s.contents = m.relink t L)
    (hL : L.Frayed m.live past) :
    (detachChild t c).Ends s fun _ s' =>
      ∃ L', Relation.ReflTransGen (Links.Loses m.live past) L L' ∧ s'.contents = m.relink t L' := by
  refine ends_query_bind (fun f _ => ⟨L, .refl, hm⟩) fun parent _ => ?_
  cases parent with
  | some p => exact ends_removeChild_wears hs hm hL
  | none => exact ⟨L, .refl, hm⟩

/-! ## Lists of children -/

/-- From the first child of a parent on there is a list of children that ends loose. -/
theorem exists_trail (hL : (s.contents.links t).Frayed s.valid past) (p : Entity) :
    ∃ es z, Trail (s.contents.links t).nextOf? (((s.contents.links t).headOf? p).getD .null) es z ∧
      (es ++ [z]).Nodup ∧ (∀ x ∈ es, (s.contents.links t).parentOf? x = some p) ∧
      s.valid z = false := by
  have hlive : ∀ x, ((s.contents.links t).nextOf? x).isSome = true → s.valid x = true := by
    intro x hx
    obtain ⟨y, hy⟩ := Option.isSome_iff_exists.1 hx
    exact hL.live_of_nextOf? hy
  obtain ⟨es, z, htrail, -⟩ := hL.nexts.exists_trail
    (fun l hl hnext => length_le_slotCount hl fun x hx => hlive x (hnext x hx))
    (((s.contents.links t).headOf? p).getD .null)
  refine ⟨es, z, htrail, htrail.nodup hL.nexts, hL.of_trail htrail ?_⟩
  cases hhead : (s.contents.links t).headOf? p with
  | none => exact .inl rfl
  | some first => exact (hL.head p first hhead).imp_right (.imp_right And.right)

section Lists

variable {es : List Entity} {z : Entity} (hs : s.Sound)
  (hL : (s.contents.links t).Frayed s.valid past)
  (htrail : Trail (s.contents.links t).nextOf? (((s.contents.links t).headOf? p).getD .null) es z)
include hs hL htrail

/-- A list of children is shorter than the bound of the walks, since its entities have links. -/
theorem Sound.length_lt_listBound_of_trail : es.length < s.listBound t := by
  refine hs.length_lt_listBound (htrail.nodup hL.nexts).of_append_left fun x hx => ?_
  have hsome := htrail.isSome x hx
  rwa [Links.nextOf?, Option.isSome_map] at hsome

/-- The list of children is the trail from the first child on, if that ends with the null handle. -/
theorem Sound.listChildren_eq (hz : s.valid z = false) (hp : s.Askable p) :
    s.listChildren t p = atEnd z es := by
  have hfirst : s.firstChildOf? t p = .ok ((s.contents.links t).headOf? p) :=
    hs.firstChildOf?_eq hp
  rw [listChildren, children, hfirst, hs.childCount_eq hp]
  exact hs.listFrom_eq (w := ⟨_, _⟩) htrail hz (hs.length_lt_listBound_of_trail hL htrail)

/-- A walk for one entity finds it on the trail, or comes to the end of it. -/
theorem Sound.hasChild_eq (hz : s.valid z = false) (hp : s.Askable p) (hx : x ≠ .null) :
    s.hasChild t p x = if x ∈ es then .ok true else atEnd z false := by
  have hfirst : s.firstChildOf? t p = .ok ((s.contents.links t).headOf? p) :=
    hs.firstChildOf?_eq hp
  rw [hasChild, if_neg (mt Entity.isNull_iff.1 hx), children, hfirst, hs.childCount_eq hp]
  exact hs.comesFrom_eq (w := ⟨_, _⟩) htrail hz (hs.length_lt_listBound_of_trail hL htrail)

end Lists

/-- A walk that comes to an end does not fail as one that has none. -/
theorem atEnd_ne_endless {α : Type} {a : α} {z q : Entity} : atEnd z a ≠ .error (.endless q) := by
  unfold atEnd
  split <;> simp

/-- Every list of children ends. -/
theorem Sound.listChildren_ne_endless (hs : s.Sound)
    (hL : (s.contents.links t).Frayed s.valid past) {q : Entity} :
    s.listChildren t p ≠ .error (.endless q) := by
  by_cases hp : s.Askable p
  · obtain ⟨es, z, htrail, -, -, hz⟩ := exists_trail hL p
    rw [hs.listChildren_eq hL htrail hz hp]
    exact atEnd_ne_endless
  · rw [listChildren_of_not_askable hp]
    simp

/-! ## Unlinking many -/

/-- All children of a parent are taken out, or nothing changes.  No failure is one of a list that
never ends. -/
theorem ends_clearChildren (hs : s.Sound) (hm : s.contents = m.relink t L)
    (hL : L.Frayed m.live past) :
    (clearChildren t p).Ends s fun r s' =>
      (∀ q, r ≠ .error (.endless q)) ∧
      ∃ L', Relation.ReflTransGen (Links.Loses m.live past) L L' ∧ s'.contents = m.relink t L' := by
  have hvalid := valid_of_contents hm
  have hlinks : s.contents.links t = L := by rw [hm, links_relink]
  have hL' : (s.contents.links t).Frayed s.valid past := by rwa [hlinks, hvalid]
  refine ends_query_bind (fun f hf => ⟨fun q hq => ?_, L, .refl, hm⟩) fun kids hkids => ?_
  · cases hq
    exact hs.listChildren_ne_endless hL' hf
  have hp : s.Askable p := by
    by_contra hp
    rw [listChildren_of_not_askable hp] at hkids
    cases hkids
  refine ends_query_bind (fun f hf => ⟨fun q hq => ?_, L, .refl, hm⟩) fun count hcount => ?_
  · rw [hs.childCount_eq hp] at hf
    cases hf
  refine ends_require_bind (fun _ => ⟨by simp, L, .refl, hm⟩) fun hlen => ?_
  obtain ⟨es, z, htrail, hn, hparent, hz⟩ := exists_trail hL' p
  have hsize : count.toNat = L.sizeOf p := by
    rw [hs.childCount_eq hp, Except.ok.injEq, ← value?_contents, hm, childCount_relink] at hcount
    rw [← hcount, Links.sizeOf]
    cases L.count? p <;> rfl
  obtain rfl : kids = es := by
    rw [hs.listChildren_eq hL' htrail hz hp, atEnd] at hkids
    split at hkids
    · exact (Except.ok.inj hkids).symm
    · cases hkids
  rw [hlinks] at htrail hparent
  cases hhead : L.headOf? p with
  | none =>
    have hnil : kids = [] := by
      rw [hhead, Option.getD_none] at htrail
      cases htrail with
      | last => rfl
      | step hstep =>
        rw [hL.nextOf?_null] at hstep
        cases hstep
    obtain ⟨f, hdetach⟩ := exists_settles_detach (m := m.relink t L) (e := p) (c := .firstChild t)
      (firstChild_relink.trans (Option.map_eq_none_iff.1 hhead))
    rw [hnil]
    refine ((settles_pure ()).bind hdetach.bind_error).ends hs hm fun s' _ hm' => ?_
    exact ⟨by simp, L, .refl, hm'⟩
  | some first =>
    have hlive := hL.owner_live p first hhead
    obtain ⟨k, hk⟩ : ∃ k, L.count? p = some k := by
      rw [← Option.isSome_iff_exists, hL.counted, ← Links.isSome_headOf?, hhead]
      rfl
    have hkids' := hL.mem_iff_of_length hn.of_append_left hparent hlive
      ((of_decide_eq_true hlen).trans hsize)
    have hdrop := settles_dropChildren (t := t) hlive (Links.headOf?_eq_some_iff.1 hhead) hk
      hn.of_append_left fun x hx =>
        ⟨hL.child_live x p (hparent x hx), Links.parentOf?_eq_some_iff.1 (hparent x hx), by
          rw [hL.linked, ← Links.isSome_parentOf?, hparent x hx]
          rfl⟩
    refine hdrop.ends hs hm fun s' _ hm' => ⟨by simp, _, .single (.clear hkids'), hm'⟩

/-- Parent after parent, each loses all its children or keeps them, until one fails. -/
theorem ends_clearEach (hs : s.Sound) (hm : s.contents = m.relink t L)
    (hL : L.Frayed m.live past) (parents : List Entity) :
    (clearEach t parents).Ends s fun r s' =>
      (∀ q, r ≠ .error (.endless q)) ∧
      ∃ L', Relation.ReflTransGen (Links.Loses m.live past) L L' ∧ s'.contents = m.relink t L' := by
  induction parents generalizing s L with
  | nil => exact ⟨nofun, L, .refl, hm⟩
  | cons p parents ih =>
    have hsafe := (edits_clearChildren t p).safe
    refine ends_bind (((ends_clearChildren hs hm hL).and_sound hsafe hs).imp ?_)
    rintro r s' ⟨hs', hr, L', hloses, hm'⟩
    cases r with
    | error f => exact ⟨fun q hq => hr q (by cases hq; rfl), L', hloses, hm'⟩
    | ok n =>
      refine ends_bind ((ih hs' hm' (hL.wears hloses)).imp ?_)
      rintro r s'' ⟨hr', L'', hloses', hm''⟩
      cases r with
      | error f => exact ⟨fun q hq => hr' q (by cases hq; rfl), L'', hloses.trans hloses', hm''⟩
      | ok k => exact ⟨nofun, L'', hloses.trans hloses', hm''⟩

/-- The parents that a selector finds are cleared one after another, so only edges are taken away.
-/
theorem ends_clearSelection (hs : s.Sound) (hm : s.contents = m.relink t L)
    (hL : L.Frayed m.live past) (sel : Selector S) :
    (clearSelection t sel).Ends s fun r s' =>
      (∀ q, r ≠ .error (.endless q)) ∧
      ∃ L', Relation.ReflTransGen (Links.Loses m.live past) L L' ∧ s'.contents = m.relink t L' := by
  refine ends_state_bind (ends_bind ((ends_clearEach hs hm hL _).imp ?_))
  rintro r s' ⟨hr, hend⟩
  cases r with
  | error f => exact ⟨fun q hq => hr q (by cases hq; rfl), hend⟩
  | ok n => exact ⟨nofun, hend⟩

end EntityStore.Store
