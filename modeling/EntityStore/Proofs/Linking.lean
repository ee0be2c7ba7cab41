import EntityStore.Hierarchy.Edit
import EntityStore.Proofs.Asking

/-!
# Linking a child

`settles_prependChild` follows a new edge from the first check to the last write, and
`settles_prependChild_error` says that an edge that the forest does not allow fails before the
first write.  Both are about contents whose links of the tag show a forest.
`Sound.run_prependChild` puts them together.
-/

namespace EntityStore

variable {S : Schema}

/-- Whether a new edge keeps a forest a forest of live entities. -/
structure Forest.Allows (F : Forest) (live : Entity → Bool) (p c : Entity) : Prop where
  /-- The parent is live. -/
  parent : live p = true
  /-- The child is live. -/
  child : live c = true
  /-- They are different. -/
  ne : p ≠ c
  /-- The child has no parent. -/
  root : ∀ q, c ∉ F q
  /-- The parent does not lie below the child. -/
  not_above : ¬ F.Above c p

/-- To follow an action on the contents of a sound store, one may take such a store as given. -/
theorem Action.settles_of_sound {ε α : Type} {x : Action (Store S) ε α} {m m' : Contents S}
    {r : Except ε α} (h : ∀ s : Store S, s.Sound → s.contents = m → x.Settles m r m') :
    x.Settles m r m' :=
  fun s hs hm => h s hs hm s hs hm

namespace Store

open EntityStore.Action Contents

variable {m : Contents S} {t : S.Tag} {L : Links} {F : Forest} {p c e q : Entity}
  {cs : List Entity}

/-- What a store shows is read off its contents. -/
theorem shows_of_contents {s : Store S} (hm : s.contents = m.relink t L)
    (hF : L.Shows m.live F) : s.Shows t F := by
  have hlive : s.valid = m.live := congrArg Contents.live hm
  rw [Shows, hm, links_relink, hlive]
  exact hF

theorem valid_of_contents {s : Store S} (hm : s.contents = m.relink t L) :
    s.valid = m.live := congrArg Contents.live hm

theorem askable_of_contents {s : Store S} (hm : s.contents = m.relink t L)
    (he : m.live e = true ∨ e = .null) : s.Askable e := by
  rw [Askable, valid_of_contents hm]
  exact he

/-! ## Questions -/

/-- The test for the component of a child reads the links only. -/
theorem settles_isChild (hF : L.Shows m.live F) (he : m.live e = true ∨ e = .null) :
    (query (·.isChild t e)).Settles (m.relink t L) (.ok (L.parent? e).isSome) (m.relink t L) :=
  settles_query fun s hs hm => by
    rw [(shows_of_contents hm hF).isChild_eq hs (askable_of_contents hm he), ← value?_contents, hm,
      parentLink_relink]

theorem settles_parentOf? (he : m.live e = true ∨ e = .null) :
    (query (·.parentOf? t e)).Settles (m.relink t L) (.ok ((L.parent? e).map ParentLink.parent))
      (m.relink t L) :=
  settles_query fun s hs hm => by
    rw [hs.parentOf?_eq (askable_of_contents hm he), ← value?_contents, hm, parentLink_relink]

theorem settles_firstChildOf? (hF : L.Shows m.live F) (he : m.live e = true ∨ e = .null) :
    (query (·.firstChildOf? t e)).Settles (m.relink t L) (.ok (F e).head?) (m.relink t L) :=
  settles_query fun _ hs hm =>
    (shows_of_contents hm hF).firstChildOf?_eq hs (askable_of_contents hm he)

/-- A walk up the links finds out what the forest says. -/
theorem settles_isAncestorOf (hF : L.Shows m.live F) (he : m.live e = true ∨ e = .null) {b : Bool}
    (hb : b = true ↔ F.Above c e) :
    (query (·.isAncestorOf t c e)).Settles (m.relink t L) (.ok b) (m.relink t L) :=
  settles_query fun s hs hm => by
    obtain ⟨b', hb', hiff⟩ :=
      (shows_of_contents hm hF).isAncestorOf_eq (a := c) hs (askable_of_contents hm he)
    rw [hb', Bool.eq_iff_iff.2 (hiff.trans hb.symm)]

/-! ## Single writes -/

variable {v : SiblingLinks}

/-- One field of one entity is written. -/
theorem settles_setPrev (he : m.live e = true) (hv : L.siblings? e = some v) :
    (update e (.siblingLinks t) fun (l : SiblingLinks) => { l with prev := q }).Settles
      (m.relink t L) (.ok v) (m.relink t { L with siblings? := setPrev L.siblings? e q }) := by
  have hupdate := settles_update_of_some (m := m.relink t L) (c := .siblingLinks t) he
    (siblingLinks_relink.trans hv) fun (l : SiblingLinks) => { l with prev := q }
  rw [relink_assign_siblingLinks] at hupdate
  rw [setPrev, hv]
  exact hupdate

theorem settles_setNext (he : m.live e = true) (hv : L.siblings? e = some v) :
    (update e (.siblingLinks t) fun (l : SiblingLinks) => { l with next := q }).Settles
      (m.relink t L) (.ok v) (m.relink t { L with siblings? := setNext L.siblings? e q }) := by
  have hupdate := settles_update_of_some (m := m.relink t L) (c := .siblingLinks t) he
    (siblingLinks_relink.trans hv) fun (l : SiblingLinks) => { l with next := q }
  rw [relink_assign_siblingLinks] at hupdate
  rw [setNext, hv]
  exact hupdate

/-- The old first child, if there is one, leads back to the new one. -/
theorem settles_linkBefore (hthread : Threaded L.siblings? .null cs .null)
    (hlive : ∀ x ∈ cs, m.live x = true) (hnull : L.siblings? .null = none) :
    (linkBefore t c cs.head?).Settles (m.relink t L) (.ok ())
      (m.relink t { L with siblings? := setPrev L.siblings? (cs.head?.getD .null) c }) := by
  cases cs with
  | nil =>
    rw [List.head?_nil, Option.getD_none, setPrev_of_eq_none hnull]
    exact settles_pure ()
  | cons head cs =>
    have hhead := hlive head List.mem_cons_self
    have hget := settles_get_of_some (m := m.relink t L) (c := .siblingLinks t) hhead
      (siblingLinks_relink.trans hthread.1)
    refine hget.bind ((settles_require rfl _).bind ?_)
    exact (settles_setPrev hhead hthread.1).bind (settles_pure ())

/-- The number of children that is recorded, zero where none is, goes up by one. -/
theorem settles_countUp_of_lt (hp : m.live p = true) (hroom : L.sizeOf p + 1 < UInt64.size) :
    (countUp t p).Settles (m.relink t L) (.ok ())
      (m.relink t { L with
        count? := Function.update L.count? p (some ⟨UInt64.ofNat (L.sizeOf p + 1)⟩) }) := by
  cases hcount : L.count? p with
  | none =>
    have hget := settles_getOrAttach_of_none (m := m.relink t L) (c := .childCount t) hp
      (childCount_relink.trans hcount) (fun _ => .ok ({} : ChildCount)) rfl
    rw [relink_assign_childCount] at hget
    refine hget.bind ((settles_require (by decide) _).bind ?_)
    have hupdate := settles_update_of_some
      (m := m.relink t { L with count? := Function.update L.count? p (some {}) })
      (c := .childCount t) hp (childCount_relink.trans (Function.update_self ..))
      fun (n : ChildCount) => ⟨n.size + 1⟩
    rw [relink_assign_childCount, Function.update_idem] at hupdate
    rw [Links.sizeOf, hcount]
    exact hupdate.bind (settles_pure ())
  | some k =>
    have hsize := Links.sizeOf_of_count? hcount
    have hnext : UInt64.ofNat (L.sizeOf p + 1) = k.size + 1 := by
      rw [hsize, UInt64.ofNat_add, UInt64.ofNat_toNat]
      rfl
    have hget := settles_getOrAttach_of_some (m := m.relink t L) (c := .childCount t) hp
      (childCount_relink.trans hcount) fun _ => .ok ({} : ChildCount)
    refine hget.bind ((settles_require (by simpa [hsize] using hroom) _).bind ?_)
    have hupdate := settles_update_of_some (m := m.relink t L) (c := .childCount t) hp
      (childCount_relink.trans hcount) fun (n : ChildCount) => ⟨n.size + 1⟩
    rw [relink_assign_childCount] at hupdate
    rw [hnext]
    exact hupdate.bind (settles_pure ())

/-- A number of children that cannot go up stays what it is. -/
theorem settles_countUp_of_ge (hp : m.live p = true) (hfull : UInt64.size ≤ L.sizeOf p + 1) :
    (countUp t p).Settles (m.relink t L) (.error .countOverflow) (m.relink t L) := by
  cases hcount : L.count? p with
  | none =>
    rw [Links.sizeOf, hcount] at hfull
    exact absurd hfull (by decide)
  | some k =>
    have hsize := Links.sizeOf_of_count? hcount
    have hget := settles_getOrAttach_of_some (m := m.relink t L) (c := .childCount t) hp
      (childCount_relink.trans hcount) fun _ => .ok ({} : ChildCount)
    refine hget.bind (settles_require_error (decide_eq_false ?_) _).bind_error
    rw [← hsize]
    omega

/-- The number of children goes up by one, or starts at one. -/
theorem settles_countUp (hp : m.live p = true) (hcount : L.count? p = countOf cs)
    (hlen : cs.length + 1 < UInt64.size) :
    (countUp t p).Settles (m.relink t L) (.ok ())
      (m.relink t { L with count? := Function.update L.count? p (countOf (c :: cs)) }) := by
  have hsize : L.sizeOf p = cs.length := by
    rw [Links.sizeOf, hcount, countOf]
    split
    · next hnil => rw [hnil]; rfl
    · exact UInt64.toNat_ofNat_of_lt' (by omega)
  have hup := settles_countUp_of_lt (t := t) (L := L) hp (by omega)
  rw [hsize] at hup
  exact hup

/-! ## A new edge -/

/-- The writes that make a new edge. -/
theorem settles_writes (hF : L.Shows m.live F) (hnull : m.live .null = false)
    (ha : F.Allows m.live p c) (hroot : L.parent? c = none)
    (hlen : (F p).length + 1 < UInt64.size) :
    (do
      linkBefore t c (F p).head?
      let _ ← attach c (.parentLink t) (⟨p⟩ : ParentLink)
      let _ ← attach c (.siblingLinks t) ({ next := (F p).head?.getD .null } : SiblingLinks)
      let _ ← attachOrReplace p (.firstChild t) (⟨c⟩ : FirstChild)
      countUp t p : Action (Store S) Fault Unit).Settles (m.relink t L) (.ok ())
        (m.relink t (L.prepend p c (F p))) := by
  have hsiblings := hF.siblings?_eq_none hroot
  refine (settles_linkBefore (hF.threaded p) (fun x hx => (hF.live p x hx).1)
    (hF.siblings?_null hnull)).bind ?_
  refine Settles.bind (settles_attach_of_none ha.child (parentLink_relink.trans hroot)) ?_
  rw [relink_assign_parentLink]
  have hfree : setPrev L.siblings? ((F p).head?.getD .null) c c = none := by
    rw [← Option.not_isSome_iff_eq_none, isSome_setPrev, hsiblings]
    simp
  refine Settles.bind (settles_attach_of_none ha.child (siblingLinks_relink.trans hfree)) ?_
  rw [relink_assign_siblingLinks]
  refine Settles.bind (settles_attachOrReplace_of_live ha.parent) ?_
  rw [relink_assign_firstChild]
  exact settles_countUp ha.parent (hF.count?_eq p) hlen

/-- An edge that the forest allows is made. -/
theorem settles_prependChild (hF : L.Shows m.live F) (ha : F.Allows m.live p c) :
    (prependChild t p c).Settles (m.relink t L) (.ok ())
      (m.relink t (L.prepend p c (F p))) := by
  refine settles_of_sound fun s hs hm => ?_
  have hvalid := valid_of_contents hm
  have hshows := shows_of_contents hm hF
  have hroot := hF.parent?_eq_none ha.root
  have hchild := settles_isChild (t := t) hF (.inl ha.child)
  rw [hroot, Option.isSome_none] at hchild
  refine settles_state_bind fun s' hs' hm' => ?_
  have hvalid' := valid_of_contents hm'
  refine (settles_require (by rw [hvalid']; exact ha.parent) _).bind ?_
  refine (settles_require (by rw [hvalid']; exact ha.child) _).bind ?_
  refine (settles_require (decide_eq_true ha.ne) _).bind ?_
  refine hchild.bind ?_
  rw [if_neg Bool.false_ne_true]
  refine (settles_isAncestorOf hF (.inl ha.parent) (b := false) (by simp [ha.not_above])).bind ?_
  refine (settles_require rfl _).bind ?_
  refine (settles_firstChildOf? hF (.inl ha.parent)).bind ?_
  exact settles_writes hF (hvalid ▸ hs.valid_null) ha hroot (hshows.length_lt_size hs)

/-- An edge that the forest does not allow is refused before anything is written. -/
theorem settles_prependChild_error (hF : L.Shows m.live F) (hna : ¬ F.Allows m.live p c) :
    ∃ f, (prependChild t p c).Settles (m.relink t L) (.error f) (m.relink t L) := by
  cases hp : m.live p with
  | false =>
    refine ⟨.deadParent p, settles_state_bind fun s _ hm => ?_⟩
    exact (settles_require_error (by rw [valid_of_contents hm, hp]) _).bind_error
  | true =>
  cases hc : m.live c with
  | false =>
    refine ⟨.deadChild c, settles_state_bind fun s _ hm => ?_⟩
    refine (settles_require (by rw [valid_of_contents hm, hp]) _).bind ?_
    exact (settles_require_error (by rw [valid_of_contents hm, hc]) _).bind_error
  | true =>
  by_cases hne : p = c
  · refine ⟨.ownChild p, settles_state_bind fun s _ hm => ?_⟩
    refine (settles_require (by rw [valid_of_contents hm, hp]) _).bind ?_
    refine (settles_require (by rw [valid_of_contents hm, hc]) _).bind ?_
    exact (settles_require_error (by simp [hne]) _).bind_error
  have hchild := settles_isChild (t := t) hF (.inl hc)
  cases hroot : L.parent? c with
  | some v =>
    have howner := settles_parentOf? (m := m) (t := t) (L := L) (e := c) (.inl hc)
    rw [hroot, Option.isSome_some] at hchild
    rw [hroot, Option.map_some] at howner
    refine ⟨.alreadyChild c (some v.parent), settles_state_bind fun s _ hm => ?_⟩
    refine (settles_require (by rw [valid_of_contents hm, hp]) _).bind ?_
    refine (settles_require (by rw [valid_of_contents hm, hc]) _).bind ?_
    refine (settles_require (decide_eq_true hne) _).bind (hchild.bind ?_)
    rw [if_pos rfl]
    exact howner.bind (settles_fail _).bind_error
  | none =>
    rw [hroot, Option.isSome_none] at hchild
    have habove : F.Above c p := by
      by_contra hnot
      exact hna ⟨hp, hc, hne, fun q => hF.not_mem_of_parent? hroot, hnot⟩
    refine ⟨.wouldCycle c p, settles_state_bind fun s _ hm => ?_⟩
    refine (settles_require (by rw [valid_of_contents hm, hp]) _).bind ?_
    refine (settles_require (by rw [valid_of_contents hm, hc]) _).bind ?_
    refine (settles_require (decide_eq_true hne) _).bind (hchild.bind ?_)
    rw [if_neg Bool.false_ne_true]
    refine (settles_isAncestorOf hF (.inl hp) (b := true) (by simp [habove])).bind ?_
    exact (settles_require_error rfl _).bind_error

/-- An edge is made if the forest allows it, and otherwise nothing is done. -/
theorem Sound.run_prependChild {s : Store S} (h : s.Sound) (hF : s.Shows t F) :
    ∃ (L : Links) (F' : Forest), L.Shows s.valid F' ∧
      ((prependChild t p c).run s).state.contents = s.contents.relink t L ∧
      (F.Allows s.valid p c ∧ ((prependChild t p c).run s).result = .ok () ∧
          F' = F.prepend p c ∨
        ¬ F.Allows s.valid p c ∧ (∃ f, ((prependChild t p c).run s).result = .error f) ∧
          F' = F) := by
  by_cases ha : F.Allows s.valid p c
  · have hnull : s.contents.live .null = false := h.valid_null
    have hroot := Links.Shows.parent?_eq_none hF ha.root
    have hsettles := settles_prependChild (m := s.contents) (t := t) hF ha
    rw [relink_links] at hsettles
    obtain ⟨hr, -, hm⟩ := hsettles s h rfl
    refine ⟨_, _, ?_, hm, .inl ⟨ha, hr, rfl⟩⟩
    exact Links.Shows.prepend hF hnull ha.parent ha.child ha.ne hroot ha.not_above
  · obtain ⟨f, hsettles⟩ := settles_prependChild_error (m := s.contents) (t := t) hF ha
    rw [relink_links] at hsettles
    obtain ⟨hr, -, hm⟩ := hsettles s h rfl
    exact ⟨s.contents.links t, F, hF, by rw [hm, relink_links], .inr ⟨ha, ⟨f, hr⟩, rfl⟩⟩

end Store

end EntityStore
