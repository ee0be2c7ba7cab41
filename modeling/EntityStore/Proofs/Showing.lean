import EntityStore.Proofs.Forest
import EntityStore.Proofs.Links
import EntityStore.Proofs.Threads

/-!
# Links that show a forest

`L.Shows live F` says that the links of a hierarchy represent the forest `F`.  Parents and children
agree, the children of each parent are threaded in order, the head and the count are those of the
list, the two links of a child come together, all entities that occur are live, and the forest has
no cycle.

An edit of a hierarchy changes links in one of three ways: a new first child (`Links.prepend`), a
child that leaves (`Links.remove`), and a parent that loses all children (`Links.clear`).  What the
links show afterwards is the edited forest.
-/

namespace EntityStore

/-- The head of a list of children, as it is recorded. -/
def headOf (cs : List Entity) : Option FirstChild := cs.head?.map FirstChild.mk

/-- The length of a list of children, as it is recorded. -/
def countOf (cs : List Entity) : Option ChildCount :=
  if cs = [] then none else some ⟨UInt64.ofNat cs.length⟩

theorem headOf_eq_none_iff {cs : List Entity} : headOf cs = none ↔ cs = [] := by
  rw [headOf, Option.map_eq_none_iff, List.head?_eq_none_iff]

theorem headOf_of_ne_nil {cs : List Entity} (h : cs ≠ []) :
    headOf cs = some ⟨cs.head?.getD .null⟩ := by
  cases cs with
  | nil => exact absurd rfl h
  | cons c cs => rfl

theorem countOf_eq_none_iff {cs : List Entity} : countOf cs = none ↔ cs = [] := by
  rw [countOf]
  split <;> simp [*]

namespace Links

variable {L : Links} {live live' : Entity → Bool} {F : Forest} {p q c e x : Entity}
  {cs l r : List Entity}

/-- Links represent a forest of live entities. -/
structure Shows (L : Links) (live : Entity → Bool) (F : Forest) : Prop where
  /-- A child names the parent that lists it. -/
  parent_iff : ∀ p c, L.parent? c = some ⟨p⟩ ↔ c ∈ F p
  /-- A child has neighbours exactly if it has a parent. -/
  isSome_siblings? : ∀ c, (L.siblings? c).isSome = (L.parent? c).isSome
  /-- The children of a parent are threaded in order. -/
  threaded : ∀ p, Threaded L.siblings? .null (F p) .null
  /-- A parent knows its first child. -/
  first?_eq : ∀ p, L.first? p = headOf (F p)
  /-- A parent knows the number of its children. -/
  count?_eq : ∀ p, L.count? p = countOf (F p)
  /-- No child is listed twice. -/
  nodup : ∀ p, (F p).Nodup
  /-- Children and parents are live. -/
  live : ∀ p, ∀ c ∈ F p, live c = true ∧ live p = true
  /-- There is no cycle. -/
  acyclic : F.Acyclic

namespace Shows

/-! ## What links that show a forest tell -/

theorem parent?_eq (h : L.Shows live F) (hc : c ∈ F p) : L.parent? c = some ⟨p⟩ :=
  (h.parent_iff p c).2 hc

/-- An entity is among the children of the parent that it records. -/
theorem mem_of_parent? (h : L.Shows live F) {v : ParentLink} (hv : L.parent? c = some v) :
    c ∈ F v.parent := (h.parent_iff v.parent c).1 hv

theorem not_mem_of_parent? (h : L.Shows live F) (hc : L.parent? c = none) : c ∉ F p := by
  intro hmem
  simp [h.parent?_eq hmem] at hc

/-- What no list has names no parent. -/
theorem parent?_eq_none (h : L.Shows live F) (hc : ∀ p, c ∉ F p) : L.parent? c = none := by
  rw [Option.eq_none_iff_forall_ne_some]
  exact fun v hv => hc v.parent (h.mem_of_parent? hv)

/-- No entity is a child of two parents. -/
theorem eq_of_mem (h : L.Shows live F) (hp : c ∈ F p) (hq : c ∈ F q) : p = q := by
  have := (h.parent?_eq hp).symm.trans (h.parent?_eq hq)
  simpa using this

theorem siblings?_eq_none (h : L.Shows live F) (hc : L.parent? c = none) :
    L.siblings? c = none := by
  have := h.isSome_siblings? c
  simpa [hc] using this

/-- The null handle has no edges. -/
theorem ne_null (h : L.Shows live F) (hnull : live .null = false) (hc : c ∈ F p) :
    c ≠ .null ∧ p ≠ .null := by
  obtain ⟨hlc, hlp⟩ := h.live p c hc
  refine ⟨?_, ?_⟩
  · rintro rfl
    simp [hnull] at hlc
  · rintro rfl
    simp [hnull] at hlp

/-- The null handle has no neighbours. -/
theorem siblings?_null (h : L.Shows live F) (hnull : live .null = false) :
    L.siblings? .null = none :=
  h.siblings?_eq_none (h.parent?_eq_none fun _ hp => (h.ne_null hnull hp).1 rfl)

theorem first?_eq_none_iff (h : L.Shows live F) : L.first? p = none ↔ F p = [] := by
  rw [h.first?_eq, headOf_eq_none_iff]

/-- The neighbours of a child are determined by the list that has it. -/
theorem siblings?_eq_of_mem (h : L.Shows live F) {L' : Links} {F' : Forest}
    (h' : L'.Shows live' F') (hlist : F p = F' p) (hc : c ∈ F p) :
    L.siblings? c = L'.siblings? c :=
  (h.threaded p).eq_of_mem (hlist ▸ h'.threaded p) hc

/-- Links are determined by the forest that they show. -/
theorem unique (h : L.Shows live F) {L' : Links} (h' : L'.Shows live' F) : L = L' := by
  have hparent : L.parent? = L'.parent? := by
    funext c
    ext v
    exact (h.parent_iff v.parent c).trans (h'.parent_iff v.parent c).symm
  ext1
  · exact hparent
  · funext c
    cases hc : L.parent? c with
    | none => rw [h.siblings?_eq_none hc, h'.siblings?_eq_none (hparent ▸ hc)]
    | some v => exact h.siblings?_eq_of_mem h' rfl (h.mem_of_parent? hc)
  · funext p
    rw [h.first?_eq, h'.first?_eq]
  · funext p
    rw [h.count?_eq, h'.count?_eq]

/-- What the links show does not depend on entities that do not occur. -/
theorem of_live (h : L.Shows live F)
    (hlive : ∀ p, ∀ c ∈ F p, live' c = true ∧ live' p = true) : L.Shows live' F :=
  { h with live := hlive }

/-- Without components the links show the empty forest. -/
theorem empty : Shows ⟨fun _ => none, fun _ => none, fun _ => none, fun _ => none⟩ live .empty where
  parent_iff := by simp [Forest.empty]
  isSome_siblings? := by simp
  threaded _ := trivial
  first?_eq _ := rfl
  count?_eq _ := rfl
  nodup _ := List.nodup_nil
  live := by simp [Forest.empty]
  acyclic := Forest.acyclic_empty

/-- The other lists stay threaded when only members of one list, or the null handle, are written
to. -/
theorem threaded_of_ne (h : L.Shows live F) (hnull : live .null = false) (hq : q ≠ p)
    {links' : Entity → Option SiblingLinks}
    (hl : ∀ x, x ∉ F p → x ≠ .null → L.parent? x ≠ none → links' x = L.siblings? x) :
    Threaded links' .null (F q) .null := by
  refine (h.threaded q).congr fun x hx => hl x ?_ (h.ne_null hnull hx).1 ?_
  · exact fun hxp => hq (h.eq_of_mem hx hxp)
  · rw [h.parent?_eq hx]
    simp

end Shows

/-! ## Edits -/

/-- The links after a new first child of a parent with the children `cs`. -/
def prepend (L : Links) (p c : Entity) (cs : List Entity) : Links where
  parent? := Function.update L.parent? c (some ⟨p⟩)
  siblings? := Function.update (setPrev L.siblings? (cs.head?.getD .null) c) c
    (some { next := cs.head?.getD .null })
  first? := Function.update L.first? p (headOf (c :: cs))
  count? := Function.update L.count? p (countOf (c :: cs))

/-- The links after a child of a parent left, which had the children `l` before it and the children
`r` after it. -/
def remove (L : Links) (p c : Entity) (l r : List Entity) : Links where
  parent? := Function.update L.parent? c none
  siblings? := Function.update (setPrev
    (setNext L.siblings? (l.getLast?.getD .null) (r.head?.getD .null)) (r.head?.getD .null)
    (l.getLast?.getD .null)) c none
  first? := Function.update L.first? p (headOf (l ++ r))
  count? := Function.update L.count? p (countOf (l ++ r))

/-- The links without both links of some children. -/
def dropEach (L : Links) (cs : List Entity) : Links :=
  { L with
    parent? := fun x => if x ∈ cs then none else L.parent? x
    siblings? := fun x => if x ∈ cs then none else L.siblings? x }

/-- The links after a parent with the children `cs` lost all of them. -/
def clear (L : Links) (p : Entity) (cs : List Entity) : Links :=
  { L.dropEach cs with
    first? := Function.update L.first? p none
    count? := Function.update L.count? p none }

namespace Shows

/-- Links written for a new first child show the forest with it, provided that no cycle comes of it.
-/
theorem prepend (h : L.Shows live F) (hnull : live .null = false) (hp : live p = true)
    (hc : live c = true) (hne : p ≠ c) (hroot : L.parent? c = none) (hnot : ¬ F.Above c p) :
    (L.prepend p c (F p)).Shows live (F.prepend p c) where
  parent_iff q x := by
    change Function.update L.parent? c (some ⟨p⟩) x = some ⟨q⟩ ↔ x ∈ F.set p (c :: F p) q
    by_cases hx : x = c
    · subst hx
      rw [Function.update_self]
      by_cases hq : q = p
      · simp [hq]
      · rw [Forest.set_of_ne hq]
        simpa [Ne.symm hq] using h.not_mem_of_parent? hroot
    · rw [Function.update_of_ne hx, h.parent_iff]
      by_cases hq : q = p
      · simp [hq, hx]
      · rw [Forest.set_of_ne hq]
  isSome_siblings? x := by
    simp only [Links.prepend]
    by_cases hx : x = c
    · subst hx
      simp
    · rw [Function.update_of_ne hx, Function.update_of_ne hx, isSome_setPrev, h.isSome_siblings?]
  threaded q := by
    change Threaded (Function.update _ c _) .null (F.set p (c :: F p) q) .null
    by_cases hq : q = p
    · subst hq
      rw [Forest.set_self]
      exact (h.threaded q).prepend
        (List.nodup_cons.2 ⟨h.not_mem_of_parent? hroot, h.nodup q⟩)
    · rw [Forest.set_of_ne hq]
      refine h.threaded_of_ne hnull hq fun x hxp hxn hxc => ?_
      rw [Function.update_of_ne, setPrev_of_ne (ne_head?_getD hxp hxn)]
      rintro rfl
      exact hxc hroot
  first?_eq _ := Forest.update_eq_set h.first?_eq
  count?_eq _ := Forest.update_eq_set h.count?_eq
  nodup := Forest.forall_set (P := fun _ cs => cs.Nodup)
    (List.nodup_cons.2 ⟨h.not_mem_of_parent? hroot, h.nodup p⟩) fun q _ => h.nodup q
  live := by
    refine Forest.forall_set (P := fun q cs => ∀ x ∈ cs, live x = true ∧ live q = true) ?_
      fun q _ => h.live q
    intro x hx
    rcases List.mem_cons.1 hx with rfl | hx
    · exact ⟨hc, hp⟩
    · exact h.live p x hx
  acyclic := h.acyclic.set_cons hne hnot

/-- A list may lose members.  The links that the lost members had must be gone, and the other links
of members must be threaded anew. -/
theorem shrink (h : L.Shows live F) {L' : Links} (hsub : cs.Sublist (F p))
    (hparent : ∀ x, L'.parent? x = if x ∈ F p ∧ x ∉ cs then none else L.parent? x)
    (hsome : ∀ x, (L'.siblings? x).isSome = (L'.parent? x).isSome)
    (hthread : Threaded L'.siblings? .null cs .null)
    (hother : ∀ q, q ≠ p → Threaded L'.siblings? .null (F q) .null)
    (hfirst : L'.first? = Function.update L.first? p (headOf cs))
    (hcount : L'.count? = Function.update L.count? p (countOf cs)) :
    L'.Shows live (F.set p cs) where
  parent_iff q x := by
    rw [hparent]
    by_cases hq : q = p
    · subst hq
      rw [Forest.set_self]
      split
      · next hx => simp [hx.2]
      · next hx =>
        rw [h.parent_iff]
        exact ⟨fun hxq => by_contra fun hxc => hx ⟨hxq, hxc⟩, fun hxc => hsub.subset hxc⟩
    · rw [Forest.set_of_ne hq]
      split
      · next hx =>
        have hxq : x ∉ F q := fun hxq => hq (h.eq_of_mem hxq hx.1)
        simp [hxq]
      · exact h.parent_iff q x
  isSome_siblings? := hsome
  threaded := Forest.forall_set (P := fun _ cs => Threaded L'.siblings? .null cs .null) hthread
    hother
  first?_eq q := by
    rw [hfirst]
    exact Forest.update_eq_set h.first?_eq
  count?_eq q := by
    rw [hcount]
    exact Forest.update_eq_set h.count?_eq
  nodup := Forest.forall_set (P := fun _ cs => cs.Nodup) ((h.nodup p).sublist hsub)
    fun q _ => h.nodup q
  live := Forest.forall_set (P := fun q cs => ∀ x ∈ cs, live x = true ∧ live q = true)
    (fun x hx => h.live p x (hsub.subset hx)) fun q _ => h.live q
  acyclic := h.acyclic.mono (Forest.forall_set (P := fun q cs => ∀ x ∈ cs, x ∈ F q)
    (fun _ hx => hsub.subset hx) fun _ _ _ hx => hx)

/-- Links that close over a child show the forest without it. -/
theorem remove (h : L.Shows live F) (hnull : live .null = false) (hsplit : F p = l ++ c :: r) :
    (L.remove p c l r).Shows live (F.remove p c) := by
  have hnodup : (l ++ c :: r).Nodup := hsplit ▸ h.nodup p
  have hcl : c ∉ l := fun hc => (List.nodup_append.1 hnodup).2.2 c hc c List.mem_cons_self rfl
  have hcr : c ∉ r := (List.nodup_cons.1 (List.nodup_append.1 hnodup).2.1).1
  have herase : F.remove p c = F.set p (l ++ r) := by
    rw [Forest.remove, hsplit, List.erase_append_right _ hcl, List.erase_cons_head]
  have hmem : ∀ x, x ∈ F p ∧ x ∉ l ++ r ↔ x = c := by
    intro x
    rw [hsplit]
    constructor
    · rintro ⟨hx, hnot⟩
      simp_all
    · rintro rfl
      simp [hcl, hcr]
  have hl : ∀ x, x ∉ F p → x ∉ l := fun x hx hxl => hx (by simp [hsplit, hxl])
  have hr : ∀ x, x ∉ F p → x ∉ r := fun x hx hxr => hx (by simp [hsplit, hxr])
  have hc : c ∈ F p := by simp [hsplit]
  rw [herase]
  refine h.shrink ?_ (fun x => ?_) (fun x => ?_) ?_ (fun q hq => ?_) rfl rfl
  · rw [hsplit]
    exact List.Sublist.append_left (List.sublist_cons_self c r) l
  · simp only [hmem, Links.remove, Function.update_apply]
  · simp only [Links.remove]
    by_cases hx : x = c
    · subst hx
      simp
    · rw [Function.update_of_ne hx, Function.update_of_ne hx, isSome_setPrev, isSome_setNext,
        h.isSome_siblings?]
  · have hthread := h.threaded p
    rw [hsplit] at hthread
    refine hthread.remove hnodup fun hn => ?_
    exact (h.ne_null hnull (hsplit ▸ hn)).1 rfl
  · refine h.threaded_of_ne hnull hq fun x hxp hxn _ => ?_
    simp only [Links.remove]
    rw [Function.update_of_ne, setPrev_of_ne (ne_head?_getD (hr x hxp) hxn),
      setNext_of_ne (ne_getLast?_getD (hl x hxp) hxn)]
    rintro rfl
    exact hxp hc

/-- Once the children of one parent are struck out, the links show all the other families as before.
-/
theorem clear (h : L.Shows live F) : (L.clear p (F p)).Shows live (F.set p []) := by
  refine h.shrink (List.nil_sublist _) (fun x => ?_) (fun x => ?_) trivial (fun q hq => ?_) rfl rfl
  · simp [Links.clear, dropEach]
  · simp only [Links.clear, dropEach]
    split
    · rfl
    · exact h.isSome_siblings? x
  · refine (h.threaded q).congr fun x hx => if_neg fun hxp => hq (h.eq_of_mem hx hxp)

end Shows

end Links

end EntityStore
