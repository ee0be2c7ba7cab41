import EntityStore.Proofs.Showing

/-!
# Where edited links lead

The edits of a hierarchy, and the release of an entity, as changes of links that need not show a
forest: a new first child (`Links.link`), a neighbour that is led past a child (`Links.bypass`), a
child that is taken out (`Links.unlink`), all children of a parent (`Links.clear`) and all links of
an entity (`Links.forget`).  For each change one lemma a pointer says where it leads afterwards.
-/

namespace EntityStore

namespace Links

variable {L : Links} {c e h n p q u x : Entity} {k : ChildCount} {kids : List Entity}

/-- Some link leads to an entity. -/
def Mentions (L : Links) (e : Entity) : Prop :=
  ∃ x, L.parentOf? x = some e ∨ L.nextOf? x = some e ∨ L.prevOf? x = some e ∨ L.headOf? x = some e

/-! ## What edits and releases leave -/

/-- The links after `c` was put before the first child `h` of a parent `p`, whose number of children
is still the old one. -/
def join (L : Links) (p c h : Entity) : Links :=
  { L with
    parent? := Function.update L.parent? c (some ⟨p⟩)
    siblings? := Function.update (setPrev L.siblings? h c) c (some { next := h })
    first? := Function.update L.first? p (some ⟨c⟩) }

/-- The links after a new first child `c` of a parent `p`, whose first child was `h` and which has
the number of children `k` now. -/
def link (L : Links) (p c h : Entity) (k : ChildCount) : Links :=
  { L.join p c h with count? := Function.update L.count? p (some k) }

/-- The links after the neighbour `u` before a child, or else its parent `p`, was led on to the
neighbour `n` after it. -/
def bypass (L : Links) (p u n : Entity) : Links :=
  { L with
    siblings? := setNext L.siblings? u n
    first? := if u = .null then Function.update L.first? p (some ⟨n⟩) else L.first? }

/-- The links after a child `c` left a parent `p` with the number of children `k`.  Its neighbours
were `u` before it and `n` after it. -/
def unlink (L : Links) (p c u n : Entity) (k : ChildCount) : Links where
  parent? := Function.update L.parent? c none
  siblings? := Function.update (setPrev (L.bypass p u n).siblings? n u) c none
  first? :=
    if k.size = 1 then Function.update (L.bypass p u n).first? p none
    else (L.bypass p u n).first?
  count? := Function.update L.count? p (if k.size = 1 then none else some ⟨k.size - 1⟩)

/-- The links without those of an entity. -/
def forget (L : Links) (e : Entity) : Links where
  parent? := Function.update L.parent? e none
  siblings? := Function.update L.siblings? e none
  first? := Function.update L.first? e none
  count? := Function.update L.count? e none

/-! ### Single writes -/

section Writes

variable {links : Entity → Option SiblingLinks}

theorem map_next_setPrev :
    (setPrev links e q x).map SiblingLinks.next = (links x).map SiblingLinks.next := by
  by_cases hx : x = e
  · subst hx
    rw [setPrev, Function.update_self, Option.map_map]
    rfl
  · rw [setPrev_of_ne hx]

theorem map_prev_setPrev : (setPrev links e q x).map SiblingLinks.prev =
    if x = e then ((links x).map SiblingLinks.prev).map fun _ => q
    else (links x).map SiblingLinks.prev := by
  by_cases hx : x = e
  · subst hx
    rw [setPrev, Function.update_self, Option.map_map, Option.map_map, if_pos rfl]
    rfl
  · rw [setPrev_of_ne hx, if_neg hx]

theorem map_next_setNext : (setNext links e q x).map SiblingLinks.next =
    if x = e then ((links x).map SiblingLinks.next).map fun _ => q
    else (links x).map SiblingLinks.next := by
  by_cases hx : x = e
  · subst hx
    rw [setNext, Function.update_self, Option.map_map, Option.map_map, if_pos rfl]
    rfl
  · rw [setNext_of_ne hx, if_neg hx]

theorem map_prev_setNext :
    (setNext links e q x).map SiblingLinks.prev = (links x).map SiblingLinks.prev := by
  by_cases hx : x = e
  · subst hx
    rw [setNext, Function.update_self, Option.map_map]
    rfl
  · rw [setNext_of_ne hx]

end Writes

/-! ### Pointers after an edit -/

theorem parentOf?_link :
    (L.link p c h k).parentOf? x = if x = c then some p else L.parentOf? x := by
  simp only [parentOf?, link, join, Function.update_apply, apply_ite (Option.map _),
    Option.map_some]

theorem nextOf?_link : (L.link p c h k).nextOf? x = if x = c then some h else L.nextOf? x := by
  simp only [nextOf?, link, join, Function.update_apply, apply_ite (Option.map _), Option.map_some,
    map_next_setPrev]

theorem prevOf?_link : (L.link p c h k).prevOf? x =
    if x = c then some .null
    else if x = h then (L.prevOf? x).map fun _ => c
    else L.prevOf? x := by
  simp only [prevOf?, link, join, Function.update_apply, apply_ite (Option.map _), Option.map_some,
    map_prev_setPrev]

theorem headOf?_link : (L.link p c h k).headOf? x = if x = p then some c else L.headOf? x := by
  simp only [headOf?, link, join, Function.update_apply, apply_ite (Option.map _), Option.map_some]

theorem sizeOf_link :
    (L.link p c h k).sizeOf x = if x = p then k.size.toNat else L.sizeOf x := by
  simp only [sizeOf, link, Function.update_apply, apply_ite (Option.map _), Option.map_some,
    apply_ite (Option.getD · 0), Option.getD_some]

theorem parentOf?_bypass : (L.bypass p u n).parentOf? x = L.parentOf? x := rfl

theorem nextOf?_bypass : (L.bypass p u n).nextOf? x =
    if x = u then (L.nextOf? x).map fun _ => n else L.nextOf? x := by
  simp only [nextOf?, bypass, map_next_setNext]

theorem prevOf?_bypass : (L.bypass p u n).prevOf? x = L.prevOf? x := by
  simp only [prevOf?, bypass, map_prev_setNext]

theorem update_first?_bypass {o : Option FirstChild} :
    Function.update (L.bypass p u n).first? p o = Function.update L.first? p o := by
  unfold bypass
  split
  · exact Function.update_idem ..
  · rfl

theorem headOf?_bypass : (L.bypass p u n).headOf? x =
    if u = .null ∧ x = p then some n else L.headOf? x := by
  unfold headOf? bypass
  by_cases hu : u = .null
  · simp only [hu, if_true, true_and, Function.update_apply, apply_ite (Option.map _),
      Option.map_some]
  · simp only [hu, if_false, false_and]

theorem parentOf?_unlink :
    (L.unlink p c u n k).parentOf? x = if x = c then none else L.parentOf? x := by
  simp only [parentOf?, unlink, Function.update_apply, apply_ite (Option.map _), Option.map_none]

theorem nextOf?_unlink : (L.unlink p c u n k).nextOf? x =
    if x = c then none else (L.bypass p u n).nextOf? x := by
  simp only [nextOf?, unlink, Function.update_apply, apply_ite (Option.map _), Option.map_none,
    map_next_setPrev]

theorem prevOf?_unlink : (L.unlink p c u n k).prevOf? x =
    if x = c then none
    else if x = n then (L.prevOf? x).map fun _ => u
    else L.prevOf? x := by
  simp only [prevOf?, unlink, Function.update_apply, apply_ite (Option.map _), Option.map_none,
    map_prev_setPrev, bypass, map_prev_setNext]

theorem headOf?_unlink : (L.unlink p c u n k).headOf? x =
    if k.size = 1 then if x = p then none else L.headOf? x
    else (L.bypass p u n).headOf? x := by
  by_cases hone : k.size = 1
  · have hold : x ≠ p → (L.bypass p u n).headOf? x = L.headOf? x := fun hx => by
      rw [headOf?_bypass, if_neg fun hux => hx hux.2]
    simp only [headOf?] at hold ⊢
    simp only [unlink, hone, if_true, Function.update_apply, apply_ite (Option.map _),
      Option.map_none]
    split
    · rfl
    · next hx => exact hold hx
  · simp only [headOf?, unlink, hone, if_false]

theorem sizeOf_unlink (hk : k.size ≠ 0) : (L.unlink p c u n k).sizeOf x =
    if x = p then k.size.toNat - 1 else L.sizeOf x := by
  simp only [sizeOf, unlink, Function.update_apply, apply_ite (Option.map _), Option.map_some,
    Option.map_none, apply_ite (Option.getD · 0), Option.getD_some, Option.getD_none]
  have hpos : (1 : UInt64) ≤ k.size := by
    have hne : k.size.toNat ≠ 0 := fun h => hk (UInt64.toNat_inj.1 h)
    rw [UInt64.le_iff_toNat_le, UInt64.toNat_one]
    omega
  rw [UInt64.toNat_sub_of_le _ _ hpos, UInt64.toNat_one]
  by_cases hone : k.size = 1
  · simp [hone]
  · simp [hone]

theorem parentOf?_clear :
    (L.clear p kids).parentOf? x = if x ∈ kids then none else L.parentOf? x := by
  simp only [parentOf?, clear, dropEach, apply_ite (Option.map _), Option.map_none]

theorem nextOf?_clear :
    (L.clear p kids).nextOf? x = if x ∈ kids then none else L.nextOf? x := by
  simp only [nextOf?, clear, dropEach, apply_ite (Option.map _), Option.map_none]

theorem prevOf?_clear :
    (L.clear p kids).prevOf? x = if x ∈ kids then none else L.prevOf? x := by
  simp only [prevOf?, clear, dropEach, apply_ite (Option.map _), Option.map_none]

theorem headOf?_clear : (L.clear p kids).headOf? x = if x = p then none else L.headOf? x := by
  simp only [headOf?, clear, dropEach, Function.update_apply, apply_ite (Option.map _),
    Option.map_none]

theorem sizeOf_clear : (L.clear p kids).sizeOf x = if x = p then 0 else L.sizeOf x := by
  simp only [sizeOf, clear, dropEach, Function.update_apply, apply_ite (Option.map _),
    Option.map_none, apply_ite (Option.getD · 0), Option.getD_none]

theorem parentOf?_forget : (L.forget e).parentOf? x = if x = e then none else L.parentOf? x := by
  simp only [parentOf?, forget, Function.update_apply, apply_ite (Option.map _), Option.map_none]

theorem nextOf?_forget : (L.forget e).nextOf? x = if x = e then none else L.nextOf? x := by
  simp only [nextOf?, forget, Function.update_apply, apply_ite (Option.map _), Option.map_none]

theorem prevOf?_forget : (L.forget e).prevOf? x = if x = e then none else L.prevOf? x := by
  simp only [prevOf?, forget, Function.update_apply, apply_ite (Option.map _), Option.map_none]

theorem headOf?_forget : (L.forget e).headOf? x = if x = e then none else L.headOf? x := by
  simp only [headOf?, forget, Function.update_apply, apply_ite (Option.map _), Option.map_none]

theorem sizeOf_forget : (L.forget e).sizeOf x = if x = e then 0 else L.sizeOf x := by
  simp only [sizeOf, forget, Function.update_apply, apply_ite (Option.map _), Option.map_none,
    apply_ite (Option.getD · 0), Option.getD_none]

end Links

/-- The links of an entity go with it. -/
theorem Contents.links_release {S : Schema} {m : Contents S} {t : S.Tag} {e : Entity} :
    (m.release e).links t = (m.links t).forget e := by
  have hvalue : ∀ d : Component S, (fun x => (m.release e).value? x d) =
      Function.update (fun x => m.value? x d) e none := by
    intro d
    funext x
    by_cases hx : x = e
    · simp [hx]
    · rw [Function.update_of_ne hx, value?_release_of_ne hx]
  ext1
  · exact hvalue (.parentLink t)
  · exact hvalue (.siblingLinks t)
  · exact hvalue (.firstChild t)
  · exact hvalue (.childCount t)

end EntityStore
