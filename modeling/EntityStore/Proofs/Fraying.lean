import EntityStore.Proofs.Pointers
import EntityStore.Proofs.Trails

/-!
# Frayed links

When an entity is destroyed while it is linked, the links of the others still lead to it.  Links
that were edited in between show no forest any more, but they do not run wild either.
`L.Frayed live past` says what is left: a link leads to nothing, to a past handle, or to an entity
whose own links lead back, and neither the parents nor the neighbours lead in a circle.

An edit of frayed links can only do the following.

* A new first child is linked (`Links.link`).
* A child is taken out of its list (`Links.unlink`).
* The removal of a child stops half-way since the neighbour after it is past (`Links.bypass`).  The
  child stays linked, and the neighbour before it leads past it.  This is the one case in which the
  neighbour before an entity does not lead back to it.
* A parent loses all its children (`Links.clear`).

Beside the edits, an entity may be released, which takes its links away, and a new one be issued.
All of these leave frayed links (`Frayed.link`, `Frayed.loses`, `Frayed.release`, `Frayed.issue`).
-/

namespace EntityStore

namespace Links

variable {L L' : Links} {live live' : Entity → Bool} {past past' : Entity → Prop}
  {a b c e h n p q u x y : Entity} {k : ChildCount} {kids : List Entity}

/-! ## Frayed links -/

/-- Loose ends of the links lead to past handles only. -/
structure Frayed (L : Links) (live : Entity → Bool) (past : Entity → Prop) : Prop where
  /-- The null handle is not live. -/
  null_dead : live .null = false
  /-- The null handle is not past. -/
  null_new : ¬ past .null
  /-- A past handle is not live. -/
  past_dead : ∀ x, past x → live x = false
  /-- A child has neighbours exactly if it has a parent. -/
  linked : ∀ c, (L.siblings? c).isSome = (L.parent? c).isSome
  /-- A parent has a number of children exactly if it has a first child. -/
  counted : ∀ p, (L.count? p).isSome = (L.first? p).isSome
  /-- A child is live. -/
  child_live : ∀ c p, L.parentOf? c = some p → live c = true
  /-- An entity with a first child is live. -/
  owner_live : ∀ p h, L.headOf? p = some h → live p = true
  /-- A child names a parent that is live or past. -/
  parent : ∀ c p, L.parentOf? c = some p → live p = true ∨ past p
  /-- The neighbour after a child is past, or it has the same parent and leads back. -/
  next : ∀ a b, L.nextOf? a = some b →
    b = .null ∨ past b ∨ (L.prevOf? b = some a ∧ L.parentOf? b = L.parentOf? a)
  /-- The neighbour before a child is past, or it has the same parent and leads on to the child or
  past it, to what comes after the child and is past. -/
  prev : ∀ a b, L.prevOf? a = some b →
    b = .null ∨ past b ∨ (L.parentOf? b = L.parentOf? a ∧ (L.nextOf? b = some a ∨
      ∃ n, past n ∧ L.nextOf? b = some n ∧ L.nextOf? a = some n))
  /-- The first child of a parent is past, or it names the parent and comes first. -/
  head : ∀ p h, L.headOf? p = some h →
    h = .null ∨ past h ∨ (L.prevOf? h = some .null ∧ L.parentOf? h = some p)
  /-- A live parent has no more children than are recorded. -/
  size : ∀ p, live p = true → ∀ cs : List Entity, cs.Nodup →
    (∀ c ∈ cs, L.parentOf? c = some p) → cs.length ≤ L.sizeOf p
  /-- The parents do not lead in a circle. -/
  parents : NoReturn L.parentOf?
  /-- The neighbours do not lead in a circle. -/
  nexts : NoReturn L.nextOf?

/-- An entity `c` can become the first child of a parent `p`, before the first child `h` if there is
one. -/
structure Linkable (L : Links) (live : Entity → Bool) (p c h : Entity) : Prop where
  /-- The parent is live. -/
  parent_live : live p = true
  /-- The child is live. -/
  child_live : live c = true
  /-- The child has no parent. -/
  root : L.parentOf? c = none
  /-- The parent neither is the child nor lies below it. -/
  not_above : ¬ Relation.ReflTransGen (Steps L.parentOf?) p c
  /-- The first child of the parent is live. -/
  head : L.headOf? p = none ∧ h = .null ∨ L.headOf? p = some h ∧ live h = true

/-- Some child `c` of a parent `p` has the neighbours `u` and `n`, and what should lead to it can be
written to: the parent if the child comes first, or else the neighbour before it. -/
structure Between (L : Links) (live : Entity → Bool) (p c u n : Entity) : Prop where
  /-- The parent. -/
  parent : L.parentOf? c = some p
  /-- The neighbour before the child. -/
  prev : L.prevOf? c = some u
  /-- The neighbour after the child. -/
  next : L.nextOf? c = some n
  /-- What should lead to the child. -/
  entry : u = .null ∧ L.headOf? p = some c ∨ u ≠ .null ∧ live u = true

/-- The two neighbours are what is recorded at the child. -/
theorem Between.siblings?_eq (hc : L.Between live p c u n) :
    L.siblings? c = some { next := n, prev := u } := by
  obtain ⟨⟨n', u'⟩, hv, rfl⟩ := Option.map_eq_some_iff.1 hc.prev
  have hnext : (L.siblings? c).map SiblingLinks.next = some n := hc.next
  rw [hv] at hnext
  obtain rfl : n' = n := Option.some.inj hnext
  exact hv

/-- What an edit that takes edges away can do to frayed links. -/
inductive Loses (live : Entity → Bool) (past : Entity → Prop) (L : Links) : Links → Prop where
  /-- The neighbour after a child is past, so the removal of the child stops half-way. -/
  | stall {p c u n : Entity} (hc : L.Between live p c u n) (hn : past n) :
      Loses live past L (L.bypass p u n)
  /-- A child is taken out. -/
  | unlink {p c u n : Entity} {k : ChildCount} (hc : L.Between live p c u n) (hn : ¬ past n)
      (hp : live p = true) (hk : L.count? p = some k) :
      Loses live past L (L.unlink p c u n k)
  /-- A parent loses all its children. -/
  | clear {p : Entity} {kids : List Entity} (hkids : ∀ x, x ∈ kids ↔ L.parentOf? x = some p) :
      Loses live past L (L.clear p kids)

namespace Frayed

section

variable (hL : L.Frayed live past)
include hL

/-- A neighbour after it, or the null handle for none, is recorded for a child and for nobody else.
-/
theorem isSome_nextOf? : (L.nextOf? x).isSome = (L.parentOf? x).isSome := by
  rw [nextOf?, parentOf?, Option.isSome_map, Option.isSome_map, hL.linked]

/-- A neighbour before it, or the null handle for none, is recorded for a child and for nobody else.
-/
theorem isSome_prevOf? : (L.prevOf? x).isSome = (L.parentOf? x).isSome := by
  rw [prevOf?, parentOf?, Option.isSome_map, Option.isSome_map, hL.linked]

theorem nextOf?_eq_none (hx : L.parentOf? x = none) : L.nextOf? x = none := by
  rw [← Option.not_isSome_iff_eq_none, hL.isSome_nextOf?, hx]
  simp

theorem prevOf?_eq_none (hx : L.parentOf? x = none) : L.prevOf? x = none := by
  rw [← Option.not_isSome_iff_eq_none, hL.isSome_prevOf?, hx]
  simp

/-- A live entity is not the null handle. -/
theorem ne_null (hx : live x = true) : x ≠ .null := by
  rintro rfl
  rw [hL.null_dead] at hx
  cases hx

/-- A live entity is not past. -/
theorem not_past (hx : live x = true) : ¬ past x := fun hpast => by
  rw [hL.past_dead x hpast] at hx
  cases hx

/-- An entity with a neighbour is a live child. -/
theorem live_of_nextOf? (hx : L.nextOf? x = some y) : live x = true := by
  cases hp : L.parentOf? x with
  | none => rw [hL.nextOf?_eq_none hp] at hx; cases hx
  | some p => exact hL.child_live x p hp

theorem live_of_prevOf? (hx : L.prevOf? x = some y) : live x = true := by
  cases hp : L.parentOf? x with
  | none => rw [hL.prevOf?_eq_none hp] at hx; cases hx
  | some p => exact hL.child_live x p hp

/-- The null handle is no child. -/
theorem parentOf?_null : L.parentOf? .null = none := by
  cases hp : L.parentOf? .null with
  | none => rfl
  | some p => exact absurd rfl (hL.ne_null (hL.child_live _ p hp))

theorem nextOf?_null : L.nextOf? .null = none := hL.nextOf?_eq_none hL.parentOf?_null

theorem prevOf?_null : L.prevOf? .null = none := hL.prevOf?_eq_none hL.parentOf?_null

/-- No neighbour leads to a live entity that is no child. -/
theorem nextOf?_ne (hx : live x = true) (hroot : L.parentOf? x = none) :
    L.nextOf? a ≠ some x := by
  intro ha
  rcases hL.next a x ha with hnull | hpast | ⟨hprev, -⟩
  · exact hL.ne_null hx hnull
  · exact hL.not_past hx hpast
  · rw [hL.prevOf?_eq_none hroot] at hprev
    cases hprev

/-! ### Linking -/

/-- The first child of a parent comes first, if it is live. -/
theorem head_of_linkable (hl : L.Linkable live p c h) :
    h = .null ∨ L.prevOf? h = some .null ∧ L.parentOf? h = some p := by
  rcases hl.head with ⟨-, hnull⟩ | ⟨hhead, hlive⟩
  · exact .inl hnull
  · rcases hL.head p h hhead with hnull | hpast | hfirst
    · exact .inl hnull
    · exact absurd hpast (hL.not_past hlive)
    · exact .inr hfirst

/-- A new first child leaves frayed links, if the number of children goes up or is greater than the
number of live entities already. -/
theorem link (hl : L.Linkable live p c h) (hk : L.sizeOf p + 1 ≤ k.size.toNat ∨
    ∀ cs : List Entity, cs.Nodup → (∀ x ∈ cs, live x = true) → cs.length ≤ k.size.toNat) :
    (L.link p c h k).Frayed live past := by
  have hp := hl.parent_live
  have hc := hl.child_live
  have hroot := hl.root
  have hh := hL.head_of_linkable hl
  have hcn := hL.ne_null hc
  have hnext := hL.nextOf?_eq_none hroot
  have hprev := hL.prevOf?_eq_none hroot
  have hhc : h ≠ c := by
    rintro rfl
    rcases hh with hnull | ⟨-, hparent⟩
    · exact hcn hnull
    · rw [hroot] at hparent
      cases hparent
  constructor
  case null_dead => exact hL.null_dead
  case null_new => exact hL.null_new
  case past_dead => exact hL.past_dead
  case linked =>
    intro x
    simp only [Links.link, join, Function.update_apply]
    split
    · rfl
    · rw [isSome_setPrev, hL.linked]
  case counted =>
    intro x
    simp only [Links.link, join, Function.update_apply]
    split
    · rfl
    · exact hL.counted x
  case child_live =>
    intro x q
    rw [parentOf?_link]
    grind [hL.child_live x q]
  case owner_live =>
    intro q x
    rw [headOf?_link]
    grind [hL.owner_live q x]
  case parent =>
    intro x q
    rw [parentOf?_link]
    grind [hL.parent x q]
  case next =>
    intro a b hab
    have ha : a = c ∨ a ≠ .null := by
      rw [nextOf?_link] at hab
      split at hab
      · next hac => exact .inl hac
      · exact .inr (hL.ne_null (hL.live_of_nextOf? hab))
    simp only [nextOf?_link, prevOf?_link, parentOf?_link] at hab ⊢
    grind [hL.next a b]
  case prev =>
    intro a b hab
    simp only [nextOf?_link, prevOf?_link, parentOf?_link] at hab ⊢
    grind [hL.prev a b, hL.prevOf?_null]
  case head =>
    intro q x hx
    have hxc : L.headOf? q = some x → x ≠ c := by
      rintro hq rfl
      grind [hL.head q x hq, hL.not_past hc]
    simp only [headOf?_link, prevOf?_link, parentOf?_link] at hx ⊢
    grind [hL.head q x]
  case size =>
    intro q hq cs hn hcs
    simp only [parentOf?_link, sizeOf_link] at hcs ⊢
    by_cases hqp : q = p
    · subst hqp
      rw [if_pos rfl]
      rcases hk with hk | hk
      · have hold := hL.size q hq (cs.erase c) (hn.erase c) fun x hx => by
          obtain ⟨hxc, hx⟩ := hn.mem_erase_iff.1 hx
          have hxq := hcs x hx
          rwa [if_neg hxc] at hxq
        have herase := List.length_erase_le (a := c) (l := cs)
        have hle : cs.length ≤ (cs.erase c).length + 1 := by
          rw [List.length_erase]
          split <;> omega
        omega
      · refine hk cs hn fun x hx => ?_
        have hxq := hcs x hx
        split at hxq
        · next hxc => rwa [hxc]
        · exact hL.child_live x q hxq
    · rw [if_neg hqp]
      refine hL.size q hq cs hn fun x hx => ?_
      have hxq := hcs x hx
      split at hxq
      · exact absurd (Option.some.inj hxq).symm hqp
      · exact hxq
  case parents =>
    refine hL.parents.insert (a := c) (b := p) (fun x y hxy => ?_) hl.not_above
    rw [parentOf?_link] at hxy
    grind
  case nexts =>
    refine hL.nexts.insert (a := c) (b := h) (fun x y hxy => ?_) fun hreach => ?_
    · rw [nextOf?_link] at hxy
      grind
    · rcases Relation.ReflTransGen.cases_tail hreach with heq | ⟨a, -, ha⟩
      · exact hhc heq.symm
      · exact hL.nextOf?_ne hc hroot ha

/-! ### Unlinking -/

/-- What leads to a child that can be taken out. -/
theorem entry (hc : L.Between live p c u n) :
    u = .null ∧ L.headOf? p = some c ∨
      u ≠ .null ∧ L.parentOf? u = some p ∧
        (L.nextOf? u = some c ∨ past n ∧ L.nextOf? u = some n) := by
  rcases hc.entry with hfirst | ⟨hne, hlive⟩
  · exact .inl hfirst
  · rcases hL.prev c u hc.prev with hnull | hpast | ⟨hparent, hnext | ⟨m, hm, hu, hn⟩⟩
    · exact absurd hnull hne
    · exact absurd hpast (hL.not_past hlive)
    · exact .inr ⟨hne, hparent.trans hc.parent, .inl hnext⟩
    · obtain rfl : n = m := Option.some.inj (hc.next.symm.trans hn)
      exact .inr ⟨hne, hparent.trans hc.parent, .inr ⟨hm, hu⟩⟩

/-- To lead past a child is to go two steps at once, or to go where one step went before. -/
theorem transGen_bypass (hc : L.Between live p c u n) (hab : (L.bypass p u n).nextOf? a = some b) :
    Relation.TransGen (Steps L.nextOf?) a b := by
  rw [nextOf?_bypass] at hab
  split at hab
  · next hau =>
    subst hau
    rcases hL.entry hc with ⟨hnull, -⟩ | ⟨-, -, hnext | ⟨-, hnext⟩⟩
    · rw [hnull, hL.nextOf?_null] at hab
      cases hab
    · rw [hnext, Option.map_some, Option.some.injEq] at hab
      subst hab
      exact .tail (.single hnext) hc.next
    · rw [hnext, Option.map_some] at hab
      exact .single (hnext.trans hab)
  · exact .single hab

/-- A bypass keeps a first child where there was one. -/
theorem counted_bypass (hc : L.Between live p c u n) :
    (L.count? x).isSome = ((L.bypass p u n).first? x).isSome := by
  rw [← isSome_headOf?, headOf?_bypass, hL.counted, ← isSome_headOf?]
  split
  · next hu =>
    rcases hL.entry hc with ⟨-, hhead⟩ | ⟨hne, -⟩
    · rw [hu.2, hhead]
      rfl
    · exact absurd hu.1 hne
  · rfl

/-- A removal that stops half-way leaves frayed links. -/
theorem stall (hc : L.Between live p c u n) (hn : past n) : (L.bypass p u n).Frayed live past := by
  have hentry := hL.entry hc
  have hlive := hL.child_live c p hc.parent
  have hpc := hL.not_past hlive
  have hcn := hL.ne_null hlive
  have hcnext := hc.next
  have hcprev := hc.prev
  constructor
  case null_dead => exact hL.null_dead
  case null_new => exact hL.null_new
  case past_dead => exact hL.past_dead
  case linked =>
    intro x
    rw [bypass, isSome_setNext, hL.linked]
  case counted => exact fun x => hL.counted_bypass hc
  case child_live => exact hL.child_live
  case owner_live =>
    intro q x
    rw [headOf?_bypass]
    grind [hL.owner_live q x, hL.owner_live p c]
  case parent => exact hL.parent
  case next =>
    intro a b hab
    rw [nextOf?_bypass] at hab
    rw [prevOf?_bypass, parentOf?_bypass, parentOf?_bypass]
    grind [hL.next a b, hL.nextOf?_null]
  case prev =>
    intro a b hab
    rw [prevOf?_bypass] at hab
    have ha := hL.not_past (hL.live_of_prevOf? hab)
    simp only [nextOf?_bypass, parentOf?_bypass]
    grind [hL.prev a b, hL.nextOf?_null]
  case head =>
    intro q x hx
    rw [headOf?_bypass] at hx
    rw [prevOf?_bypass, parentOf?_bypass]
    grind [hL.head q x]
  case size => exact hL.size
  case parents => exact hL.parents
  case nexts => exact hL.nexts.shortcut fun a b hab => hL.transGen_bypass hc hab

/-- A live parent with a child does not record that it has none. -/
theorem sizeOf_pos (hp : live p = true) (hc : L.parentOf? c = some p) : L.sizeOf p ≠ 0 := by
  have hle := hL.size p hp [c] (List.nodup_singleton c) (by simpa using hc)
  rw [List.length_singleton] at hle
  omega

/-- A live parent with a child records the number of its children. -/
theorem exists_count (hp : live p = true) (hc : L.parentOf? c = some p) :
    ∃ k, L.count? p = some k := by
  rw [← Option.ne_none_iff_exists']
  intro hnone
  refine hL.sizeOf_pos hp hc ?_
  rw [sizeOf, hnone]
  rfl

theorem count_ne_zero (hp : live p = true) (hc : L.parentOf? c = some p)
    (hk : L.count? p = some k) : k.size ≠ 0 := fun hzero => by
  refine hL.sizeOf_pos hp hc ?_
  rw [sizeOf_of_count? hk, hzero]
  rfl

/-- When the last child of a parent is taken out, no first child is left. -/
theorem headOf?_bypass_of_last (hc : L.Between live p c u n) (hn : ¬ past n) (hp : live p = true)
    (hlast : L.sizeOf p = 1) : (L.bypass p u n).headOf? p = some .null := by
  have honly : ∀ x, L.parentOf? x = some p → x = c := by
    intro x hx
    by_contra hne
    have hle := hL.size p hp [x, c] (by simp [hne]) (by simp [hx, hc.parent])
    rw [hlast] at hle
    simp at hle
  have hu : u = .null := by
    rcases hL.entry hc with ⟨hnull, -⟩ | ⟨-, hparent, hnext | ⟨hpast, -⟩⟩
    · exact hnull
    · exact absurd (honly u hparent) (hL.nexts.ne hnext)
    · exact absurd hpast hn
  have hnull : n = .null := by
    rcases hL.next c n hc.next with hnull | hpast | ⟨-, hparent⟩
    · exact hnull
    · exact absurd hpast hn
    · exact absurd (honly n (hparent.trans hc.parent)) (hL.nexts.ne hc.next).symm
  rw [headOf?_bypass, if_pos ⟨hu, rfl⟩, hnull]

/-- A child that is taken out leaves frayed links. -/
theorem unlink (hc : L.Between live p c u n) (hn : ¬ past n) (hp : live p = true)
    (hk : L.count? p = some k) : (L.unlink p c u n k).Frayed live past := by
  have hentry := hL.entry hc
  have hlive := hL.child_live c p hc.parent
  have hpc := hL.not_past hlive
  have hcn := hL.ne_null hlive
  have hcparent := hc.parent
  have hcnext := hc.next
  have hcprev := hc.prev
  have hne := hL.nexts.ne hcnext
  have hafter := hL.next c n hcnext
  have hsize := sizeOf_of_count? hk
  have hkne := hL.count_ne_zero hp hc.parent hk
  have hnextnull := hL.nextOf?_null
  have hprevnull := hL.prevOf?_null
  constructor
  case null_dead => exact hL.null_dead
  case null_new => exact hL.null_new
  case past_dead => exact hL.past_dead
  case linked =>
    intro x
    simp only [Links.unlink, Function.update_apply]
    split
    · rfl
    · rw [isSome_setPrev, bypass, isSome_setNext, hL.linked]
  case counted =>
    intro x
    have hbypass := hL.counted_bypass hc (x := x)
    by_cases hone : k.size = 1
    · simp only [Links.unlink, hone, if_true, Function.update_apply]
      split
      · rfl
      · exact hbypass
    · simp only [Links.unlink, hone, if_false, Function.update_apply]
      split
      · next hxp =>
        rw [← hbypass, hxp, hk]
        rfl
      · exact hbypass
  case child_live =>
    intro x q
    rw [parentOf?_unlink]
    grind [hL.child_live x q]
  case owner_live =>
    intro q x
    rw [headOf?_unlink, headOf?_bypass]
    grind [hL.owner_live q x]
  case parent =>
    intro x q
    rw [parentOf?_unlink]
    grind [hL.parent x q]
  case next =>
    intro a b hab
    simp only [nextOf?_unlink, nextOf?_bypass, prevOf?_unlink, parentOf?_unlink] at hab ⊢
    grind [hL.next a b]
  case prev =>
    intro a b hab
    simp only [nextOf?_unlink, nextOf?_bypass, prevOf?_unlink, parentOf?_unlink] at hab ⊢
    grind [hL.prev a b]
  case head =>
    intro q x hx
    simp only [headOf?_unlink, headOf?_bypass, prevOf?_unlink, parentOf?_unlink] at hx ⊢
    grind [hL.head q x]
  case size =>
    intro q hq cs hcs hkids
    have hold : ∀ x ∈ cs, x ≠ c ∧ L.parentOf? x = some q := by
      intro x hx
      have hxq := hkids x hx
      rw [parentOf?_unlink] at hxq
      split at hxq
      · cases hxq
      · next hxc => exact ⟨hxc, hxq⟩
    rw [sizeOf_unlink hkne]
    split
    · next hqp =>
      -- the child was one more
      have hle := hL.size q hq (c :: cs) (List.nodup_cons.2 ⟨fun hmem => (hold c hmem).1 rfl, hcs⟩)
        (by
          intro x hx
          rcases List.mem_cons.1 hx with rfl | hx
          · rw [hqp]
            exact hcparent
          · exact (hold x hx).2)
      rw [List.length_cons, hqp, hsize] at hle
      omega
    · exact hL.size q hq cs hcs fun x hx => (hold x hx).2
  case parents =>
    refine hL.parents.mono fun a b hab => ?_
    rw [parentOf?_unlink] at hab
    grind
  case nexts =>
    refine hL.nexts.shortcut fun a b hab => ?_
    rw [nextOf?_unlink] at hab
    split at hab
    · cases hab
    · exact hL.transGen_bypass hc hab

/-- A parent that loses all children leaves frayed links. -/
theorem clear (hkids : ∀ x, x ∈ kids ↔ L.parentOf? x = some p) :
    (L.clear p kids).Frayed live past := by
  constructor
  case null_dead => exact hL.null_dead
  case null_new => exact hL.null_new
  case past_dead => exact hL.past_dead
  case linked =>
    intro x
    simp only [Links.clear, dropEach]
    split
    · rfl
    · exact hL.linked x
  case counted =>
    intro x
    simp only [Links.clear, dropEach, Function.update_apply]
    split
    · rfl
    · exact hL.counted x
  case child_live =>
    intro x q
    rw [parentOf?_clear]
    grind [hL.child_live x q]
  case owner_live =>
    intro q x
    rw [headOf?_clear]
    grind [hL.owner_live q x]
  case parent =>
    intro x q
    rw [parentOf?_clear]
    grind [hL.parent x q]
  case next =>
    intro a b hab
    simp only [nextOf?_clear, prevOf?_clear, parentOf?_clear] at hab ⊢
    grind [hL.next a b]
  case prev =>
    intro a b hab
    simp only [nextOf?_clear, prevOf?_clear, parentOf?_clear] at hab ⊢
    grind [hL.prev a b]
  case head =>
    intro q x hx
    simp only [headOf?_clear, prevOf?_clear, parentOf?_clear] at hx ⊢
    grind [hL.head q x]
  case size =>
    intro q hq cs hcs hnames
    have hold : ∀ x ∈ cs, x ∉ kids ∧ L.parentOf? x = some q := by
      intro x hx
      have hxq := hnames x hx
      rw [parentOf?_clear] at hxq
      split at hxq
      · cases hxq
      · next hxk => exact ⟨hxk, hxq⟩
    rw [sizeOf_clear]
    split
    · next hqp =>
      have hnil : cs = [] := List.eq_nil_iff_forall_not_mem.2 fun x hx =>
        (hold x hx).1 ((hkids x).2 (hqp ▸ (hold x hx).2))
      rw [hnil]
      exact Nat.le_refl 0
    · exact hL.size q hq cs hcs fun x hx => (hold x hx).2
  case parents =>
    refine hL.parents.mono fun a b hab => ?_
    rw [parentOf?_clear] at hab
    grind
  case nexts =>
    refine hL.nexts.mono fun a b hab => ?_
    rw [nextOf?_clear] at hab
    grind

/-- An edit that takes edges away leaves frayed links. -/
theorem loses (h : L.Loses live past L') : L'.Frayed live past := by
  cases h with
  | stall hc hn => exact hL.stall hc hn
  | unlink hc hn hp hk => exact hL.unlink hc hn hp hk
  | clear hkids => exact hL.clear hkids

/-- Edits that take edges away, one after another, leave frayed links. -/
theorem wears (h : Relation.ReflTransGen (Loses live past) L L') : L'.Frayed live past := by
  induction h with
  | refl => exact hL
  | tail _ h ih => exact ih.loses h

/-! ### Lists of children -/

/-- Some children of a parent are all of its children if they are as many as are recorded. -/
theorem mem_iff_of_length (hn : kids.Nodup) (hkids : ∀ x ∈ kids, L.parentOf? x = some p)
    (hp : live p = true) (hlen : kids.length = L.sizeOf p) :
    ∀ x, x ∈ kids ↔ L.parentOf? x = some p := by
  refine fun x => ⟨hkids x, fun hx => ?_⟩
  by_contra hnot
  have hle := hL.size p hp (x :: kids) (List.nodup_cons.2 ⟨hnot, hn⟩) fun y hy => by
    rcases List.mem_cons.1 hy with rfl | hy
    · exact hx
    · exact hkids y hy
  rw [List.length_cons] at hle
  omega

/-- A list that starts with a child of a parent, or at a loose end, has children of that parent only
and ends loose. -/
theorem of_trail {es : List Entity} {z : Entity} (htrail : Trail L.nextOf? x es z)
    (hx : x = .null ∨ past x ∨ L.parentOf? x = some p) :
    (∀ y ∈ es, L.parentOf? y = some p) ∧ live z = false := by
  induction htrail with
  | @last z hz =>
    refine ⟨by simp, ?_⟩
    rcases hx with hnull | hpast | hparent
    · rw [hnull]
      exact hL.null_dead
    · exact hL.past_dead z hpast
    · have hsome := hL.isSome_nextOf? (x := z)
      rw [hz, hparent] at hsome
      cases hsome
  | @step a b z es hab rest ih =>
    have ha : L.parentOf? a = some p := by
      have hlive := hL.live_of_nextOf? hab
      rcases hx with hnull | hpast | hparent
      · exact absurd hnull (hL.ne_null hlive)
      · exact absurd hpast (hL.not_past hlive)
      · exact hparent
    have hb : b = .null ∨ past b ∨ L.parentOf? b = some p := by
      rcases hL.next a b hab with hnull | hpast | ⟨-, hsame⟩
      · exact .inl hnull
      · exact .inr (.inl hpast)
      · exact .inr (.inr (hsame.trans ha))
    obtain ⟨hes, hz⟩ := ih hb
    refine ⟨fun y hy => ?_, hz⟩
    rcases List.mem_cons.1 hy with rfl | hy
    · exact ha
    · exact hes y hy

/-! ### Issue and release -/

/-- An entity that was released has no links any more and is past. -/
theorem release (he : live e = true) (hlive : ∀ x, live' x = true ↔ x ≠ e ∧ live x = true)
    (hpast : ∀ x, past' x ↔ x = e ∨ past x) : (L.forget e).Frayed live' past' := by
  have hdead : ∀ x, live' x = false ↔ x = e ∨ live x = false := by
    intro x
    have := hlive x
    grind
  constructor
  case null_dead => exact (hdead _).2 (.inr hL.null_dead)
  case null_new =>
    rw [hpast]
    exact not_or.2 ⟨(hL.ne_null he).symm, hL.null_new⟩
  case past_dead =>
    intro x hx
    exact (hdead x).2 (((hpast x).1 hx).imp_right (hL.past_dead x))
  case linked =>
    intro x
    simp only [forget, Function.update_apply]
    split
    · rfl
    · exact hL.linked x
  case counted =>
    intro x
    simp only [forget, Function.update_apply]
    split
    · rfl
    · exact hL.counted x
  case child_live =>
    intro x q
    rw [parentOf?_forget]
    grind [hL.child_live x q]
  case owner_live =>
    intro q x
    rw [headOf?_forget]
    grind [hL.owner_live q x]
  case parent =>
    intro x q
    rw [parentOf?_forget, hlive, hpast]
    grind [hL.parent x q]
  case next =>
    intro a b hab
    simp only [nextOf?_forget, prevOf?_forget, parentOf?_forget, hpast] at hab ⊢
    grind [hL.next a b]
  case prev =>
    intro a b hab
    simp only [nextOf?_forget, prevOf?_forget, parentOf?_forget, hpast] at hab ⊢
    grind [hL.prev a b]
  case head =>
    intro q x hx
    simp only [headOf?_forget, prevOf?_forget, parentOf?_forget, hpast] at hx ⊢
    grind [hL.head q x]
  case size =>
    intro q hq cs hcs hnames
    obtain ⟨hqe, hq⟩ := (hlive q).1 hq
    rw [sizeOf_forget, if_neg hqe]
    refine hL.size q hq cs hcs fun x hx => ?_
    have hxq := hnames x hx
    rw [parentOf?_forget] at hxq
    split at hxq
    · cases hxq
    · exact hxq
  case parents =>
    refine hL.parents.mono fun a b hab => ?_
    rw [parentOf?_forget] at hab
    grind
  case nexts =>
    refine hL.nexts.mono fun a b hab => ?_
    rw [nextOf?_forget] at hab
    grind

/-- A handle that is issued was neither live nor past, so no child names it. -/
theorem issue (hlive : ∀ x, live' x = true ↔ x = e ∨ live x = true) (hnull : e ≠ .null)
    (hfresh : live e = false) (hpast : ¬ past e) : L.Frayed live' past := by
  have hdead : ∀ x, x ≠ e → live x = false → live' x = false := by
    intro x hx hdead
    rw [Bool.eq_false_iff, ne_eq, hlive]
    simp [hx, hdead]
  refine { hL with
    null_dead := hdead _ hnull.symm hL.null_dead
    past_dead := fun x hx => hdead x (fun hxe => hpast (hxe ▸ hx)) (hL.past_dead x hx)
    child_live := fun c p hc => (hlive c).2 (.inr (hL.child_live c p hc))
    owner_live := fun p h hp => (hlive p).2 (.inr (hL.owner_live p h hp))
    parent := fun c p hc => (hL.parent c p hc).imp_left fun hp => (hlive p).2 (.inr hp)
    size := fun p hp cs hcs hnames => ?_ }
  rcases (hlive p).1 hp with rfl | hp
  · have hnil : cs = [] := List.eq_nil_iff_forall_not_mem.2 fun x hx => by
      rcases hL.parent x p (hnames x hx) with hp | hp
      · rw [hfresh] at hp
        cases hp
      · exact hpast hp
    rw [hnil]
    exact Nat.zero_le _
  · exact hL.size p hp cs hcs hnames

/-! ### What is mentioned -/

/-- Frayed links lead to live and to past handles only. -/
theorem mentions (h : L.Mentions e) : e = .null ∨ live e = true ∨ past e := by
  obtain ⟨x, hparent | hnext | hprev | hhead⟩ := h
  · exact .inr (hL.parent x e hparent)
  · rcases hL.next x e hnext with hnull | hpast | ⟨hback, -⟩
    · exact .inl hnull
    · exact .inr (.inr hpast)
    · exact .inr (.inl (hL.live_of_prevOf? hback))
  · rcases hL.prev x e hprev with hnull | hpast | ⟨-, hon | ⟨n, -, hon, -⟩⟩
    · exact .inl hnull
    · exact .inr (.inr hpast)
    · exact .inr (.inl (hL.live_of_nextOf? hon))
    · exact .inr (.inl (hL.live_of_nextOf? hon))
  · rcases hL.head x e hhead with hnull | hpast | ⟨hback, -⟩
    · exact .inl hnull
    · exact .inr (.inr hpast)
    · exact .inr (.inl (hL.live_of_prevOf? hback))

end

end Frayed

/-- No links at all are frayed links. -/
theorem frayed_empty (hnull : live .null = false) (hnew : ¬ past .null)
    (hpast : ∀ x, past x → live x = false) :
    Frayed ⟨fun _ => none, fun _ => none, fun _ => none, fun _ => none⟩ live past where
  null_dead := hnull
  null_new := hnew
  past_dead := hpast
  linked _ := rfl
  counted _ := rfl
  child_live := by simp [parentOf?]
  owner_live := by simp [headOf?]
  parent := by simp [parentOf?]
  next := by simp [nextOf?]
  prev := by simp [prevOf?]
  head := by simp [headOf?]
  size := by
    intro p _ cs _ hcs
    have hnil : cs = [] := List.eq_nil_iff_forall_not_mem.2 fun x hx => by
      simpa [parentOf?] using hcs x hx
    rw [hnil]
    exact Nat.zero_le _
  parents := noReturn_none
  nexts := noReturn_none

/-! ## What an edit mentions -/

/-- A new first child makes links lead to it and to its parent. -/
theorem Mentions.of_link (hl : L.Linkable live p c h) (hm : (L.link p c h k).Mentions e) :
    L.Mentions e ∨ e = .null ∨ e = p ∨ e = c := by
  have hh := hl.head
  obtain ⟨x, hx⟩ := hm
  have hold : ∀ y, (L.parentOf? y = some e ∨ L.nextOf? y = some e ∨ L.prevOf? y = some e ∨
      L.headOf? y = some e) → L.Mentions e := fun y hy => ⟨y, hy⟩
  simp only [parentOf?_link, nextOf?_link, prevOf?_link, headOf?_link] at hx
  grind [Option.map_eq_some_iff]

/-- What takes edges away leads nowhere that no link led before. -/
theorem Mentions.of_loses (h : L.Loses live past L') (hm : L'.Mentions e) :
    L.Mentions e := by
  obtain ⟨x, hx⟩ := hm
  have hold : ∀ y, (L.parentOf? y = some e ∨ L.nextOf? y = some e ∨ L.prevOf? y = some e ∨
      L.headOf? y = some e) → L.Mentions e := fun y hy => ⟨y, hy⟩
  cases h with
  | stall hc hn =>
    have hnext := hc.next
    simp only [parentOf?_bypass, nextOf?_bypass, prevOf?_bypass, headOf?_bypass] at hx
    grind [Option.map_eq_some_iff]
  | unlink hc hn hp hk =>
    have hnext := hc.next
    have hprev := hc.prev
    simp only [parentOf?_unlink, nextOf?_unlink, prevOf?_unlink, headOf?_unlink, nextOf?_bypass,
      headOf?_bypass] at hx
    grind [Option.map_eq_some_iff]
  | clear hkids =>
    simp only [parentOf?_clear, nextOf?_clear, prevOf?_clear, headOf?_clear] at hx
    grind

/-- Many edits that take edges away lead nowhere that no link led before. -/
theorem Mentions.of_wears (h : Relation.ReflTransGen (Loses live past) L L')
    (hm : L'.Mentions e) : L.Mentions e := by
  induction h with
  | refl => exact hm
  | tail _ h ih => exact ih (hm.of_loses h)

/-- Without the links of one entity the others lead where they led. -/
theorem Mentions.of_forget (hm : (L.forget q).Mentions e) : L.Mentions e := by
  obtain ⟨x, hx⟩ := hm
  refine ⟨x, ?_⟩
  simp only [parentOf?_forget, nextOf?_forget, prevOf?_forget, headOf?_forget] at hx
  grind

end Links

end EntityStore
