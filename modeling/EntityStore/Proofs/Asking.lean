import EntityStore.Hierarchy.Children
import EntityStore.Proofs.Operations
import EntityStore.Proofs.Showing
import Mathlib.Data.List.Perm.Subperm

/-!
# Questions about a hierarchy

Every question about an entity fails if the entity is neither live nor null.  Where the links of a
tag show a forest, no other question fails, and its answer can be read off the forest.

Some questions can be answered without a forest.  A walk over the children of a parent finds those
on the trail from the first child on, if it has an end (`Sound.listFrom_eq`), and the chain of
parents meets the entities that are reached by steps up from live entities, whatever the links are
(`exists_chainReaches`).

Two walks need a bound.  The list of the children of a parent has no repetition, and each child
has sibling links, so the list is shorter than `Store.listBound`.  The chain of parents above an
entity may come back to a node that it passed, and ends there.  The nodes that it passed are live
and distinct, so they are no more than the slots, and steps from them lead only to each other and
to the node at hand (`Passed`).
-/

namespace EntityStore.Store

variable {S : Schema} {s : Store S} {t : S.Tag} {F : Forest} {a c e p x : Entity}
  {d : Component S}

/-- Whether a question about an entity may be asked. -/
def Askable (s : Store S) (e : Entity) : Prop := s.valid e = true ∨ e = .null

/-- The links of a tag show a forest. -/
def Shows (s : Store S) (t : S.Tag) (F : Forest) : Prop := (s.contents.links t).Shows s.valid F

/-! ## Single links -/

theorem assertValid_of_valid (he : s.valid e = true) : s.assertValid e = .ok () := by
  simp [assertValid, check, he, Except.mapError]

theorem assertValid_of_not_askable (he : ¬ s.Askable e) :
    s.assertValid e = .error (.refused (.stale e)) ∧ e.isNull = false := by
  obtain ⟨hv, hn⟩ := not_or.1 he
  exact ⟨by simp [assertValid, check, hv, Except.mapError], by simpa [Entity.isNull] using hn⟩

/-- The null handle has no values. -/
theorem Sound.lookup?_null (h : s.Sound) : s.lookup? .null d = none :=
  h.lookup?_eq_none h.valid_null

theorem get_of_lookup? (he : s.valid e = true) {v : d.Value} (hv : s.lookup? e d = some v) :
    s.get e d = .ok v := by
  rw [get, fetch, hv, check, if_pos he]
  rfl

/-- A value is got exactly from a live entity that has it. -/
theorem get_eq_ok_iff {v : d.Value} :
    s.get e d = .ok v ↔ s.valid e = true ∧ s.lookup? e d = some v := by
  refine ⟨fun hget => ?_, fun ⟨he, hv⟩ => get_of_lookup? he hv⟩
  rw [get_eq fun _ => s.contents, Contents.withValue] at hget
  cases he : s.valid e with
  | false =>
    rw [Contents.onLive_of_dead he] at hget
    cases hget
  | true =>
    rw [Contents.onLive_of_live he, value?_contents] at hget
    cases hv : s.lookup? e d with
    | none =>
      rw [hv] at hget
      cases hget
    | some w =>
      rw [hv] at hget
      exact ⟨rfl, congrArg some (Except.ok.inj hget)⟩

theorem get?_of_valid (he : s.valid e = true) : s.get? e d = .ok (s.lookup? e d) := by
  rw [get?, assertValid_of_valid he]
  rfl

theorem Sound.has_of_valid (h : s.Sound) (he : s.valid e = true) :
    s.has e d = .ok (s.lookup? e d).isSome := by
  rw [has, assertValid_of_valid he, h.carries_eq]
  rfl

/-- A stale handle is refused. -/
theorem get?_of_not_askable (he : ¬ s.Askable e) :
    s.get? e d = .error (.refused (.stale e)) := by
  rw [get?, (assertValid_of_not_askable he).1]
  rfl

theorem has_of_not_askable (he : ¬ s.Askable e) : s.has e d = .error (.refused (.stale e)) := by
  rw [has, (assertValid_of_not_askable he).1]
  rfl

/-- The parent is what the link to the parent says. -/
theorem Sound.parentOf?_eq (h : s.Sound) (he : s.Askable e) :
    s.parentOf? t e = .ok ((s.lookup? e (.parentLink t)).map ParentLink.parent) := by
  unfold parentOf?
  split
  · next hn => rw [Entity.isNull_iff.1 hn, h.lookup?_null]; rfl
  · next hn =>
    rw [get?_of_valid (he.resolve_right (mt Entity.isNull_iff.2 hn))]
    rfl

/-- The first child is what the parent records. -/
theorem Sound.firstChildOf?_eq (h : s.Sound) (he : s.Askable e) :
    s.firstChildOf? t e = .ok ((s.lookup? e (.firstChild t)).map FirstChild.first) := by
  unfold firstChildOf?
  split
  · next hn => rw [Entity.isNull_iff.1 hn, h.lookup?_null]; rfl
  · next hn =>
    rw [get?_of_valid (he.resolve_right (mt Entity.isNull_iff.2 hn))]
    rfl

/-- The number of children is what the parent records, or none. -/
theorem Sound.childCount_eq (h : s.Sound) (he : s.Askable e) :
    s.childCount t e = .ok (((s.lookup? e (.childCount t)).map ChildCount.size).getD 0) := by
  unfold childCount
  split
  · next hn => rw [Entity.isNull_iff.1 hn, h.lookup?_null]; rfl
  · next hn =>
    rw [get?_of_valid (he.resolve_right (mt Entity.isNull_iff.2 hn))]
    rfl

/-- Where the two links of a child come together, it is told a child by either of them. -/
theorem Sound.isChild_eq (h : s.Sound) (hc : s.Askable c)
    (hpair : (s.lookup? c (.siblingLinks t)).isSome = (s.lookup? c (.parentLink t)).isSome) :
    s.isChild t c = .ok (s.lookup? c (.parentLink t)).isSome := by
  unfold isChild
  split
  · next hn => rw [Entity.isNull_iff.1 hn, h.lookup?_null]; rfl
  · next hn =>
    have hv := hc.resolve_right (mt Entity.isNull_iff.2 hn)
    rw [h.has_of_valid hv, h.has_of_valid hv, hpair]
    exact if_pos rfl

/-- Where the two records of a parent come together, it is told a parent by either of them. -/
theorem Sound.isParent_eq (h : s.Sound) (hp : s.Askable p)
    (hpair : (s.lookup? p (.childCount t)).isSome = (s.lookup? p (.firstChild t)).isSome) :
    s.isParent t p = .ok (s.lookup? p (.firstChild t)).isSome := by
  unfold isParent
  split
  · next hn => rw [Entity.isNull_iff.1 hn, h.lookup?_null]; rfl
  · next hn =>
    have hv := hp.resolve_right (mt Entity.isNull_iff.2 hn)
    rw [h.has_of_valid hv, h.has_of_valid hv, hpair]
    exact if_pos rfl

/-- A child is said to be a child of whom its link names, whether that one is live or not. -/
theorem Sound.isChildOf_eq (h : s.Sound) (hc : s.Askable c) :
    s.isChildOf t p c = .ok (decide (s.lookup? c (.parentLink t) = some (⟨p⟩ : ParentLink))) := by
  rw [isChildOf, h.parentOf?_eq hc]
  have hiff := Links.parentOf?_eq_some_iff (L := s.contents.links t) (c := c) (p := p)
  exact congrArg Except.ok (decide_eq_decide.2 hiff)

theorem parentOf?_of_not_askable (he : ¬ s.Askable e) :
    s.parentOf? t e = .error (.refused (.stale e)) := by
  rw [parentOf?, (assertValid_of_not_askable he).2, get?_of_not_askable he]
  rfl

theorem firstChildOf?_of_not_askable (he : ¬ s.Askable e) :
    s.firstChildOf? t e = .error (.refused (.stale e)) := by
  rw [firstChildOf?, (assertValid_of_not_askable he).2, get?_of_not_askable he]
  rfl

theorem childCount_of_not_askable (he : ¬ s.Askable e) :
    s.childCount t e = .error (.refused (.stale e)) := by
  rw [childCount, (assertValid_of_not_askable he).2, get?_of_not_askable he]
  rfl

theorem isChildOf_of_not_askable (he : ¬ s.Askable c) :
    s.isChildOf t p c = .error (.refused (.stale c)) := by
  rw [isChildOf, parentOf?_of_not_askable he]
  rfl

theorem isChild_of_not_askable (he : ¬ s.Askable e) :
    s.isChild t e = .error (.refused (.stale e)) := by
  rw [isChild, (assertValid_of_not_askable he).2, has_of_not_askable he]
  rfl

theorem isParent_of_not_askable (he : ¬ s.Askable e) :
    s.isParent t e = .error (.refused (.stale e)) := by
  rw [isParent, (assertValid_of_not_askable he).2, has_of_not_askable he]
  rfl

theorem isAncestorOf_of_not_askable (he : ¬ s.Askable e) :
    s.isAncestorOf t a e = .error (.refused (.stale e)) := by
  rw [isAncestorOf, parentOf?_of_not_askable he]
  rfl

theorem children_of_not_askable (he : ¬ s.Askable e) :
    s.children t e = .error (.refused (.stale e)) := by
  rw [children, firstChildOf?_of_not_askable he]
  rfl

theorem listChildren_of_not_askable (he : ¬ s.Askable e) :
    s.listChildren t e = .error (.refused (.stale e)) := by
  rw [listChildren, children_of_not_askable he]
  rfl

/-! ## Links that show a forest -/

namespace Shows

theorem parent?_eq (hF : s.Shows t F) (hc : c ∈ F p) :
    s.lookup? c (.parentLink t) = some (⟨p⟩ : ParentLink) := Links.Shows.parent?_eq hF hc

theorem parent_iff (hF : s.Shows t F) :
    s.lookup? c (.parentLink t) = some (⟨p⟩ : ParentLink) ↔ c ∈ F p :=
  Links.Shows.parent_iff hF p c

theorem valid (hF : s.Shows t F) (hc : c ∈ F p) : s.valid c = true ∧ s.valid p = true :=
  Links.Shows.live hF p c hc

theorem isSome_siblings? (hF : s.Shows t F) :
    (s.lookup? c (.siblingLinks t)).isSome = (s.lookup? c (.parentLink t)).isSome :=
  Links.Shows.isSome_siblings? hF c

theorem first?_eq (hF : s.Shows t F) : s.lookup? p (.firstChild t) = headOf (F p) :=
  Links.Shows.first?_eq hF p

theorem count?_eq (hF : s.Shows t F) : s.lookup? p (.childCount t) = countOf (F p) :=
  Links.Shows.count?_eq hF p

/-- The children of a parent are no more than the slots. -/
theorem length_le (hF : s.Shows t F) : (F p).length ≤ s.slotCount :=
  length_le_slotCount (Links.Shows.nodup hF p) fun _ hc => (hF.valid hc).1

/-- A list of children is never so long that its number does not fit. -/
theorem length_lt_size (hF : s.Shows t F) (h : s.Sound) : (F p).length + 1 < UInt64.size := by
  have hlen := hF.length_le (p := p)
  have hslot := h.slotCount_le
  have hlimit : Allocator.slotLimit + 1 < UInt64.size := by decide
  omega

/-! ### Presence, parents and heads -/

/-- The parent of an entity is the one that lists it. -/
theorem exists_parentOf? (hF : s.Shows t F) (h : s.Sound) (hc : s.Askable c) :
    ∃ o, s.parentOf? t c = .ok o ∧ ∀ p, o = some p ↔ c ∈ F p := by
  refine ⟨_, h.parentOf?_eq hc, fun p => ?_⟩
  rw [← hF.parent_iff, Option.map_eq_some_iff]
  constructor
  · rintro ⟨⟨q⟩, hq, rfl⟩
    exact hq
  · exact fun hp => ⟨⟨p⟩, hp, rfl⟩

/-- The question for an edge is answered by the forest. -/
theorem isChildOf_eq (hF : s.Shows t F) (h : s.Sound) (hc : s.Askable c) :
    s.isChildOf t p c = .ok (decide (c ∈ F p)) := by
  rw [h.isChildOf_eq hc]
  exact congrArg Except.ok (decide_eq_decide.2 hF.parent_iff)

theorem isChild_eq (hF : s.Shows t F) (h : s.Sound) (hc : s.Askable c) :
    s.isChild t c = .ok (s.lookup? c (.parentLink t)).isSome := h.isChild_eq hc hF.isSome_siblings?

theorem isSome_first? (hF : s.Shows t F) :
    (s.lookup? p (.firstChild t)).isSome = decide (F p ≠ []) := by
  rw [hF.first?_eq, headOf]
  cases F p <;> simp

theorem isSome_count? (hF : s.Shows t F) :
    (s.lookup? p (.childCount t)).isSome = decide (F p ≠ []) := by
  rw [hF.count?_eq, countOf]
  cases F p <;> simp

/-- A parent is who has children in the forest. -/
theorem isParent_eq (hF : s.Shows t F) (h : s.Sound) (hp : s.Askable p) :
    s.isParent t p = .ok (decide (F p ≠ [])) := by
  rw [h.isParent_eq hp (hF.isSome_count?.trans hF.isSome_first?.symm), hF.isSome_first?]

/-- The first child comes first in the forest. -/
theorem firstChildOf?_eq (hF : s.Shows t F) (h : s.Sound) (hp : s.Askable p) :
    s.firstChildOf? t p = .ok (F p).head? := by
  rw [h.firstChildOf?_eq hp, hF.first?_eq, headOf, Option.map_map]
  exact congrArg Except.ok (congrFun Option.map_id (F p).head?)

/-- The number of children is their number in the forest. -/
theorem childCount_eq (hF : s.Shows t F) (h : s.Sound) (hp : s.Askable p) :
    s.childCount t p = .ok (UInt64.ofNat (F p).length) := by
  rw [h.childCount_eq hp, hF.count?_eq, countOf]
  split
  · next hnil => rw [hnil]; rfl
  · rfl

end Shows

/-! ## Walks along the children -/

theorem nextChild_null {w : Children} (hw : w.next = .null) : s.nextChild t w = .ok (none, w) := by
  rw [nextChild, if_pos (Entity.isNull_iff.2 hw)]
  rfl

theorem nextChild_of_links {w : Children} {v : SiblingLinks} (hn : w.next ≠ .null)
    (hv : s.valid w.next = true) (hl : s.lookup? w.next (.siblingLinks t) = some v) :
    s.nextChild t w = .ok (some w.next, ⟨v.next, w.remaining - 1⟩) := by
  rw [nextChild, if_neg (mt Entity.isNull_iff.1 hn), get_of_lookup? hv hl]
  rfl

theorem nextChild_of_not_valid {w : Children} (hn : w.next ≠ .null)
    (hv : s.valid w.next = false) : s.nextChild t w = .error (.refused (.stale w.next)) := by
  have hget : s.get w.next (.siblingLinks t) = .error (.refused (.stale w.next)) := by
    rw [get, fetch, check, hv]
    rfl
  rw [nextChild, if_neg (mt Entity.isNull_iff.1 hn), hget]
  rfl

variable {before z : Entity} {cs : List Entity} {n : Nat} {w : Children}

/-- The answer of a walk that came to an entity without links: it is at the end of the list, or
breaks off. -/
def atEnd {α : Type} (z : Entity) (a : α) : Except Fault α :=
  if z = .null then .ok a else .error (.refused (.stale z))

/-- A child has a next one if it has neighbours, and then it is live. -/
theorem Sound.nextChild_eq (h : s.Sound) {y : Entity}
    (hw : (s.contents.links t).nextOf? w.next = some y) :
    s.nextChild t w = .ok (some w.next, ⟨y, w.remaining - 1⟩) := by
  obtain ⟨v, hv, rfl⟩ := Option.map_eq_some_iff.1 hw
  have hlive : s.valid w.next = true := h.valid_of_lookup? hv
  exact nextChild_of_links (h.ne_null hlive) hlive hv

theorem nextChild_atEnd (hz : s.valid w.next = false) :
    s.nextChild t w = atEnd w.next (none, w) := by
  unfold atEnd
  split
  · next hnull => exact nextChild_null hnull
  · next hnull => exact nextChild_of_not_valid hnull hz

/-- A walk finds the children on the trail from a place on, if it may take more steps than there
are. -/
theorem Sound.listFrom_eq (h : s.Sound) (htrail : Trail (s.contents.links t).nextOf? w.next cs z)
    (hz : s.valid z = false) (hn : cs.length < n) : s.listFrom t p n w = atEnd z cs := by
  induction n generalizing cs w with
  | zero => simp at hn
  | succ n ih =>
    generalize hx : w.next = x at htrail
    cases htrail with
    | last =>
      subst hx
      rw [listFrom, nextChild_atEnd hz, atEnd, atEnd]
      split <;> rfl
    | @step _ y _ cs hy rest =>
      subst hx
      have hrest := ih (w := ⟨y, w.remaining - 1⟩) rest (Nat.lt_of_succ_lt_succ hn)
      rw [listFrom, h.nextChild_eq hy]
      change (s.listFrom t p n _ >>= _) = _
      rw [hrest, atEnd, atEnd]
      split <;> rfl

/-- A walk meets an entity if it is on the trail from a place on, and otherwise comes to the
end. -/
theorem Sound.comesFrom_eq (h : s.Sound) (htrail : Trail (s.contents.links t).nextOf? w.next cs z)
    (hz : s.valid z = false) (hn : cs.length < n) :
    s.comesFrom t p x n w = if x ∈ cs then .ok true else atEnd z false := by
  induction n generalizing cs w with
  | zero => simp at hn
  | succ n ih =>
    generalize hx : w.next = c at htrail
    cases htrail with
    | last =>
      subst hx
      rw [comesFrom, nextChild_atEnd hz, if_neg List.not_mem_nil, atEnd, atEnd]
      split <;> rfl
    | @step _ y _ cs hy rest =>
      subst hx
      have hrest := ih (w := ⟨y, w.remaining - 1⟩) rest (Nat.lt_of_succ_lt_succ hn)
      rw [comesFrom, h.nextChild_eq hy]
      change (if w.next = x then _ else s.comesFrom t p x n _) = _
      rw [hrest]
      by_cases hxw : w.next = x
      · rw [if_pos hxw, if_pos (hxw ▸ List.mem_cons_self)]
        rfl
      · rw [if_neg hxw]
        simp [Ne.symm hxw]

/-- A walk along threaded children may be taken step by step, and on after its end. -/
theorem exists_stepChildren (hthread : Threaded (s.contents.links t).siblings? before cs .null)
    (hlive : ∀ x ∈ cs, x ≠ .null ∧ s.valid x = true) (hw : w.next = cs.head?.getD .null) :
    ∃ shown, s.stepChildren t n w = .ok shown := by
  induction n generalizing before cs w with
  | zero => exact ⟨[], rfl⟩
  | succ n ih =>
    cases cs with
    | nil =>
      obtain ⟨shown, hrest⟩ := ih hthread hlive hw
      refine ⟨(none, w.sizeHint) :: shown, ?_⟩
      rw [stepChildren, nextChild_null hw]
      change (s.stepChildren t n w >>= _) = _
      rw [hrest]
      rfl
    | cons c cs =>
      obtain rfl : w.next = c := hw
      obtain ⟨hnull, hv⟩ := hlive _ List.mem_cons_self
      obtain ⟨shown, hrest⟩ := ih (w := ⟨cs.head?.getD .null, w.remaining - 1⟩) hthread.2
        (fun x hx => hlive x (List.mem_cons_of_mem _ hx)) rfl
      refine ⟨(some w.next, Children.sizeHint ⟨cs.head?.getD .null, w.remaining - 1⟩) :: shown, ?_⟩
      rw [stepChildren, nextChild_of_links hnull hv hthread.1]
      change (s.stepChildren t n _ >>= _) = _
      rw [hrest]
      rfl

/-- The bound of a walk is greater than the number of entities with neighbours. -/
theorem Sound.length_lt_listBound (h : s.Sound) (hn : cs.Nodup)
    (hcs : ∀ x ∈ cs, (s.lookup? x (.siblingLinks t)).isSome = true) :
    cs.length < s.listBound t := by
  rw [listBound, Nat.lt_succ_iff]
  cases hpool : s.pool? (.siblingLinks t) with
  | none =>
    have hnil : cs = [] := List.eq_nil_iff_forall_not_mem.2 fun x hx => by
      have hsome := hcs x hx
      simp [lookup?_of_pool?_eq_none hpool] at hsome
    rw [hnil]
    exact Nat.zero_le _
  | some q =>
    have hsub : ∀ x ∈ cs, x ∈ q.entities := fun x hx => by
      rw [(h.packed _ q hpool).mem_entities_iff_isSome, ← lookup?_of_pool? hpool]
      exact hcs x hx
    have hle := (List.subperm_of_subset hn hsub).length_le
    simpa [Pool.entities, Pool.size] using hle

namespace Shows

/-- From its first child on the children of a parent are a trail to the null handle. -/
theorem trail (hF : s.Shows t F) (h : s.Sound) (p : Entity) :
    Trail (s.contents.links t).nextOf? ((F p).head?.getD .null) (F p) .null :=
  (Links.Shows.threaded hF p).trail (Links.Shows.siblings?_null hF h.valid_null)

theorem live_ne_null (hF : s.Shows t F) (h : s.Sound) :
    ∀ x ∈ F p, x ≠ .null ∧ s.valid x = true := fun _ hx =>
  ⟨(Links.Shows.ne_null hF h.valid_null hx).1, (hF.valid hx).1⟩

/-- The bound of a walk is greater than the number of children. -/
theorem length_lt_listBound (hF : s.Shows t F) (h : s.Sound) : (F p).length < s.listBound t :=
  h.length_lt_listBound (Links.Shows.nodup hF p) fun x hx => by
    rw [hF.isSome_siblings?, hF.parent?_eq hx]
    rfl

/-- A walk starts at the first child, with all children still to come. -/
theorem children_eq (hF : s.Shows t F) (h : s.Sound) (hp : s.Askable p) :
    s.children t p = .ok ⟨(F p).head?.getD .null, (UInt64.ofNat (F p).length).toNat⟩ := by
  rw [children, hF.firstChildOf?_eq h hp, hF.childCount_eq h hp]
  rfl

/-- The list of children is the one of the forest. -/
theorem listChildren_eq (hF : s.Shows t F) (h : s.Sound) (hp : s.Askable p) :
    s.listChildren t p = .ok (F p) := by
  rw [listChildren, hF.children_eq h hp]
  exact h.listFrom_eq (hF.trail h p) h.valid_null (hF.length_lt_listBound h)

/-- The walk for one child finds exactly the children of the forest. -/
theorem hasChild_eq (hF : s.Shows t F) (h : s.Sound) (hp : s.Askable p) :
    s.hasChild t p x = .ok (decide (x ∈ F p)) := by
  unfold hasChild
  split
  · next hn =>
    have hnot : x ∉ F p := fun hx => (hF.live_ne_null h x hx).1 (Entity.isNull_iff.1 hn)
    rw [decide_eq_false hnot]
    rfl
  · rw [hF.children_eq h hp]
    refine (h.comesFrom_eq (hF.trail h p) h.valid_null (hF.length_lt_listBound h)).trans ?_
    by_cases hx : x ∈ F p
    · rw [if_pos hx, decide_eq_true hx]
    · rw [if_neg hx, decide_eq_false hx]
      rfl

end Shows

/-! ## The chain of parents -/

theorem Sound.valid_of_parentOf? (h : s.Sound)
    (hp : (s.contents.links t).parentOf? c = some p) : s.valid c = true :=
  h.valid_of_lookup? (Links.parentOf?_eq_some_iff.1 hp)

section Chains

open Relation

variable {passed : List Entity} {q : Entity} {n : Nat}

/-- A step up leads from a live entity to the parent that its link names.  The null handle has no
links. -/
def StepsUp (s : Store S) (t : S.Tag) (e p : Entity) : Prop :=
  s.valid e = true ∧ e ≠ .null ∧ s.lookup? e (.parentLink t) = some (⟨p⟩ : ParentLink)

/-- The question for the parent is the step that the walk upwards takes. -/
theorem exists_parentOf?_stepsUp (he : s.Askable e) :
    ∃ o, s.parentOf? t e = .ok o ∧ ∀ p, o = some p ↔ s.StepsUp t e p := by
  unfold parentOf?
  split
  · next hnull =>
    exact ⟨none, rfl, fun p => ⟨nofun, fun hup => (hup.2.1 (Entity.isNull_iff.1 hnull)).elim⟩⟩
  · next hnull =>
    have hne := mt Entity.isNull_iff.2 hnull
    have hv := he.resolve_right hne
    refine ⟨_, by rw [get?_of_valid hv]; rfl, fun p => ?_⟩
    exact Links.parentOf?_eq_some_iff (L := s.contents.links t).trans
      ⟨fun hl => ⟨hv, hne, hl⟩, fun hup => hup.2.2⟩

/-- What a chain of parents has passed on its way to a node, and where it did not meet its
target. -/
structure Passed (s : Store S) (t : S.Tag) (target : Entity) (passed : List Entity)
    (node : Entity) : Prop where
  nodup : passed.Nodup
  live : ∀ x ∈ passed, s.valid x = true
  ne_target : ∀ x ∈ passed, x ≠ target
  closed : ∀ x ∈ passed, ∀ y, s.StepsUp t x y → y ∈ node :: passed

namespace Passed

/-- At the start of the walk nothing was passed. -/
theorem nil : s.Passed t a [] e where
  nodup := .nil
  live := nofun
  ne_target := nofun
  closed := nofun

/-- One more node was passed. -/
theorem cons (h : s.Passed t a passed e) (hnew : e ∉ passed) (he : s.valid e = true)
    (hne : e ≠ a) (hq : ∀ y, s.StepsUp t e y → y = q) : s.Passed t a (e :: passed) q where
  nodup := List.nodup_cons.2 ⟨hnew, h.nodup⟩
  live := List.forall_mem_cons.2 ⟨he, h.live⟩
  ne_target := List.forall_mem_cons.2 ⟨hne, h.ne_target⟩
  closed := List.forall_mem_cons.2
    ⟨fun y hy => hq y hy ▸ List.mem_cons_self, fun x hx y hy => .tail _ (h.closed x hx y hy)⟩

/-- From a node that was passed before, only such nodes are reached. -/
theorem not_reached (h : s.Passed t a passed e) (he : e ∈ passed) :
    ¬ ReflTransGen (s.StepsUp t) e a := by
  have hclosed : ∀ y, ReflTransGen (s.StepsUp t) e y → y ∈ passed := by
    intro y hy
    induction hy with
    | refl => exact he
    | tail _ hstep ih => exact (List.mem_cons.1 (h.closed _ ih _ hstep)).elim (· ▸ he) id
  exact fun hreach => h.ne_target a (hclosed a hreach) rfl

end Passed

/-- From a dead entity no step leads upwards. -/
theorem not_reached_of_not_valid (he : s.valid e = false) (hne : e ≠ a) :
    ¬ ReflTransGen (s.StepsUp t) e a := by
  rw [ReflTransGen.cases_head_iff, or_iff_right hne]
  rintro ⟨q, ⟨hv, -⟩, -⟩
  rw [he] at hv
  cases hv

/-- If the chain from a parent on meets exactly the entities that are reached from it, then it meets
those that are reached from the child by one or more steps. -/
theorem exists_chainReaches_parent {o : Option Entity} (hup : ∀ q, o = some q ↔ s.StepsUp t e q)
    (hchain : ∀ q, o = some q → ∃ b, s.chainReaches t a n passed (some q) = .ok b ∧
      (b = true ↔ ReflTransGen (s.StepsUp t) q a)) :
    ∃ b, s.chainReaches t a n passed o = .ok b ∧ (b = true ↔ TransGen (s.StepsUp t) e a) := by
  rw [TransGen.head'_iff]
  cases o with
  | none =>
    refine ⟨false, by cases n <;> rfl, iff_of_false nofun ?_⟩
    rintro ⟨q, hq, -⟩
    cases (hup q).2 hq
  | some q =>
    obtain ⟨b, hb, hiff⟩ := hchain q rfl
    refine ⟨b, hb, hiff.trans ⟨fun hreach => ⟨q, (hup q).1 rfl, hreach⟩, ?_⟩⟩
    rintro ⟨y, hy, hreach⟩
    exact Option.some.inj ((hup y).2 hy) ▸ hreach

/-- The chain of parents from a node on meets exactly the entities that are reached, if it may pass
as many nodes as there are slots left beside those that it passed before. -/
theorem exists_chainReaches (h : s.Passed t a passed e) (hlen : passed.length + n = s.slotCount) :
    ∃ b, s.chainReaches t a n passed (some e) = .ok b ∧
      (b = true ↔ ReflTransGen (s.StepsUp t) e a) := by
  induction n generalizing passed e with
  | zero =>
    refine ⟨_, rfl, ?_⟩
    rw [decide_eq_true_eq]
    refine ⟨fun hea => hea ▸ .refl, fun hreach => ?_⟩
    by_contra hne
    cases hv : s.valid e with
    | false => exact not_reached_of_not_valid hv hne hreach
    | true =>
      -- A live node that is new would be one more than there are slots.
      have hnew : e ∉ passed := fun hmem => h.not_reached hmem hreach
      have hle := length_le_slotCount (s := s) (List.nodup_cons.2 ⟨hnew, h.nodup⟩)
        (List.forall_mem_cons.2 ⟨hv, h.live⟩)
      rw [List.length_cons] at hle
      omega
  | succ n ih =>
    unfold chainReaches
    split_ifs with hea hstop
    · exact ⟨_, rfl, iff_of_true rfl (hea ▸ .refl)⟩
    · refine ⟨_, rfl, iff_of_false nofun ?_⟩
      rw [Bool.or_eq_true, List.contains_iff_mem, Bool.not_eq_true'] at hstop
      exact hstop.elim h.not_reached fun hv => not_reached_of_not_valid hv hea
    · rw [Bool.or_eq_true, List.contains_iff_mem, Bool.not_eq_true', not_or,
        Bool.not_eq_false] at hstop
      obtain ⟨hnew, hv⟩ := hstop
      obtain ⟨o, ho, hup⟩ := exists_parentOf?_stepsUp (t := t) (.inl hv)
      have hchain : ∀ q, o = some q → ∃ b, s.chainReaches t a n (e :: passed) (some q) = .ok b ∧
          (b = true ↔ ReflTransGen (s.StepsUp t) q a) := fun q hq =>
        ih (h.cons hnew hv hea fun y hy => Option.some.inj (((hup y).2 hy).symm.trans hq))
          (by rw [List.length_cons]; omega)
      rw [ho, reflTransGen_iff_eq_or_transGen, or_iff_right (Ne.symm hea)]
      exact exists_chainReaches_parent hup hchain

/-- On any store, an entity lies above another exactly if it is reached by steps up. -/
theorem exists_isAncestorOf (he : s.Askable e) :
    ∃ b, s.isAncestorOf t a e = .ok b ∧ (b = true ↔ TransGen (s.StepsUp t) e a) := by
  obtain ⟨o, ho, hup⟩ := exists_parentOf?_stepsUp (t := t) he
  rw [isAncestorOf, ho]
  exact exists_chainReaches_parent hup fun q _ => exists_chainReaches .nil (Nat.zero_add _)

/-- Only live entities carry links, so on a sound store the steps up are those to the parent. -/
theorem Sound.stepsUp_eq (h : s.Sound) : s.StepsUp t = Steps (s.contents.links t).parentOf? := by
  funext c p
  refine propext ⟨fun hup => Links.parentOf?_eq_some_iff.2 hup.2.2, fun hp => ?_⟩
  have hv := h.valid_of_parentOf? hp
  exact ⟨hv, h.ne_null hv, Links.parentOf?_eq_some_iff.1 hp⟩

/-- An entity lies above another exactly if it is reached by steps to the parent. -/
theorem Sound.isAncestorOf_eq (h : s.Sound) (he : s.Askable e) :
    ∃ b, s.isAncestorOf t a e = .ok b ∧
      (b = true ↔ TransGen (Steps (s.contents.links t).parentOf?) e a) :=
  h.stepsUp_eq ▸ exists_isAncestorOf he

end Chains

namespace Shows

/-- A step to the parent is an edge of the forest. -/
theorem steps_eq (hF : s.Shows t F) : Steps (s.contents.links t).parentOf? = F.Edge := by
  funext c p
  exact propext (Links.parentOf?_eq_some_iff.trans hF.parent_iff)

/-- An entity lies above another in the store exactly if it does in the forest. -/
theorem isAncestorOf_eq (hF : s.Shows t F) (h : s.Sound) (he : s.Askable e) :
    ∃ b, s.isAncestorOf t a e = .ok b ∧ (b = true ↔ F.Above a e) := by
  obtain ⟨b, hb, hiff⟩ := h.isAncestorOf_eq (t := t) (a := a) he
  exact ⟨b, hb, by rw [hiff, hF.steps_eq, Forest.Above]⟩

end Shows

end EntityStore.Store
