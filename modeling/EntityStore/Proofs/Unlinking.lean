import EntityStore.Proofs.Linking
import EntityStore.Proofs.Pointers

/-!
# Unlinking a child

The removal of an edge closes the gap before the child, then the gap after it, then the count goes
down, and at last the child loses its links.  The links between two of these steps show no forest,
so each step is given by the links that it finds and the links that it leaves.

A removal needs the links of the child, of its two neighbours and of its parent only
(`Links.Listed`, `settles_removeChild_of_listed`).  Where the links show a forest, every child has
them (`settles_removeChild`).
-/

namespace EntityStore

variable {S : Schema}

/-- The answer to the question whether there is an edge between a parent and a child.  The child is
looked at only if the parent has children. -/
def Forest.hasEdge (F : Forest) (live : Entity → Bool) (p c : Entity) : Except Fault Bool :=
  if p = .null ∨ c = .null then .ok false
  else if live p = false then .error (.refused (.stale p))
  else if F p = [] then .ok false
  else if live c = false then .error (.refused (.stale c))
  else .ok (decide (c ∈ F p))

namespace Forest

variable {F : Forest} {live : Entity → Bool} {p c : Entity}

/-- Between two entities of which each is live or null, the answer is whether the one lists the
other. -/
theorem hasEdge_of_askable (hnull : live .null = false)
    (hF : ∀ p, ∀ c ∈ F p, live c = true ∧ live p = true)
    (hp : live p = true ∨ p = .null) (hc : live c = true ∨ c = .null) :
    F.hasEdge live p c = .ok (decide (c ∈ F p)) := by
  unfold hasEdge
  split
  · next hpc =>
    have hnot : c ∉ F p := fun hmem => by
      obtain ⟨hlc, hlp⟩ := hF p c hmem
      rcases hpc with rfl | rfl
      · simp [hnull] at hlp
      · simp [hnull] at hlc
    simp [hnot]
  · next hpc =>
    obtain ⟨hpn, hcn⟩ := not_or.1 hpc
    rw [if_neg (by simp [hp.resolve_right hpn])]
    split
    · next hnil => simp [hnil]
    · rw [if_neg (by simp [hc.resolve_right hcn])]

/-- There is an edge exactly if the one lists the other. -/
theorem hasEdge_eq_ok_true_iff (hnull : live .null = false)
    (hF : ∀ p, ∀ c ∈ F p, live c = true ∧ live p = true) :
    F.hasEdge live p c = .ok true ↔ c ∈ F p := by
  constructor
  · unfold hasEdge
    split
    · simp
    split
    · simp
    split
    · simp
    split
    · simp
    · simp
  · intro hmem
    obtain ⟨hc, hp⟩ := hF p c hmem
    rw [hasEdge_of_askable hnull hF (.inl hp) (.inl hc)]
    simp [hmem]

end Forest

/-! ## Children that can be removed -/

namespace Links

variable {L : Links} {live : Entity → Bool} {F : Forest} {p c : Entity} {l r : List Entity}

/-- A child `c` of a live parent `p` comes between the children `l` and `r` as the parent records
them.  The neighbours of the child are linked.  Of the other children nothing is asked. -/
structure Listed (L : Links) (live : Entity → Bool) (p c : Entity) (l r : List Entity) : Prop where
  /-- The null handle is not live. -/
  null_dead : live .null = false
  /-- The null handle has no neighbours. -/
  null_unlinked : L.siblings? .null = none
  /-- The parent is live. -/
  parent_live : live p = true
  /-- The child is live. -/
  child_live : live c = true
  /-- The child names the parent. -/
  parent : L.parent? c = some ⟨p⟩
  /-- The child has the neighbours that it should have. -/
  siblings : L.siblings? c =
    some { next := r.head?.getD .null, prev := l.getLast?.getD .null }
  /-- The child before it is live and has neighbours. -/
  before : ∀ d, l.getLast? = some d → live d = true ∧ (L.siblings? d).isSome = true
  /-- The child after it is live and has neighbours. -/
  after : ∀ d, r.head? = some d → live d = true ∧ (L.siblings? d).isSome = true
  /-- The parent knows its first child. -/
  first : L.first? p = headOf (l ++ c :: r)
  /-- The parent knows the number of its children. -/
  count : L.count? p = countOf (l ++ c :: r)

namespace Listed

/-- The last of the children before the child is live and has neighbours. -/
theorem last (h : L.Listed live p c l r) (hl : l ≠ []) :
    l.getLast?.getD .null ≠ .null ∧ live (l.getLast?.getD .null) = true ∧
      (L.siblings? (l.getLast?.getD .null)).isSome = true := by
  obtain ⟨hlive, hsome⟩ := h.before _ (List.getLast?_eq_some_getLast hl)
  rw [List.getLast?_eq_some_getLast hl, Option.getD_some]
  refine ⟨fun hnull => ?_, hlive, hsome⟩
  rw [hnull, h.null_dead] at hlive
  cases hlive

/-- What leads to the child can be written to. -/
theorem entry (h : L.Listed live p c l r) :
    l.getLast?.getD .null = .null ∧ L.first? p = some ⟨c⟩ ∨
      l.getLast?.getD .null ≠ .null ∧ live (l.getLast?.getD .null) = true ∧
        (L.siblings? (l.getLast?.getD .null)).isSome = true := by
  cases l with
  | nil => exact .inl ⟨rfl, h.first⟩
  | cons d l => exact .inr (h.last (List.cons_ne_nil d l))

/-- Once what led to the child leads past it, the parent knows the first of the others. -/
theorem first_bypass (h : L.Listed live p c l r) :
    (L.bypass p (l.getLast?.getD .null) (r.head?.getD .null)).first? p =
      some ⟨(l ++ r).head?.getD .null⟩ := by
  cases l with
  | nil => simp [bypass]
  | cons d l =>
    rw [bypass, if_neg (h.last (List.cons_ne_nil d l)).1, h.first]
    rfl

end Listed

/-- Where links show a forest, every child can be removed. -/
theorem Shows.listed (hF : L.Shows live F) (hnull : live .null = false)
    (hsplit : F p = l ++ c :: r) : L.Listed live p c l r := by
  have hthread := hF.threaded p
  rw [hsplit, threaded_append, threaded_cons] at hthread
  have hmem : ∀ x, x ∈ l ++ c :: r → live x = true ∧ (L.siblings? x).isSome = true := fun x hx => by
    rw [← hsplit] at hx
    exact ⟨(hF.live p x hx).1, (hF.threaded p).isSome hx⟩
  have hc : c ∈ F p := by simp [hsplit]
  constructor
  case null_dead => exact hnull
  case null_unlinked => exact hF.siblings?_null hnull
  case parent_live => exact (hF.live p c hc).2
  case child_live => exact (hF.live p c hc).1
  case parent => exact hF.parent?_eq hc
  case siblings => exact hthread.2.1
  case before => exact fun d hd => hmem d (List.mem_append_left _ (List.mem_of_getLast? hd))
  case after =>
    intro d hd
    exact hmem d (List.mem_append_right l (List.mem_cons_of_mem c (List.mem_of_head? hd)))
  case first => rw [hF.first?_eq, hsplit]
  case count => rw [hF.count?_eq, hsplit]

end Links

namespace Store

open EntityStore.Action Contents

variable {m : Contents S} {t : S.Tag} {L : Links} {F : Forest} {p c e n q u : Entity}
  {cs l r : List Entity}

/-! ## Closing the gap -/

/-- The child `u` before the gap, or else the parent, leads on to the child `n` after it. -/
theorem settles_closeBefore (hsiblings : L.siblings? .null = none) (hp : m.live p = true)
    (hentry : u = .null ∧ L.first? p = some ⟨c⟩ ∨
      u ≠ .null ∧ m.live u = true ∧ (L.siblings? u).isSome = true) :
    (closeBefore t p c ⟨n, u⟩).Settles (m.relink t L) (.ok ())
      (m.relink t (L.bypass p u n)) := by
  unfold closeBefore
  rcases hentry with ⟨rfl, hfirst⟩ | ⟨hne, hlive, hsome⟩
  · have hvalue : (m.relink t L).value? p (.firstChild t) = some (⟨c⟩ : FirstChild) :=
      firstChild_relink.trans hfirst
    have hhead : (query (·.firstChildOf? t p)).Settles (m.relink t L) (.ok (some c))
        (m.relink t L) :=
      settles_query fun s hs hm => by
        rw [hs.firstChildOf?_eq (askable_of_contents hm (.inl hp)), ← value?_contents, hm, hvalue]
        rfl
    have hupdate := settles_update_of_some (m := m.relink t L) (c := .firstChild t) hp hvalue
      fun _ => (⟨n⟩ : FirstChild)
    rw [relink_assign_firstChild] at hupdate
    rw [if_pos (Entity.isNull_iff.2 rfl), Links.bypass, if_pos rfl, setNext_of_eq_none hsiblings]
    exact hhead.bind ((settles_require (decide_eq_true rfl) _).bind
      (hupdate.bind (settles_pure ())))
  · obtain ⟨w, hw⟩ := Option.isSome_iff_exists.1 hsome
    rw [if_neg (mt Entity.isNull_iff.1 hne), Links.bypass, if_neg hne]
    exact (settles_setNext hlive hw).bind (settles_pure ())

/-- The child after the gap leads back to the child before it. -/
theorem settles_closeAfter (hsiblings : L.siblings? .null = none)
    (he : e ≠ .null → m.live e = true ∧ (L.siblings? e).isSome = true) :
    (closeAfter t ⟨e, q⟩).Settles (m.relink t L) (.ok ())
      (m.relink t { L with siblings? := setPrev L.siblings? e q }) := by
  unfold closeAfter
  by_cases hn : e = .null
  · rw [if_pos (Entity.isNull_iff.2 hn), hn, setPrev_of_eq_none hsiblings]
    exact settles_pure ()
  · obtain ⟨hlive, hsome⟩ := he hn
    obtain ⟨v, hv⟩ := Option.isSome_iff_exists.1 hsome
    rw [if_neg (mt Entity.isNull_iff.1 hn)]
    exact (settles_setPrev hlive hv).bind (settles_pure ())

/-- A child before the gap that is dead cannot be led on. -/
theorem settles_closeBefore_of_dead (hne : u ≠ .null) (hu : m.live u = false) :
    (closeBefore t p c ⟨n, u⟩).Settles m (.error (.refused (.stale u))) m := by
  unfold closeBefore
  rw [if_neg (mt Entity.isNull_iff.1 hne)]
  exact (settles_update_of_dead hu _).bind_error

/-- A child after the gap that is dead cannot be led back. -/
theorem settles_closeAfter_of_dead (hne : e ≠ .null) (he : m.live e = false) :
    (closeAfter t ⟨e, q⟩).Settles m (.error (.refused (.stale e))) m := by
  unfold closeAfter
  rw [if_neg (mt Entity.isNull_iff.1 hne)]
  exact (settles_update_of_dead he _).bind_error

/-! ## Counting down -/

theorem ofNat_succ_sub_one (n : Nat) : UInt64.ofNat (n + 1) - 1 = UInt64.ofNat n := by
  rw [UInt64.ofNat_add]
  exact UInt64.add_sub_cancel _ 1

theorem ofNat_eq_iff {n k : Nat} (hn : n < UInt64.size) (hk : k < UInt64.size) :
    UInt64.ofNat n = UInt64.ofNat k ↔ n = k := by
  rw [← UInt64.toNat_inj, UInt64.toNat_ofNat_of_lt' hn, UInt64.toNat_ofNat_of_lt' hk]

/-- The number of children goes down by one, and a parent without children loses its links. -/
theorem settles_countDown_of_some {k : ChildCount} (hp : m.live p = true)
    (hk : L.count? p = some k) (hpos : k.size ≠ 0)
    (hlast : k.size = 1 → L.first? p = some ⟨.null⟩) :
    (countDown t p).Settles (m.relink t L) (.ok ())
      (m.relink t
        { L with
          first? := if k.size = 1 then Function.update L.first? p none else L.first?
          count? := Function.update L.count? p
            (if k.size = 1 then none else some ⟨k.size - 1⟩) }) := by
  have hget := settles_get_of_some (m := m.relink t L) (c := .childCount t) hp
    (childCount_relink.trans hk)
  refine hget.bind ((settles_require (decide_eq_true hpos) _).bind ?_)
  have hupdate := settles_update_of_some (m := m.relink t L) (c := .childCount t) hp
    (childCount_relink.trans hk) fun (n : ChildCount) => ⟨n.size - 1⟩
  rw [relink_assign_childCount] at hupdate
  refine hupdate.bind ?_
  by_cases hone : k.size = 1
  · have hfirst := hlast hone
    simp only [hone, if_true]
    refine Settles.bind (settles_get_of_some hp (firstChild_relink.trans hfirst)) ?_
    refine (settles_require rfl _).bind ?_
    refine Settles.bind (settles_detach_of_some hp (firstChild_relink.trans hfirst)) ?_
    rw [relink_assign_firstChild]
    refine Settles.bind
      (settles_detach_of_some hp (childCount_relink.trans (Function.update_self ..))) ?_
    rw [relink_assign_childCount, Function.update_idem]
    exact settles_pure ()
  · simp only [hone, if_false]
    exact settles_pure ()

/-- The parent counts one child less, and is no parent once it has lost the last one. -/
theorem settles_countDown (hp : m.live p = true)
    (hfirst : L.first? p = some ⟨cs.head?.getD .null⟩)
    (hcount : L.count? p = some ⟨UInt64.ofNat (cs.length + 1)⟩)
    (hlen : cs.length + 1 < UInt64.size) :
    (countDown t p).Settles (m.relink t L) (.ok ())
      (m.relink t
        { L with
          first? := Function.update L.first? p (headOf cs)
          count? := Function.update L.count? p (countOf cs) }) := by
  have hpos : UInt64.ofNat (cs.length + 1) ≠ 0 := fun hzero => by
    have := (ofNat_eq_iff (k := 0) hlen (by decide)).1 hzero
    omega
  have hone : UInt64.ofNat (cs.length + 1) = 1 ↔ cs = [] := by
    rw [← List.length_eq_zero_iff]
    exact (ofNat_eq_iff (k := 1) hlen (by decide)).trans (by omega)
  have hdown := settles_countDown_of_some (t := t) hp hcount hpos fun hsize => by
    rw [hfirst, hone.1 hsize]
    rfl
  cases cs with
  | nil => exact hdown
  | cons d cs =>
    have hne : ¬ UInt64.ofNat ((d :: cs).length + 1) = 1 := fun hsize => by
      cases hone.1 hsize
    have hkeep : Function.update L.first? p (headOf (d :: cs)) = L.first? := by
      rw [show headOf (d :: cs) = L.first? p from hfirst.symm, Function.update_eq_self]
    rw [hkeep]
    simp only [hne, if_false, ofNat_succ_sub_one] at hdown
    exact hdown

/-! ## Removing an edge -/

/-- The child loses its two components, and no other entity does. -/
theorem settles_dropChildLinks (hc : m.live c = true) (hparent : (L.parent? c).isSome = true)
    (hsome : (L.siblings? c).isSome = true) :
    (dropChildLinks t c).Settles (m.relink t L) (.ok ())
      (m.relink t
        { L with
          parent? := Function.update L.parent? c none
          siblings? := Function.update L.siblings? c none }) := by
  obtain ⟨v, hv⟩ := Option.isSome_iff_exists.1 hparent
  obtain ⟨w, hw⟩ := Option.isSome_iff_exists.1 hsome
  refine Settles.bind (settles_detach_of_some hc (parentLink_relink.trans hv)) ?_
  rw [relink_assign_parentLink]
  refine Settles.bind (settles_detach_of_some hc (siblingLinks_relink.trans hw)) ?_
  rw [relink_assign_siblingLinks]
  exact settles_pure ()

section Edges

variable {s : Store S}

/-- Nothing is the child of the null handle, or has it as a child. -/
theorem hasEdge_null (h : p = .null ∨ c = .null) : s.hasEdge t p c = .ok false := by
  have hnull : (p.isNull || c.isNull) = true := by simpa [Entity.isNull_iff] using h
  rw [hasEdge, if_pos hnull]
  rfl

theorem hasEdge_of_ne_null (hp : p ≠ .null) (hc : c ≠ .null) :
    s.hasEdge t p c = (do if ← s.isParent t p then s.isChildOf t p c else pure false) := by
  have hnull : ¬ (p.isNull || c.isNull) = true := by simp [Entity.isNull_iff, hp, hc]
  rw [hasEdge, if_neg hnull]

/-- There is an edge where a child names a live parent that has children. -/
theorem Sound.hasEdge_of_links (h : s.Sound) (hp : s.valid p = true)
    (hparent : s.lookup? c (.parentLink t) = some (⟨p⟩ : ParentLink))
    (hfirst : (s.lookup? p (.firstChild t)).isSome = true)
    (hcount : (s.lookup? p (.childCount t)).isSome = true) : s.hasEdge t p c = .ok true := by
  have hc : s.valid c = true := h.valid_of_lookup? hparent
  rw [hasEdge_of_ne_null (h.ne_null hp) (h.ne_null hc),
    h.isParent_eq (.inl hp) (hcount.trans hfirst.symm), hfirst, h.isChildOf_eq (.inl hc),
    decide_eq_true hparent]
  rfl

/-- Whether there is an edge cannot be asked of a parent that is neither live nor null. -/
theorem hasEdge_of_not_askable (hp : ¬ s.Askable p) (hc : c ≠ .null) :
    s.hasEdge t p c = .error (.refused (.stale p)) := by
  rw [hasEdge_of_ne_null (not_or.1 hp).2 hc, isParent_of_not_askable hp]
  rfl

/-- A child that is neither live nor null is noticed only if the parent has children. -/
theorem hasEdge_of_child_not_askable (hp : p ≠ .null) (hc : ¬ s.Askable c) :
    s.hasEdge t p c =
      (do if ← s.isParent t p then throw (.refused (.stale c)) else pure false) := by
  rw [hasEdge_of_ne_null hp (not_or.1 hc).2, isChildOf_of_not_askable hc]
  rfl

/-- A removal that finds no edge answers what it found, and changes nothing. -/
theorem run_removeChild_of_hasEdge {r : Except Fault Bool} (hedge : s.hasEdge t p c = r)
    (hr : r ≠ .ok true) :
    ((removeChild t p c).run s).result = r ∧ ((removeChild t p c).run s).state = s := by
  rw [removeChild, run_bind]
  cases r with
  | error f => simp [hedge]
  | ok b =>
    cases b with
    | false => simp [hedge]
    | true => exact absurd rfl hr

/-- An entity that cannot be asked about is refused before anything is written. -/
theorem run_detachChild_of_not_askable (hc : ¬ s.Askable c) :
    ((detachChild t c).run s).result = .error (.refused (.stale c)) ∧
      ((detachChild t c).run s).state = s := by
  simp [detachChild, run_bind, parentOf?_of_not_askable hc]

end Edges

/-- The writes that remove an edge. -/
theorem settles_unlink (h : L.Listed m.live p c l r) (hlen : (l ++ c :: r).length < UInt64.size) :
    (do
      closeBefore t p c ⟨r.head?.getD .null, l.getLast?.getD .null⟩
      closeAfter t ⟨r.head?.getD .null, l.getLast?.getD .null⟩
      countDown t p
      dropChildLinks t c
      pure true : Action (Store S) Fault Bool).Settles (m.relink t L) (.ok true)
        (m.relink t (L.remove p c l r)) := by
  refine (settles_closeBefore h.null_unlinked h.parent_live h.entry).bind ?_
  refine (settles_closeAfter ?_ fun hne => ?_).bind ?_
  · rw [Links.bypass, ← Option.not_isSome_iff_eq_none, isSome_setNext, h.null_unlinked]
    simp
  · rw [Links.bypass, isSome_setNext]
    cases r with
    | nil => exact absurd rfl hne
    | cons d r => exact h.after d rfl
  have hcount : L.count? p = some ⟨UInt64.ofNat ((l ++ r).length + 1)⟩ := by
    rw [h.count, countOf, if_neg (by simp)]
    simp [Nat.add_assoc]
  have hroom : (l ++ r).length + 1 < UInt64.size := by
    simpa [Nat.add_assoc] using hlen
  refine Settles.bind (settles_countDown h.parent_live h.first_bypass hcount hroom) ?_
  refine Settles.bind (settles_dropChildLinks h.child_live ?_ ?_) ?_
  · exact Option.isSome_of_eq_some h.parent
  · rw [isSome_setPrev, Links.bypass, isSome_setNext]
    exact Option.isSome_of_eq_some h.siblings
  · simp only [Links.update_first?_bypass]
    exact settles_pure true

theorem settles_hasEdge_of_links (hp : m.live p = true) (hparent : L.parent? c = some ⟨p⟩)
    (hfirst : (L.first? p).isSome = true) (hcount : (L.count? p).isSome = true) :
    (query (·.hasEdge t p c)).Settles (m.relink t L) (.ok true) (m.relink t L) :=
  settles_query fun s hs hm => by
    have hvalue : ∀ x d, s.lookup? x d = (m.relink t L).value? x d := fun x d => by rw [← hm]; rfl
    refine hs.hasEdge_of_links (by rwa [valid_of_contents hm]) ?_ ?_ ?_
    · exact (hvalue c _).trans (parentLink_relink.trans hparent)
    · rwa [hvalue, firstChild_relink]
    · rwa [hvalue, childCount_relink]

/-- A child that is listed is removed. -/
theorem settles_removeChild_of_listed (h : L.Listed m.live p c l r)
    (hlen : (l ++ c :: r).length < UInt64.size) :
    (removeChild t p c).Settles (m.relink t L) (.ok true) (m.relink t (L.remove p c l r)) := by
  refine (settles_hasEdge_of_links h.parent_live h.parent ?_ ?_).bind ?_
  · rw [h.first]
    simp [headOf]
  · rw [h.count]
    simp [countOf]
  rw [if_pos rfl]
  exact Settles.bind (settles_get_of_some h.child_live (siblingLinks_relink.trans h.siblings))
    (settles_unlink h hlen)

/-! ## The operations -/

/-- The links know the edges of the forest that they show. -/
theorem Shows.hasEdge_eq {s : Store S} (hF : s.Shows t F) (h : s.Sound) :
    s.hasEdge t p c = F.hasEdge s.valid p c := by
  unfold hasEdge Forest.hasEdge
  by_cases hn : p = .null ∨ c = .null
  · rw [if_pos hn, if_pos (by simpa [Entity.isNull_iff] using hn)]
    rfl
  rw [if_neg hn, if_neg (by simpa [Entity.isNull_iff] using hn)]
  obtain ⟨hpn, hcn⟩ := not_or.1 hn
  cases hp : s.valid p with
  | false =>
    rw [isParent_of_not_askable (by simp [Askable, hp, hpn])]
    rfl
  | true =>
    rw [hF.isParent_eq h (.inl hp)]
    by_cases hnil : F p = []
    · rw [decide_eq_false (not_not.2 hnil), if_pos hnil]
      rfl
    · rw [decide_eq_true hnil, if_neg hnil]
      cases hc : s.valid c with
      | false => exact isChildOf_of_not_askable (by simp [Askable, hc, hcn])
      | true => exact hF.isChildOf_eq h (.inl hc)

theorem settles_hasEdge (hF : L.Shows m.live F) :
    (query (·.hasEdge t p c)).Settles (m.relink t L) (F.hasEdge m.live p c) (m.relink t L) :=
  settles_query fun s hs hm => by
    rw [(shows_of_contents hm hF).hasEdge_eq hs, valid_of_contents hm]

/-- A removal answers whether there was an edge, and leaves links that show the forest without
it. -/
theorem settles_removeChild (hF : L.Shows m.live F) (hnull : m.live .null = false) :
    ∃ L' : Links, L'.Shows m.live (F.remove p c) ∧
      (removeChild t p c).Settles (m.relink t L) (F.hasEdge m.live p c) (m.relink t L') := by
  have hedge := settles_hasEdge (p := p) (c := c) (t := t) hF
  have hiff := Forest.hasEdge_eq_ok_true_iff (p := p) (c := c) hnull hF.live
  by_cases hmem : c ∈ F p
  · rw [hiff.2 hmem]
    obtain ⟨l, r, hsplit⟩ := List.append_of_mem hmem
    refine ⟨L.remove p c l r, hF.remove hnull hsplit, settles_of_sound fun s hs hm => ?_⟩
    have hroom := (shows_of_contents hm hF).length_lt_size (p := p) hs
    rw [hsplit] at hroom
    exact settles_removeChild_of_listed (hF.listed hnull hsplit) (by omega)
  · refine ⟨L, by rwa [Forest.remove_of_not_mem hmem], ?_⟩
    cases hres : F.hasEdge m.live p c with
    | error f =>
      rw [hres] at hedge
      exact hedge.bind_error
    | ok b =>
      obtain rfl : b = false := by
        cases b with
        | false => rfl
        | true => exact absurd (hiff.1 hres) hmem
      rw [hres] at hedge
      refine hedge.bind ?_
      rw [if_neg Bool.false_ne_true]
      exact settles_pure false

/-- A detachment answers whether the child had a parent, and leaves links that show the forest
without the child. -/
theorem settles_detachChild (hF : L.Shows m.live F) (hnull : m.live .null = false)
    (hc : m.live c = true ∨ c = .null) :
    ∃ L' : Links, L'.Shows m.live (F.detach c) ∧
      (detachChild t c).Settles (m.relink t L) (.ok (L.parent? c).isSome) (m.relink t L') := by
  have hparent := settles_parentOf? (m := m) (t := t) (L := L) hc
  cases hv : L.parent? c with
  | none =>
    rw [hv, Option.map_none] at hparent
    refine ⟨L, ?_, hparent.bind (settles_pure false)⟩
    rwa [Forest.detach_of_not_mem fun p => hF.not_mem_of_parent? hv]
  | some v =>
    have hmem := hF.mem_of_parent? hv
    rw [hv, Option.map_some] at hparent
    obtain ⟨L', hL', hremove⟩ := settles_removeChild (t := t) (p := v.parent) (c := c) hF hnull
    rw [(Forest.hasEdge_eq_ok_true_iff hnull hF.live).2 hmem] at hremove
    refine ⟨L', ?_, hparent.bind hremove⟩
    rwa [Forest.detach_eq_remove fun p hp => hF.eq_of_mem hp hmem]

/-- The detachment of a handle that is neither live nor null fails. -/
theorem settles_detachChild_error (hc : ¬ (m.live c = true ∨ c = .null)) :
    (detachChild t c).Settles (m.relink t L) (.error (.refused (.stale c))) (m.relink t L) := by
  refine Settles.bind_error (settles_query fun s hs hm => ?_)
  refine parentOf?_of_not_askable ?_
  rwa [Askable, valid_of_contents hm]

/-- A removal answers whether there was an edge, and ends with links that show the forest without
it. -/
theorem Sound.run_removeChild {s : Store S} (h : s.Sound) (hF : s.Shows t F) :
    ((removeChild t p c).run s).result = F.hasEdge s.valid p c ∧
      ∃ L : Links, L.Shows s.valid (F.remove p c) ∧
        ((removeChild t p c).run s).state.contents = s.contents.relink t L := by
  obtain ⟨L, hL, hsettles⟩ := settles_removeChild (m := s.contents) (t := t) (p := p) (c := c) hF
    h.valid_null
  rw [relink_links] at hsettles
  obtain ⟨hr, -, hm⟩ := hsettles s h rfl
  exact ⟨hr, L, hL, hm⟩

/-- A detachment fails only on a handle that is neither live nor null, and answers whether the
child had a parent. -/
theorem Sound.run_detachChild {s : Store S} (h : s.Sound) (hF : s.Shows t F) :
    (∃ L : Links, L.Shows s.valid (F.detach c) ∧
      ((detachChild t c).run s).state.contents = s.contents.relink t L) ∧
    (s.Askable c → ∃ b, ((detachChild t c).run s).result = .ok b ∧
      (b = true ↔ ∃ p, c ∈ F p)) ∧
    (¬ s.Askable c → ((detachChild t c).run s).result = .error (.refused (.stale c))) := by
  have hiff : ((s.contents.links t).parent? c).isSome = true ↔ ∃ p, c ∈ F p := by
    rw [Option.isSome_iff_exists]
    constructor
    · exact fun ⟨v, hv⟩ => ⟨v.parent, Links.Shows.mem_of_parent? hF hv⟩
    · exact fun ⟨p, hp⟩ => ⟨⟨p⟩, Links.Shows.parent?_eq hF hp⟩
  by_cases hc : s.Askable c
  · obtain ⟨L, hL, hsettles⟩ := settles_detachChild (m := s.contents) (t := t) hF h.valid_null hc
    rw [relink_links] at hsettles
    obtain ⟨hr, -, hm⟩ := hsettles s h rfl
    exact ⟨⟨L, hL, hm⟩, fun _ => ⟨_, hr, hiff⟩, fun hnot => absurd hc hnot⟩
  · have hsettles := settles_detachChild_error (m := s.contents) (t := t)
      (L := s.contents.links t) hc
    rw [relink_links] at hsettles
    obtain ⟨hr, -, hm⟩ := hsettles s h rfl
    have hnot : ∀ p, c ∉ F p := fun p hp => hc (.inl (hF.valid hp).1)
    refine ⟨⟨s.contents.links t, ?_, by rw [hm, relink_links]⟩, fun h => absurd h hc, fun _ => hr⟩
    rw [Forest.detach_of_not_mem hnot]
    exact hF

end Store

end EntityStore
