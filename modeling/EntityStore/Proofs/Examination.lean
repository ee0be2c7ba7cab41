import EntityStore.Hierarchy.Examine
import EntityStore.Proofs.Soundness
import EntityStore.Proofs.Threads
import Mathlib.Data.List.Induction

/-!
# What an examination finds

`Store.examine` is about stores whose links were written by anybody.  So nothing is asked of the
store here.  A *stretch* of the list of a parent is well linked as far as it goes
(`Store.Stretch`).  What comes after it ends the list, is wrong in one of seven ways
(`Store.Misfit`), or makes the stretch longer by one.  The members of a stretch are live and
distinct, so a stretch cannot grow without end, and the walk needs no more steps than there are
slots.

The examination accepts a parent exactly if its list is as it should be (`Store.Intact`), and what
it reports else is there: the first thing that is wrong (`Store.Finding`).
-/

namespace EntityStore.Store

variable {S : Schema} {s : Store S} {t : S.Tag} {p first c next : Entity} {cs ds : List Entity}
  {e : LinkError} {met : Array Bool} {n : Nat}

/-! ## The list of a parent -/

/-- The list of the children of a parent is well linked from the first child on, as far as it is
followed here: `cs` are the children met, and `after` is the handle that comes after them. -/
structure Stretch (s : Store S) (t : S.Tag) (p first : Entity) (cs : List Entity)
    (after : Entity) : Prop where
  /-- No child is met twice. -/
  nodup : cs.Nodup
  /-- The children are live, and none is null. -/
  live : ∀ c ∈ cs, s.valid c = true ∧ c ≠ .null
  /-- They name the parent. -/
  parent : ∀ c ∈ cs, s.lookup? c (.parentLink t) = some ({ parent := p } : ParentLink)
  /-- Each leads to the one after it and back to the one before it, the first back to null. -/
  threaded : Threaded (fun c => s.lookup? c (.siblingLinks t)) .null cs after
  /-- The first is the head. -/
  head : first = cs.head?.getD after

/-- A parent and its list are as they should be. -/
structure Intact (s : Store S) (t : S.Tag) (p : Entity) : Prop where
  /-- The parent is live. -/
  live : s.valid p = true
  /-- It carries both links of a child, or neither. -/
  pair : s.carries p (.parentLink t) = s.carries p (.siblingLinks t)
  /-- It carries neither link of a parent, or both, and then its list is well linked to its end, not
  empty, and as long as the count says. -/
  children : s.lookup? p (.firstChild t) = none ∧ s.lookup? p (.childCount t) = none ∨
    ∃ (head : FirstChild) (count : ChildCount) (cs : List Entity),
      s.lookup? p (.firstChild t) = some head ∧ s.lookup? p (.childCount t) = some count ∧
      cs ≠ [] ∧ s.Stretch t p head.first cs .null ∧ count.size.toNat = cs.length

/-- What is wrong with the child that comes after a well-linked stretch.  A child may be wrong in
several ways, and the first of them counts. -/
inductive Misfit (s : Store S) (t : S.Tag) (p : Entity) (cs : List Entity) (c : Entity) :
    LinkError → Prop where
  /-- It is not live. -/
  | deadChild (hdead : s.valid c = false) : Misfit s t p cs c (.deadChild p c)
  /-- It was met before. -/
  | cycle (hlive : s.valid c = true) (hmet : c ∈ cs) : Misfit s t p cs c (.cycle p c)
  /-- It has no links. -/
  | unlinked (hlive : s.valid c = true) (hnew : c ∉ cs)
      (hparent : s.lookup? c (.parentLink t) = none)
      (hlinks : s.lookup? c (.siblingLinks t) = none) : Misfit s t p cs c (.unlinked p c)
  /-- It has a parent without neighbours, or the reverse. -/
  | halfChild (hlive : s.valid c = true) (hnew : c ∉ cs)
      (hhalf : (s.lookup? c (.parentLink t)).isSome ≠ (s.lookup? c (.siblingLinks t)).isSome) :
      Misfit s t p cs c (.halfChild c)
  /-- It names another parent. -/
  | foreignParent {link : ParentLink} (hlive : s.valid c = true) (hnew : c ∉ cs)
      (hparent : s.lookup? c (.parentLink t) = some link)
      (hlinks : (s.lookup? c (.siblingLinks t)).isSome = true) (hother : link.parent ≠ p) :
      Misfit s t p cs c (.foreignParent p c link.parent)
  /-- It is the first, and has a neighbour before it. -/
  | headHasPrev {links : SiblingLinks} (hlive : s.valid c = true) (hfirst : cs = [])
      (hparent : s.lookup? c (.parentLink t) = some ({ parent := p } : ParentLink))
      (hlinks : s.lookup? c (.siblingLinks t) = some links) (hprev : links.prev ≠ .null) :
      Misfit s t p cs c (.headHasPrev p c links.prev)
  /-- It does not lead back to the one before it. -/
  | brokenBackLink {prev : Entity} {links : SiblingLinks} (hlive : s.valid c = true)
      (hnew : c ∉ cs) (hlast : cs.getLast? = some prev)
      (hparent : s.lookup? c (.parentLink t) = some ({ parent := p } : ParentLink))
      (hlinks : s.lookup? c (.siblingLinks t) = some links) (hprev : links.prev ≠ prev) :
      Misfit s t p cs c (.brokenBackLink prev c links.prev)

/-- What is wrong with a parent or its list.  The first thing that is wrong counts. -/
inductive Finding (s : Store S) (t : S.Tag) (p : Entity) : LinkError → Prop where
  /-- The parent is not live. -/
  | deadParent (hdead : s.valid p = false) : Finding s t p (.deadParent p)
  /-- It carries one of the two links of a child. -/
  | halfChild (hlive : s.valid p = true)
      (hhalf : s.carries p (.parentLink t) ≠ s.carries p (.siblingLinks t)) :
      Finding s t p (.halfChild p)
  /-- It carries one of the two links of a parent. -/
  | halfParent (hlive : s.valid p = true)
      (hpair : s.carries p (.parentLink t) = s.carries p (.siblingLinks t))
      (hhalf : (s.lookup? p (.firstChild t)).isSome ≠ (s.lookup? p (.childCount t)).isSome) :
      Finding s t p (.halfParent p)
  /-- A child is wrong, and all before it are well linked. -/
  | child {head : FirstChild} {count : ChildCount} {cs : List Entity} {c : Entity} {e : LinkError}
      (hlive : s.valid p = true)
      (hpair : s.carries p (.parentLink t) = s.carries p (.siblingLinks t))
      (hhead : s.lookup? p (.firstChild t) = some head)
      (hcount : s.lookup? p (.childCount t) = some count)
      (hstretch : s.Stretch t p head.first cs c) (hc : c ≠ .null) (hmisfit : s.Misfit t p cs c e) :
      Finding s t p e
  /-- The whole list is well linked, and is empty or not as long as the count says. -/
  | countMismatch {head : FirstChild} {count : ChildCount} {cs : List Entity}
      (hlive : s.valid p = true)
      (hpair : s.carries p (.parentLink t) = s.carries p (.siblingLinks t))
      (hhead : s.lookup? p (.firstChild t) = some head)
      (hcount : s.lookup? p (.childCount t) = some count)
      (hstretch : s.Stretch t p head.first cs .null)
      (hwrong : count.size.toNat ≠ cs.length ∨ cs = []) :
      Finding s t p (.countMismatch p count.size.toNat cs.length)

/-! ## Stretches -/

namespace Stretch

theorem nil : s.Stretch t p first [] first where
  nodup := List.nodup_nil
  live := nofun
  parent := nofun
  threaded := trivial
  head := rfl

/-- One more child that is as it should be. -/
theorem concat (h : s.Stretch t p first cs c) (hc : c ≠ .null) (hlive : s.valid c = true)
    (hnew : c ∉ cs) (hparent : s.lookup? c (.parentLink t) = some ({ parent := p } : ParentLink))
    (hlinks : s.lookup? c (.siblingLinks t) =
      some ({ next, prev := cs.getLast?.getD .null } : SiblingLinks)) :
    s.Stretch t p first (cs ++ [c]) next where
  nodup := List.nodup_append.2 ⟨h.nodup, List.nodup_singleton c, fun a ha b hb hab =>
    hnew (List.mem_singleton.1 hb ▸ hab ▸ ha)⟩
  live := List.forall_mem_append.2 ⟨h.live, List.forall_mem_singleton.2 ⟨hlive, hc⟩⟩
  parent := List.forall_mem_append.2 ⟨h.parent, List.forall_mem_singleton.2 hparent⟩
  threaded := threaded_append.2 ⟨h.threaded, hlinks, trivial⟩
  head := by
    rw [h.head]
    cases cs <;> rfl

/-- A stretch without its last child. -/
theorem of_concat (h : s.Stretch t p first (cs ++ [c]) next) :
    s.Stretch t p first cs c ∧ c ≠ .null ∧ s.valid c = true ∧ c ∉ cs ∧
      s.lookup? c (.parentLink t) = some ({ parent := p } : ParentLink) ∧
      s.lookup? c (.siblingLinks t) =
        some ({ next, prev := cs.getLast?.getD .null } : SiblingLinks) := by
  have hmem : c ∈ cs ++ [c] := List.mem_append_right cs (List.mem_singleton_self c)
  obtain ⟨hcs, hlinks, -⟩ := threaded_append.1 h.threaded
  obtain ⟨hn, -, hdisj⟩ := List.nodup_append.1 h.nodup
  refine ⟨⟨hn, fun x hx => h.live x (List.mem_append_left _ hx),
    fun x hx => h.parent x (List.mem_append_left _ hx), hcs, ?_⟩, (h.live c hmem).2,
    (h.live c hmem).1, fun hc => hdisj c hc c (List.mem_singleton_self c) rfl,
    h.parent c hmem, hlinks⟩
  rw [h.head]
  cases cs <;> rfl

/-- There are no more children in a stretch than there are slots. -/
theorem length_le (h : s.Stretch t p first cs c) : cs.length ≤ s.slotCount :=
  length_le_slotCount h.nodup fun x hx => (h.live x hx).1

/-- What comes after a stretch ends it, is wrong, or belongs to it as well. -/
theorem cases_after (h : s.Stretch t p first cs c) :
    c = .null ∨ (c ≠ .null ∧ ∃ e, s.Misfit t p cs c e) ∨
      ∃ next, s.Stretch t p first (cs ++ [c]) next := by
  by_cases hnull : c = .null
  · exact .inl hnull
  refine .inr ?_
  cases hlive : s.valid c with
  | false => exact .inl ⟨hnull, _, .deadChild hlive⟩
  | true =>
    by_cases hmet : c ∈ cs
    · exact .inl ⟨hnull, _, .cycle hlive hmet⟩
    cases hparent : s.lookup? c (.parentLink t) with
    | none =>
      cases hlinks : s.lookup? c (.siblingLinks t) with
      | none => exact .inl ⟨hnull, _, .unlinked hlive hmet hparent hlinks⟩
      | some links => exact .inl ⟨hnull, _, .halfChild hlive hmet (by simp [hparent, hlinks])⟩
    | some link =>
      cases hlinks : s.lookup? c (.siblingLinks t) with
      | none => exact .inl ⟨hnull, _, .halfChild hlive hmet (by simp [hparent, hlinks])⟩
      | some links =>
        obtain ⟨actual⟩ : ParentLink := link
        obtain ⟨next, prev⟩ : SiblingLinks := links
        by_cases hother : actual = p
        · subst hother
          by_cases hprev : prev = cs.getLast?.getD .null
          · subst hprev
            exact .inr ⟨next, h.concat hnull hlive hmet hparent hlinks⟩
          · cases hlast : cs.getLast? with
            | none =>
              rw [hlast] at hprev
              exact .inl ⟨hnull, _, .headHasPrev hlive (List.getLast?_eq_none_iff.1 hlast) hparent
                hlinks hprev⟩
            | some last =>
              rw [hlast] at hprev
              exact .inl ⟨hnull, _, .brokenBackLink hlive hmet hlast hparent hlinks hprev⟩
        · exact .inl ⟨hnull, _, .foreignParent hlive hmet hparent (by simp [hlinks]) hother⟩

/-- Every list can be followed until it ends or something is wrong.  By induction on the number of
slots that are left, since a stretch that grows takes one more of them. -/
theorem exists_end (h : s.Stretch t p first cs c) :
    ∃ cs c, s.Stretch t p first cs c ∧ (c = .null ∨ c ≠ .null ∧ ∃ e, s.Misfit t p cs c e) := by
  induction hn : s.slotCount - cs.length generalizing cs c with
  | zero =>
    rcases h.cases_after with hend | hend | ⟨next, hnext⟩
    · exact ⟨cs, c, h, .inl hend⟩
    · exact ⟨cs, c, h, .inr hend⟩
    · have hle := hnext.length_le
      rw [List.length_append, List.length_singleton] at hle
      omega
  | succ n ih =>
    rcases h.cases_after with hend | hend | ⟨next, hnext⟩
    · exact ⟨cs, c, h, .inl hend⟩
    · exact ⟨cs, c, h, .inr hend⟩
    · refine ih hnext ?_
      rw [List.length_append, List.length_singleton]
      omega

end Stretch

/-! ## The walk -/

/-- The live entities whose slots are marked are the members of a list. -/
structure Marks (s : Store S) (met : Array Bool) (cs : List Entity) : Prop where
  /-- Each slot may be marked. -/
  size : met.size = s.slotCount
  /-- A slot is marked if the live entity in it was met. -/
  iff_mem : ∀ e, s.valid e = true → (met[e.index.toNat]? = some true ↔ e ∈ cs)

namespace Marks

theorem nil : s.Marks (Array.replicate s.slotCount false) [] where
  size := Array.size_replicate
  iff_mem e he := by simp [Array.getElem?_replicate]

/-- One more slot is marked. -/
theorem concat (h : s.Marks met cs) (hc : s.valid c = true) :
    s.Marks (met.setIfInBounds c.index.toNat true) (cs ++ [c]) where
  size := (Array.size_setIfInBounds ..).trans h.size
  iff_mem e he := by
    rw [List.mem_append, List.mem_singleton]
    by_cases hec : e = c
    · subst hec
      have hlt : e.index.toNat < met.size := h.size ▸ Allocator.index_lt_slotCount hc
      rw [Array.getElem?_setIfInBounds_self_of_lt hlt]
      exact iff_of_true rfl (.inr rfl)
    · have hne : c.index.toNat ≠ e.index.toNat := fun hi =>
        hec (eq_of_valid he hc (UInt32.toNat_inj.1 hi.symm))
      rw [Array.getElem?_setIfInBounds_ne hne, h.iff_mem e he, or_iff_left hec]

end Marks

/-- A child is examined if it is live and new. -/
theorem examineFrom_succ {prev : Entity} (hmet : s.Marks met cs) (hc : c ≠ .null)
    (hlive : s.valid c = true) (hnew : c ∉ cs) :
    s.examineFrom t p (n + 1) met prev c = (do
      let next ← s.examineChild t p prev c
      let rest ← s.examineFrom t p n (met.setIfInBounds c.index.toNat true) c next
      pure (rest + 1)) := by
  have hnull : c.isNull = false := Bool.eq_false_iff.2 fun h => hc (Entity.isNull_iff.1 h)
  have hmark : ¬ met[c.index.toNat]? = some true := fun h => hnew ((hmet.iff_mem c hlive).1 h)
  rw [examineFrom]
  simp only [hnull, hlive, hmark, if_false, Bool.not_true, Bool.false_eq_true]

/-- There is a slot left for a child that is live and new. -/
theorem pos_of_new (h : s.Stretch t p first cs c) (hn : s.slotCount ≤ n + cs.length)
    (hlive : s.valid c = true) (hnew : c ∉ cs) : ∃ k, n = k + 1 := by
  have hle : (c :: cs).length ≤ s.slotCount :=
    length_le_slotCount (List.nodup_cons.2 ⟨hnew, h.nodup⟩)
      (List.forall_mem_cons.2 ⟨hlive, fun x hx => (h.live x hx).1⟩)
  rw [List.length_cons] at hle
  exact Nat.exists_eq_add_one.2 (by omega)

/-- The examination of a child that is live and new says what is wrong with it. -/
theorem examineChild_of_misfit {prev : Entity} (h : s.Stretch t p first cs c)
    (hprev : prev = cs.getLast?.getD .null) (hlive : s.valid c = true) (hnew : c ∉ cs)
    (he : s.Misfit t p cs c e) : s.examineChild t p prev c = .error e := by
  cases he with
  | deadChild hdead =>
    rw [hlive] at hdead
    cases hdead
  | cycle _ hmet => exact absurd hmet hnew
  | unlinked _ _ hparent hlinks =>
    simp only [examineChild, hparent, hlinks]
    rfl
  | halfChild _ _ hhalf =>
    cases hparent : s.lookup? c (.parentLink t) with
    | none =>
      cases hlinks : s.lookup? c (.siblingLinks t) with
      | none => simp [hparent, hlinks] at hhalf
      | some links =>
        simp only [examineChild, hparent, hlinks]
        rfl
    | some link =>
      cases hlinks : s.lookup? c (.siblingLinks t) with
      | none =>
        simp only [examineChild, hparent, hlinks]
        rfl
      | some links => simp [hparent, hlinks] at hhalf
  | foreignParent _ _ hparent hlinks hother =>
    obtain ⟨links, hlinks⟩ := Option.isSome_iff_exists.1 hlinks
    simp only [examineChild, hparent, hlinks, if_pos hother]
    rfl
  | headHasPrev _ hfirst hparent hlinks hother =>
    obtain rfl : prev = .null := by rw [hprev, hfirst, List.getLast?_nil, Option.getD_none]
    have hown : ¬ p ≠ p := not_not_intro rfl
    simp only [examineChild, hparent, hlinks, if_neg hown, if_pos hother]
    rfl
  | brokenBackLink _ _ hlast hparent hlinks hother =>
    obtain rfl : prev = _ := by rw [hprev, hlast, Option.getD_some]
    have hown : ¬ p ≠ p := not_not_intro rfl
    have hnull : prev.isNull = false := Bool.eq_false_iff.2 fun hnull =>
      (h.live prev (List.mem_of_getLast? hlast)).2 (Entity.isNull_iff.1 hnull)
    simp only [examineChild, hparent, hlinks, if_neg hown, if_pos hother, hnull]
    rfl

/-- Something that is wrong is reported.  The bound was not reached, because a child that is live
and new has a slot that is not marked. -/
theorem examineFrom_of_misfit (h : s.Stretch t p first cs c) (hmet : s.Marks met cs)
    (hn : s.slotCount ≤ n + cs.length) (hc : c ≠ .null) (he : s.Misfit t p cs c e) :
    s.examineFrom t p n met (cs.getLast?.getD .null) c = .error e := by
  have hnull : c.isNull = false := Bool.eq_false_iff.2 fun h => hc (Entity.isNull_iff.1 h)
  by_cases hnew : s.valid c = true ∧ c ∉ cs
  · obtain ⟨k, rfl⟩ := pos_of_new h hn hnew.1 hnew.2
    rw [examineFrom_succ hmet hc hnew.1 hnew.2, examineChild_of_misfit h rfl hnew.1 hnew.2 he]
    rfl
  · unfold examineFrom
    cases he with
    | deadChild hdead =>
      simp only [hnull, hdead, Bool.false_eq_true, if_false, Bool.not_false, if_true]
      rfl
    | cycle hlive hmem =>
      have hmark := (hmet.iff_mem c hlive).2 hmem
      simp only [hnull, hlive, hmark, Bool.false_eq_true, if_false, Bool.not_true, if_true]
      rfl
    | headHasPrev hlive hfirst => exact absurd ⟨hlive, hfirst ▸ List.not_mem_nil⟩ hnew
    | _ hlive hnot => exact absurd ⟨hlive, hnot⟩ hnew

/-- The end of the list is found. -/
theorem examineFrom_null {prev : Entity} : s.examineFrom t p n met prev .null = .ok 0 := by
  unfold examineFrom
  rfl

/-- A child that belongs to the stretch is passed. -/
theorem examineFrom_of_concat (h : s.Stretch t p first (cs ++ [c]) next) (hmet : s.Marks met cs) :
    s.examineFrom t p (n + 1) met (cs.getLast?.getD .null) c =
      (s.examineFrom t p n (met.setIfInBounds c.index.toNat true)
        ((cs ++ [c]).getLast?.getD .null) next).map (· + 1) := by
  obtain ⟨-, hc, hlive, hnew, hparent, hlinks⟩ := h.of_concat
  have hchild : s.examineChild t p (cs.getLast?.getD .null) c = .ok next := by
    simp only [examineChild, hparent, hlinks, ne_eq, not_true_eq_false, if_false]
    rfl
  rw [examineFrom_succ hmet hc hlive hnew, hchild, List.getLast?_concat]
  rfl

/-- The walk along a stretch comes to what is after it.  By induction on the stretch from its last
child, the one that the walk passes last. -/
theorem examineFrom_of_stretch (h : s.Stretch t p first cs c) (hn : s.slotCount ≤ n) :
    ∃ met, s.Marks met cs ∧
      s.examineFrom t p n (Array.replicate s.slotCount false) .null first =
        (s.examineFrom t p (n - cs.length) met (cs.getLast?.getD .null) c).map
          (· + cs.length) := by
  induction cs using List.reverseRecOn generalizing c with
  | nil =>
    refine ⟨_, .nil, ?_⟩
    rw [h.head]
    show _ = Except.map id _
    rw [Except.map_id]
    rfl
  | append_singleton cs d ih =>
    obtain ⟨met, hmet, hrun⟩ := ih h.of_concat.1
    obtain ⟨k, hk⟩ : ∃ k, n - cs.length = k + 1 := by
      have hle := h.length_le
      rw [List.length_append, List.length_singleton] at hle
      exact Nat.exists_eq_add_one.2 (by omega)
    have hk' : n - (cs ++ [d]).length = k := by
      rw [List.length_append, List.length_singleton]
      omega
    refine ⟨_, hmet.concat h.of_concat.2.2.1, ?_⟩
    rw [hrun, hk, hk', examineFrom_of_concat h hmet]
    cases s.examineFrom t p k _ _ c with
    | ok rest =>
      refine congrArg Except.ok ?_
      show rest + 1 + cs.length = rest + (cs ++ [d]).length
      rw [List.length_append, List.length_singleton]
      omega
    | error e => rfl

/-- A list that is well linked to its end is counted, for any bound that is not less than the number
of slots. -/
theorem examineFrom_of_end (h : s.Stretch t p first cs .null) (hn : s.slotCount ≤ n) :
    s.examineFrom t p n (Array.replicate s.slotCount false) .null first = .ok cs.length := by
  obtain ⟨met, -, hrun⟩ := examineFrom_of_stretch h hn
  rw [hrun, examineFrom_null, Except.map, Nat.zero_add]

/-- What is wrong after a stretch is reported, for any bound that is not less than the number of
slots. -/
theorem examineFrom_of_wrong (h : s.Stretch t p first cs c) (hn : s.slotCount ≤ n) (hc : c ≠ .null)
    (he : s.Misfit t p cs c e) :
    s.examineFrom t p n (Array.replicate s.slotCount false) .null first = .error e := by
  obtain ⟨met, hmet, hrun⟩ := examineFrom_of_stretch h hn
  rw [hrun, examineFrom_of_misfit h hmet (by omega) hc he]
  rfl

/-! ## The examination -/

theorem examine_of_intact (h : s.Intact t p) : s.examine t p = .ok () := by
  unfold examine
  rw [if_neg (by simp [h.live]), if_neg (not_not_intro h.pair)]
  rcases h.children with ⟨hhead, hcount⟩ | ⟨head, count, cs, hhead, hcount, hne, hstretch, hsize⟩
  · simp only [hhead, hcount]
    rfl
  · have hpos : count.size ≠ 0 := by
      intro hzero
      rw [hzero] at hsize
      exact hne (List.length_eq_zero_iff.1 hsize.symm)
    simp only [hhead, hcount, examineFrom_of_end hstretch (Nat.le_refl _)]
    show (if _ then _ else _ : Except LinkError Unit) = _
    rw [if_neg (by simp [hsize, hpos])]
    rfl

theorem examine_of_finding (h : s.Finding t p e) : s.examine t p = .error e := by
  unfold examine
  cases h with
  | deadParent hdead =>
    rw [if_pos (by simp [hdead])]
    rfl
  | halfChild hlive hhalf =>
    rw [if_neg (by simp [hlive]), if_pos hhalf]
    rfl
  | halfParent hlive hpair hhalf =>
    rw [if_neg (by simp [hlive]), if_neg (not_not_intro hpair)]
    split
    · simp_all
    · simp_all
    · rfl
  | child hlive hpair hhead hcount hstretch hc hmisfit =>
    rw [if_neg (by simp [hlive]), if_neg (not_not_intro hpair)]
    simp only [hhead, hcount, examineFrom_of_wrong hstretch (Nat.le_refl _) hc hmisfit]
    rfl
  | @countMismatch head count cs hlive hpair hhead hcount hstretch hwrong =>
    rw [if_neg (by simp [hlive]), if_neg (not_not_intro hpair)]
    have hwrong : cs.length ≠ count.size.toNat ∨ count.size = 0 := by
      rcases hwrong with hsize | rfl
      · exact .inl (Ne.symm hsize)
      · rw [List.length_nil, ← UInt64.toNat_inj]
        exact (eq_or_ne count.size.toNat 0).symm.imp_left Ne.symm
    simp only [hhead, hcount, examineFrom_of_end hstretch (Nat.le_refl _)]
    show (if _ then _ else _ : Except LinkError Unit) = _
    rw [if_pos hwrong]
    rfl

/-- A parent is as it should be, or something is wrong with it. -/
theorem intact_or_finding (s : Store S) (t : S.Tag) (p : Entity) :
    s.Intact t p ∨ ∃ e, s.Finding t p e := by
  cases hlive : s.valid p with
  | false => exact .inr ⟨_, .deadParent hlive⟩
  | true =>
    by_cases hpair : s.carries p (.parentLink t) = s.carries p (.siblingLinks t)
    case neg => exact .inr ⟨_, .halfChild hlive hpair⟩
    cases hhead : s.lookup? p (.firstChild t) with
    | none =>
      cases hcount : s.lookup? p (.childCount t) with
      | none => exact .inl ⟨hlive, hpair, .inl ⟨hhead, hcount⟩⟩
      | some count => exact .inr ⟨_, .halfParent hlive hpair (by simp [hhead, hcount])⟩
    | some head =>
      cases hcount : s.lookup? p (.childCount t) with
      | none => exact .inr ⟨_, .halfParent hlive hpair (by simp [hhead, hcount])⟩
      | some count =>
        obtain ⟨cs, c, hstretch, hend⟩ := (Stretch.nil (s := s) (t := t) (p := p)).exists_end
        rcases hend with rfl | ⟨hc, e, he⟩
        · by_cases hright : cs ≠ [] ∧ count.size.toNat = cs.length
          · exact .inl ⟨hlive, hpair, .inr ⟨head, count, cs, hhead, hcount, hright.1, hstretch,
              hright.2⟩⟩
          · refine .inr ⟨_, .countMismatch hlive hpair hhead hcount hstretch ?_⟩
            rw [not_and_or, not_ne_iff] at hright
            exact hright.symm
        · exact .inr ⟨e, .child hlive hpair hhead hcount hstretch hc he⟩

/-- The examination accepts a parent exactly if the parent and its list are as they should be, and
what it reports else is what is wrong first.  It needs no more steps than there are slots: with any
greater bound the walk along a list ends the same. -/
theorem examine_exact (s : Store S) (t : S.Tag) (p : Entity) :
    (s.examine t p = .ok () ↔ s.Intact t p) ∧
    (∀ e, s.examine t p = .error e ↔ s.Finding t p e) ∧
    ∀ n first, s.slotCount ≤ n →
      s.examineFrom t p n (Array.replicate s.slotCount false) .null first =
        s.examineFrom t p s.slotCount (Array.replicate s.slotCount false) .null first := by
  refine ⟨⟨fun h => ?_, examine_of_intact⟩, fun e => ⟨fun h => ?_, examine_of_finding⟩, ?_⟩
  · rcases intact_or_finding s t p with hintact | ⟨e, he⟩
    · exact hintact
    · rw [examine_of_finding he] at h
      cases h
  · rcases intact_or_finding s t p with hintact | ⟨e', he⟩
    · rw [examine_of_intact hintact] at h
      cases h
    · rw [examine_of_finding he] at h
      cases h
      exact he
  · intro n first hn
    obtain ⟨cs, c, hstretch, hend⟩ := (Stretch.nil (s := s) (t := t) (p := p)).exists_end
    rcases hend with rfl | ⟨hc, e, he⟩
    · rw [examineFrom_of_end hstretch hn, examineFrom_of_end hstretch (Nat.le_refl _)]
    · rw [examineFrom_of_wrong hstretch hn hc he,
        examineFrom_of_wrong hstretch (Nat.le_refl _) hc he]

end EntityStore.Store
