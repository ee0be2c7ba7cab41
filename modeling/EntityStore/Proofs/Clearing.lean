import EntityStore.Proofs.Selection
import EntityStore.Proofs.Unlinking
import Mathlib.Algebra.GroupWithZero.Nat

/-!
# Unlinking many children

The children of one parent lose their links one after another, then the parent loses its own
(`settles_clearChildren`).  A selection does this to one parent after another.  A parent that is
still to come keeps its list meanwhile, since no child is in two lists.

The parents that are selected depend on the pools and on their order, so the last theorem is about
one store (`Sound.run_clearSelection`).  Its statement does not mention the order.
-/

namespace EntityStore

variable {S : Schema}

namespace Store

open EntityStore.Action Contents

variable {m : Contents S} {t : S.Tag} {L : Links} {F : Forest} {p c e : Entity}
  {kids parents : List Entity}

/-! ## The children of one parent -/

theorem dropEach_cons :
    Links.dropEach
      { L with
        parent? := Function.update L.parent? c none
        siblings? := Function.update L.siblings? c none } kids = L.dropEach (c :: kids) := by
  ext1
  · funext x
    by_cases hx : x = c <;> simp [Links.dropEach, hx]
  · funext x
    by_cases hx : x = c <;> simp [Links.dropEach, hx]
  · rfl
  · rfl

/-- Each of some children that name a parent loses its links. -/
theorem settles_dropEach (hn : kids.Nodup)
    (hkids : ∀ x ∈ kids, m.live x = true ∧ L.parent? x = some ⟨p⟩ ∧
      (L.siblings? x).isSome = true) :
    (dropEach t p kids).Settles (m.relink t L) (.ok ()) (m.relink t (L.dropEach kids)) := by
  induction kids generalizing L with
  | nil =>
    have hnil : L.dropEach [] = L := by simp [Links.dropEach]
    rw [hnil]
    exact settles_pure ()
  | cons c kids ih =>
    obtain ⟨hnot, hn⟩ := List.nodup_cons.1 hn
    obtain ⟨hc, hparent, hsome⟩ := hkids c List.mem_cons_self
    have hlinked : (query (·.isChildOf t p c)).Settles (m.relink t L) (.ok true)
        (m.relink t L) :=
      settles_query fun s hs hm => by
        rw [isChildOf, hs.parentOf?_eq (askable_of_contents hm (.inl hc)), ← value?_contents, hm,
          parentLink_relink, hparent]
        exact congrArg Except.ok (decide_eq_true rfl)
    refine hlinked.bind ((settles_require rfl _).bind ?_)
    refine Settles.bind (settles_dropChildLinks hc (by rw [hparent]; rfl) hsome) ?_
    rw [← dropEach_cons]
    refine ih hn fun x hx => ?_
    have hxc : x ≠ c := fun h => hnot (h ▸ hx)
    simp only [Function.update_of_ne hxc]
    exact hkids x (List.mem_cons_of_mem c hx)

/-- Some children lose their links, and then their parent loses its own. -/
theorem settles_dropChildren {v : FirstChild} {k : ChildCount} (hp : m.live p = true)
    (hfirst : L.first? p = some v) (hcount : L.count? p = some k) (hn : kids.Nodup)
    (hkids : ∀ x ∈ kids, m.live x = true ∧ L.parent? x = some ⟨p⟩ ∧
      (L.siblings? x).isSome = true) :
    (do
      dropEach t p kids
      let _ ← detach p (.firstChild t)
      let _ ← detach p (.childCount t)
      pure kids.length : Action (Store S) Fault Nat).Settles (m.relink t L) (.ok kids.length)
        (m.relink t (L.clear p kids)) := by
  refine (settles_dropEach hn hkids).bind ?_
  have hfirst' : (L.dropEach kids).first? p = some v := hfirst
  have hcount' : (L.dropEach kids).count? p = some k := hcount
  refine Settles.bind (settles_detach_of_some hp (firstChild_relink.trans hfirst')) ?_
  rw [relink_assign_firstChild]
  refine Settles.bind (settles_detach_of_some hp (childCount_relink.trans hcount')) ?_
  rw [relink_assign_childCount]
  exact settles_pure _

/-- A parent loses all its children. -/
theorem settles_clearChildren (hF : L.Shows m.live F) (hne : F p ≠ []) :
    (clearChildren t p).Settles (m.relink t L) (.ok (F p).length)
      (m.relink t (L.clear p (F p))) := by
  refine settles_of_sound fun s hs hm => ?_
  obtain ⟨c, hc⟩ := List.exists_mem_of_ne_nil _ hne
  have hp : m.live p = true := (hF.live p c hc).2
  have hlist : (query (·.listChildren t p)).Settles (m.relink t L) (.ok (F p)) (m.relink t L) :=
    settles_query fun s hs hm =>
      (shows_of_contents hm hF).listChildren_eq hs (askable_of_contents hm (.inl hp))
  have hcount : (query (·.childCount t p)).Settles (m.relink t L)
      (.ok (UInt64.ofNat (F p).length)) (m.relink t L) :=
    settles_query fun s hs hm =>
      (shows_of_contents hm hF).childCount_eq hs (askable_of_contents hm (.inl hp))
  have hroom := (shows_of_contents hm hF).length_lt_size (p := p) hs
  have hlen : (F p).length = (UInt64.ofNat (F p).length).toNat :=
    (UInt64.toNat_ofNat_of_lt' (by omega)).symm
  obtain ⟨d, cs, hcs⟩ := List.exists_cons_of_ne_nil hne
  have hfirst : L.first? p = some ⟨d⟩ := by
    rw [hF.first?_eq, hcs]
    rfl
  have hsize : L.count? p = some ⟨UInt64.ofNat (F p).length⟩ :=
    (hF.count?_eq p).trans (if_neg hne)
  refine hlist.bind (hcount.bind ((settles_require (decide_eq_true hlen) _).bind ?_))
  exact settles_dropChildren hp hfirst hsize (hF.nodup p) fun x hx =>
    ⟨(hF.live p x hx).1, hF.parent?_eq hx, (hF.threaded p).isSome hx⟩

/-! ## The children of many parents -/

theorem clear_cons : (F.set p []).clear (fun q => decide (q ∈ parents)) =
    F.clear (fun q => decide (q ∈ p :: parents)) := by
  funext q
  by_cases hq : q = p
  · simp [Forest.clear, hq]
  · simp [Forest.clear, hq, Forest.set_of_ne]

/-- Each of some parents loses all its children, and the answer is how many they were. -/
theorem settles_clearEach (hF : L.Shows m.live F) (hn : parents.Nodup)
    (hne : ∀ p ∈ parents, F p ≠ []) :
    ∃ L' : Links, L'.Shows m.live (F.clear fun q => decide (q ∈ parents)) ∧
      (clearEach t parents).Settles (m.relink t L)
        (.ok (parents.map fun p => (F p).length).sum) (m.relink t L') := by
  induction parents generalizing L F with
  | nil =>
    have hnone : F.clear (fun q => decide (q ∈ ([] : List Entity))) = F :=
      funext fun q => by simp [Forest.clear]
    exact ⟨L, by rwa [hnone], settles_pure 0⟩
  | cons p parents ih =>
    obtain ⟨hnot, hn⟩ := List.nodup_cons.1 hn
    have hkeep : ∀ q ∈ parents, F.set p [] q = F q := fun q hq =>
      Forest.set_of_ne fun h => hnot (h ▸ hq)
    obtain ⟨L', hL', hrest⟩ := ih hF.clear hn fun q hq => by
      rw [hkeep q hq]
      exact hne q (List.mem_cons_of_mem p hq)
    have hsum : (parents.map fun q => (F.set p [] q).length) =
        parents.map fun q => (F q).length :=
      List.map_congr_left fun q hq => by rw [hkeep q hq]
    rw [clear_cons] at hL'
    rw [hsum] at hrest
    refine ⟨L', hL', (settles_clearChildren hF (hne p List.mem_cons_self)).bind ?_⟩
    exact hrest.bind (settles_pure _)

theorem sum_filter_and {α : Type} (l : List α) {P Q : α → Bool} {f : α → Nat}
    (h : ∀ x, Q x = false → f x = 0) :
    ((l.filter fun x => P x && Q x).map f).sum = ((l.filter P).map f).sum := by
  induction l with
  | nil => rfl
  | cons x l ih =>
    cases hP : P x with
    | false => simp [hP, ih]
    | true =>
      cases hQ : Q x with
      | false => simp [hP, hQ, h x hQ, ih]
      | true => simp [hP, hQ, ih]

theorem Shows.carries_firstChild {s : Store S} (hF : s.Shows t F) (h : s.Sound) :
    s.carries p (.firstChild t) = decide (F p ≠ []) := by
  rw [h.carries_eq, hF.isSome_first?]

/-- Those that pass and have children are the ones that are looked for, and the others that pass
have no children to lose. -/
theorem Shows.clear_select {s : Store S} (hF : s.Shows t F) (h : s.Sound) (sel : Selector S) :
    F.clear (fun p => decide (p ∈ s.select (sel.require (.firstChild t)))) =
      F.clear (s.passes sel) := by
  funext p
  simp only [Forest.clear, h.mem_select, passes_require, hF.carries_firstChild h,
    Bool.and_eq_true, decide_eq_true_eq]
  by_cases hp : F p = []
  · simp [hp]
  · simp [hp]

theorem Shows.sum_select {s : Store S} (hF : s.Shows t F) (h : s.Sound) (sel : Selector S) :
    ((s.select (sel.require (.firstChild t))).map fun p => (F p).length).sum =
      ((s.entities.filter (s.passes sel)).map fun p => (F p).length).sum := by
  have hpasses : s.passes (sel.require (.firstChild t)) =
      fun p => s.passes sel p && s.carries p (.firstChild t) := funext fun _ => passes_require
  rw [(h.select_perm.map _).sum_nat, hpasses]
  refine sum_filter_and _ fun p hp => ?_
  rw [hF.carries_firstChild h] at hp
  simpa using hp

theorem not_isEviction_clearedSelection (t : S.Tag) (parents edges : Nat) :
    ¬ (clearedSelection t parents edges).IsEviction := by
  simp [Report.IsEviction, clearedSelection]

/-- A selection of parents loses all its children, and the answer is how many they were. -/
theorem Sound.run_clearSelection {s : Store S} (h : s.Sound) (hF : s.Shows t F)
    (sel : Selector S) :
    ∃ L' : Links, L'.Shows s.valid (F.clear (s.passes sel)) ∧
      ((clearSelection t sel).run s).result =
        .ok ((s.entities.filter (s.passes sel)).map fun p => (F p).length).sum ∧
      ((clearSelection t sel).run s).Sound ∧
      ((clearSelection t sel).run s).state.contents = s.contents.relink t L' := by
  have hne : ∀ p ∈ s.select (sel.require (.firstChild t)), F p ≠ [] := fun p hp => by
    rw [h.mem_select, passes_require, hF.carries_firstChild h] at hp
    simpa using (Bool.and_eq_true_iff.1 hp).2
  obtain ⟨L', hL', hclear⟩ := settles_clearEach (m := s.contents) hF h.nodup_select hne
  rw [hF.clear_select h] at hL'
  rw [hF.sum_select h, relink_links] at hclear
  have hrun : (clearSelection t sel).run s =
      (do
        let edges ← clearEach t (s.select (sel.require (.firstChild t)))
        Action.report (clearedSelection t (s.select (sel.require (.firstChild t))).length edges)
        pure edges : Action (Store S) Fault Nat).run s := by
    rw [clearSelection, run_bind]
    rfl
  have hreport := settles_report (ε := Fault) (m := s.contents.relink t L')
    (not_isEviction_clearedSelection t (s.select (sel.require (.firstChild t))).length
      ((s.entities.filter (s.passes sel)).map fun p => (F p).length).sum)
  rw [hrun]
  refine ⟨L', hL', (hclear.bind ?_) s h rfl⟩
  exact hreport.bind (settles_pure _)

end Store

end EntityStore
