import EntityStore.Proofs.Histories

/-!
# Unlinking many children, at once or one by one

The children of a selection of parents may be unlinked all at once (`Store.clearSelection`) or edge
by edge (`Store.removeEach`), in any order.  The first way takes both links from every child and
repairs no neighbour.  The second way repairs the neighbours, the first child and the number of
children after each edge.

Both ways lead to the forest without the children of these parents, and links are determined by the
forest that they show (`Links.Shows.unique`).  So both leave the same contents
(`History.Leads.prunes`).
-/

namespace EntityStore

variable {S : Schema}

namespace Forest

variable {F : Forest} {p : Entity} {edges : List (Entity × Entity)} {selected : Entity → Bool}

/-- The forest without some edges, each given by its parent and its child. -/
def removeEach (F : Forest) : List (Entity × Entity) → Forest
  | [] => F
  | (p, c) :: edges => (F.remove p c).removeEach edges

/-- An edge that is not removed stays when others are. -/
theorem mem_remove {q c x : Entity} (hx : x ∈ F q) (hne : (q, x) ≠ (p, c)) :
    x ∈ F.remove p c q := by
  by_cases hq : q = p
  · subst hq
    rw [remove, set_self]
    exact (List.mem_erase_of_ne fun hxc => hne (by rw [hxc])).2 hx
  · rwa [remove, set_of_ne hq]

/-- A list loses the children whose edges are removed. -/
theorem removeEach_eq_filter (hn : (F p).Nodup) :
    F.removeEach edges p = (F p).filter fun c => (p, c) ∉ edges := by
  induction edges generalizing F with
  | nil => simp [removeEach]
  | cons e edges ih =>
    obtain ⟨q, x⟩ := e
    rw [removeEach]
    by_cases hq : p = q
    · subst hq
      have hlist : F.remove p x p = (F p).filter (· != x) := by
        rw [remove, set_self, hn.erase_eq_filter]
      rw [ih (hlist ▸ hn.filter _), hlist, List.filter_filter]
      refine List.filter_congr fun c _ => ?_
      by_cases hc : c = x <;> simp [hc]
    · have hlist : F.remove q x p = F p := by rw [remove, set_of_ne hq]
      rw [ih (hlist ▸ hn), hlist]
      simp [hq]

/-- When the edges that are removed are those of some parents, these lose all their children. -/
theorem removeEach_eq_clear (hn : ∀ p, (F p).Nodup)
    (hedges : ∀ p c, (p, c) ∈ edges ↔ selected p = true ∧ c ∈ F p) :
    F.removeEach edges = F.clear selected := by
  funext p
  rw [removeEach_eq_filter (hn p), clear]
  cases hp : selected p with
  | true => simp [hedges, hp]
  | false => simp [hedges, hp]

end Forest

namespace Store

open EntityStore.Action Contents

variable {s s' : Store S} {m : Contents S} {t : S.Tag} {L : Links} {F : Forest} {sel : Selector S}
  {p c : Entity} {edges : List (Entity × Entity)}

/-- Unlinks children from parents one by one.  The answers are whether there were edges. -/
def removeEach (t : S.Tag) : List (Entity × Entity) → Action (Store S) Fault (List Bool)
  | [] => pure []
  | (p, c) :: edges => do
    let removed ← removeChild t p c
    let rest ← removeEach t edges
    pure (removed :: rest)

/-- The edges of the parents that pass a selector, in some order. -/
structure Selected (s : Store S) (t : S.Tag) (sel : Selector S)
    (edges : List (Entity × Entity)) : Prop where
  /-- Each edge is listed once. -/
  nodup : edges.Nodup
  /-- The parent of an edge passes, and the child names it. -/
  mem_iff : ∀ p c, (p, c) ∈ edges ↔
    s.passes sel p = true ∧ s.lookup? c (.parentLink t) = some (⟨p⟩ : ParentLink)

/-- The parents that passed a selector have lost all their children, and nothing else is
different. -/
structure Pruned (s : Store S) (t : S.Tag) (sel : Selector S) (s' : Store S) : Prop where
  /-- The same entities are live. -/
  valid : s'.valid = s.valid
  /-- All values but the links of the hierarchy are the same. -/
  other : ∀ e, ∀ c : Component S, c.tag? ≠ some t → s'.lookup? e c = s.lookup? e c
  /-- A child of a selected parent has lost its links. -/
  child : ∀ p c, s.passes sel p = true →
    s.lookup? c (.parentLink t) = some (⟨p⟩ : ParentLink) →
    s'.lookup? c (.parentLink t) = none ∧ s'.lookup? c (.siblingLinks t) = none
  /-- A child of another parent has its links. -/
  child_of_not : ∀ p c, s.passes sel p = false →
    s.lookup? c (.parentLink t) = some (⟨p⟩ : ParentLink) →
    s'.lookup? c (.parentLink t) = some (⟨p⟩ : ParentLink) ∧
      s'.lookup? c (.siblingLinks t) = s.lookup? c (.siblingLinks t)
  /-- What had no parent has none. -/
  root : ∀ c, s.lookup? c (.parentLink t) = none →
    s'.lookup? c (.parentLink t) = none ∧ s'.lookup? c (.siblingLinks t) = none
  /-- A selected parent has lost its links. -/
  parent : ∀ p, s.passes sel p = true →
    s'.lookup? p (.firstChild t) = none ∧ s'.lookup? p (.childCount t) = none
  /-- Another parent has its links. -/
  parent_of_not : ∀ p, s.passes sel p = false →
    s'.lookup? p (.firstChild t) = s.lookup? p (.firstChild t) ∧
      s'.lookup? p (.childCount t) = s.lookup? p (.childCount t)
  /-- Another parent lists the same children in the same order. -/
  listChildren : ∀ p, s.passes sel p = false → s'.listChildren t p = s.listChildren t p

/-! ## Edges -/

/-- The edges of a selection are as many as the children of the selected parents. -/
theorem Shows.exists_selected (hF : s.Shows t F) (h : s.Sound) (sel : Selector S) :
    ∃ edges, s.Selected t sel edges ∧
      edges.length = ((s.entities.filter (s.passes sel)).map fun p => (F p).length).sum := by
  refine ⟨(s.select sel).flatMap fun p => (F p).map (p, ·), ⟨?_, fun p c => ?_⟩, ?_⟩
  · rw [List.nodup_flatMap]
    refine ⟨fun p _ => (Links.Shows.nodup hF p).map fun _ _ heq => (Prod.mk.inj heq).2, ?_⟩
    refine h.nodup_select.imp fun hne => ?_
    simp only [Function.onFun, List.disjoint_left, List.mem_map]
    rintro _ ⟨c, -, rfl⟩ ⟨d, -, heq⟩
    exact hne (Prod.mk.inj heq).1.symm
  · simp [h.mem_select, hF.parent_iff]
  · simp [List.length_flatMap, (h.select_perm.map _).sum_nat]

/-- Two lists of the edges of a selection are equally long. -/
theorem Selected.length_eq {edges' : List (Entity × Entity)} (he : s.Selected t sel edges)
    (he' : s.Selected t sel edges') : edges.length = edges'.length := by
  refine List.Perm.length_eq ((List.perm_ext_iff_of_nodup he.nodup he'.nodup).2 ?_)
  rintro ⟨p, c⟩
  rw [he.mem_iff, he'.mem_iff]

/-! ## Edge by edge -/

/-- Each of some edges is removed. -/
theorem settles_removeEach (hF : L.Shows m.live F) (hnull : m.live .null = false)
    (hn : edges.Nodup) (hmem : ∀ p c, (p, c) ∈ edges → c ∈ F p) :
    ∃ L' : Links, L'.Shows m.live (F.removeEach edges) ∧
      (removeEach t edges).Settles (m.relink t L) (.ok (edges.map fun _ => true))
        (m.relink t L') := by
  induction edges generalizing L F with
  | nil => exact ⟨L, hF, settles_pure []⟩
  | cons e edges ih =>
    obtain ⟨p, c⟩ := e
    obtain ⟨hnot, hn⟩ := List.nodup_cons.1 hn
    obtain ⟨L', hL', hfirst⟩ := settles_removeChild (t := t) (p := p) (c := c) hF hnull
    rw [(Forest.hasEdge_eq_ok_true_iff hnull hF.live).2 (hmem p c List.mem_cons_self)] at hfirst
    obtain ⟨L'', hL'', hrest⟩ := ih hL' hn fun q x hx =>
      Forest.mem_remove (hmem q x (List.mem_cons_of_mem _ hx)) fun heq => hnot (heq ▸ hx)
    exact ⟨L'', hL'', hfirst.bind (hrest.bind (settles_pure _))⟩

theorem Sound.run_removeEach (h : s.Sound) (hF : s.Shows t F) (hn : edges.Nodup)
    (hmem : ∀ p c, (p, c) ∈ edges → c ∈ F p) :
    ((removeEach t edges).run s).result = .ok (edges.map fun _ => true) ∧
      ∃ L : Links, L.Shows s.valid (F.removeEach edges) ∧
        ((removeEach t edges).run s).state.contents = s.contents.relink t L := by
  obtain ⟨L, hL, hsettles⟩ := settles_removeEach (m := s.contents) (t := t) hF h.valid_null hn hmem
  rw [relink_links] at hsettles
  obtain ⟨hr, -, hm⟩ := hsettles s h rfl
  exact ⟨hr, L, hL, hm⟩

/-! ## What is left -/

/-- Links that show the forest without the children of the selected parents are pruned. -/
theorem Shows.pruned (hF : s.Shows t F) (h : s.Sound) (h' : s'.Sound)
    (hL : L.Shows s.valid (F.clear (s.passes sel))) (hm : s'.contents = s.contents.relink t L) :
    s.Pruned t sel s' := by
  have hvalid : s'.valid = s.valid := valid_of_contents hm
  have hF' : s'.Shows t (F.clear (s.passes sel)) := shows_of_contents hm hL
  have hgone : ∀ p, s.passes sel p = true → F.clear (s.passes sel) p = [] := fun p hp => if_pos hp
  have hkept : ∀ p, s.passes sel p = false → F.clear (s.passes sel) p = F p :=
    fun p hp => if_neg (by simp [hp])
  have hunlinked : ∀ c, (∀ p, c ∈ F p → s.passes sel p = true) →
      s'.lookup? c (.parentLink t) = none ∧ s'.lookup? c (.siblingLinks t) = none := by
    intro c hc
    have hnot : ∀ p, c ∉ F.clear (s.passes sel) p := fun p hp => by
      cases hsel : s.passes sel p with
      | true => simp [hgone p hsel] at hp
      | false =>
        rw [hkept p hsel] at hp
        simp [hc p hp] at hsel
    have hparent : s'.lookup? c (.parentLink t) = none := Links.Shows.parent?_eq_none hF' hnot
    exact ⟨hparent, Links.Shows.siblings?_eq_none hF' hparent⟩
  constructor
  case valid => exact hvalid
  case other =>
    intro e c hc
    exact (congrFun (congrFun (congrArg Contents.value? hm) e) c).trans (value?_relink_of_tag hc)
  case child =>
    intro p c hp hc
    exact hunlinked c fun q hq => by rwa [Links.Shows.eq_of_mem hF hq (hF.parent_iff.1 hc)]
  case child_of_not =>
    intro p c hp hc
    have hmem := hF.parent_iff.1 hc
    refine ⟨hF'.parent?_eq (by rwa [hkept p hp]), ?_⟩
    exact (Links.Shows.siblings?_eq_of_mem hF hF' (hkept p hp).symm hmem).symm
  case root =>
    intro c hc
    exact hunlinked c fun p hp => absurd hp (Links.Shows.not_mem_of_parent? hF hc)
  case parent =>
    intro p hp
    rw [hF'.first?_eq, hF'.count?_eq, hgone p hp]
    exact ⟨rfl, rfl⟩
  case parent_of_not =>
    intro p hp
    rw [hF'.first?_eq, hF'.count?_eq, hkept p hp, hF.first?_eq, hF.count?_eq]
    exact ⟨rfl, rfl⟩
  case listChildren =>
    intro p hp
    by_cases hask : s.Askable p
    · have hask' : s'.Askable p := by rwa [Askable, hvalid]
      rw [hF.listChildren_eq h hask, hF'.listChildren_eq h' hask', hkept p hp]
    · have hask' : ¬ s'.Askable p := by rwa [Askable, hvalid]
      rw [listChildren_of_not_askable hask, listChildren_of_not_askable hask']

end Store

/-- Wherever a disciplined history leads, the removal of all children of a selection does what the
removal of the edges of the selected parents does, one by one and in any order.  It answers with
their number.  Each of them is there when its turn comes, and afterwards the selected parents have
lost all their children, and nothing else is different. -/
theorem History.Leads.prunes {H : History S} {s : Store S} {G : Forests S} (h : H.Leads s G)
    (t : S.Tag) (sel : Selector S) :
    (∃ edges, s.Selected t sel edges) ∧
    ∀ edges, s.Selected t sel edges →
      ((Store.clearSelection t sel).run s).result = .ok edges.length ∧
      ((Store.removeEach t edges).run s).result = .ok (edges.map fun _ => true) ∧
      ((Store.removeEach t edges).run s).state.contents =
        ((Store.clearSelection t sel).run s).state.contents ∧
      s.Pruned t sel ((Store.clearSelection t sel).run s).state := by
  obtain ⟨hs, hG⟩ := h.shows
  have hF := hG t
  obtain ⟨listed, hlisted, hlength⟩ := hF.exists_selected hs sel
  obtain ⟨L, hL, hr, hsound, hm⟩ := hs.run_clearSelection hF sel
  refine ⟨⟨listed, hlisted⟩, fun edges hedges => ?_⟩
  have hiff : ∀ p c, (p, c) ∈ edges ↔ s.passes sel p = true ∧ c ∈ G t p := fun p c => by
    rw [hedges.mem_iff, hF.parent_iff]
  obtain ⟨hr', L', hL', hm'⟩ :=
    hs.run_removeEach hF hedges.nodup fun p c hpc => ((hiff p c).1 hpc).2
  rw [Forest.removeEach_eq_clear (fun p => (Links.Shows.nodup hF p)) hiff] at hL'
  refine ⟨?_, hr', ?_, hF.pruned hs hsound.state hL hm⟩
  · rw [hr, ← hlength, hlisted.length_eq hedges]
  · rw [hm', hm, hL'.unique hL]

/-- Parents without a value are selected.  One of them is a child of another, and a third parent
has a value and keeps its child. -/
theorem History.Leads.prunes_nested :
    ∃ (H : History Schema.sample) (s : Store Schema.sample) (G : Forests Schema.sample) (edges : _),
      H.Leads s G ∧ s.Selected () (Selector.reject {} (.data ())) edges ∧ edges.length = 3 ∧
      ((Store.removeEach () edges).run s).state.contents =
        ((Store.clearSelection () (Selector.reject {} (.data ()))).run s).state.contents ∧
      s.Pruned () (Selector.reject {} (.data ()))
        ((Store.clearSelection () (Selector.reject {} (.data ()))).run s).state ∧
      s.listChildren () ⟨4, 0⟩ = .ok [⟨5, 0⟩] := by
  have hnew : History.Leads (S := Schema.sample) _ _ _ :=
    (((((History.Leads.new.step (.call .create) trivial).step (.call .create) trivial).step
      (.call .create) trivial).step (.call .create) trivial).step (.call .create) trivial).step
      (.call .create) trivial
  have hrun : History.Leads (S := Schema.sample) _ _ _ :=
    ((((hnew.step (.prependChild () ⟨0, 0⟩ ⟨1, 0⟩) trivial).step
      (.prependChild () ⟨0, 0⟩ ⟨2, 0⟩) trivial).step (.prependChild () ⟨1, 0⟩ ⟨3, 0⟩) trivial).step
      (.prependChild () ⟨4, 0⟩ ⟨5, 0⟩) trivial).step
      (.call (.attach ⟨4, 0⟩ (.data ()) (7 : Nat))) rfl
  obtain ⟨⟨edges, hedges⟩, hprunes⟩ := hrun.prunes () (Selector.reject {} (.data ()))
  obtain ⟨hcount, -, hsame, hpruned⟩ := hprunes edges hedges
  have hthree : edges.length = 3 := (Except.ok.inj hcount).symm
  exact ⟨_, _, _, edges, hrun, hedges, hthree, hsame, hpruned, rfl⟩

end EntityStore
