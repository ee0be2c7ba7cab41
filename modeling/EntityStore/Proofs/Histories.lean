import EntityStore.Proofs.Discipline

/-!
# Disciplined histories

A *history* is a list of operations, each with the result that it ended with, the latest first.  It
is disciplined if it starts from a new store and each of its operations is disciplined on the store
that it finds.  `History.Leads H s G` says that it is, that it leads to the store `s`, and that a
plain model of the hierarchies, which starts without any edges and does what the operations did, has
come to the forests `G`.

The links of the store show these forests at every moment (`History.Leads.shows`).  So they are in
order (`Store.Orderly`), and no question about them and no removal of an edge fails on live or null
handles (`Store.Responsive`).
-/

namespace EntityStore

variable {S : Schema}

/-- Operations with the results that they ended with, the latest first. -/
abbrev History (S : Schema) := List ((k : Op S) × Except Fault k.Answer)

/-- A history of disciplined operations leads from a new store to a store, and from no edges to
some forests. -/
inductive History.Leads : History S → Store S → Forests S → Prop where
  /-- Nothing was done. -/
  | new : Leads [] {} fun _ => .empty
  /-- A disciplined operation comes last. -/
  | step {H : History S} {s : Store S} {G : Forests S} (before : Leads H s G) (k : Op S)
      (hk : k.Disciplined s) :
      Leads (⟨k, (k.run.run s).result⟩ :: H) (k.run.run s).state
        (G.after s k (k.run.run s).result)

namespace History.Leads

variable {H : History S} {s : Store S} {G : Forests S}

/-- The store is sound, and its links show the forests. -/
theorem shows (h : H.Leads s G) : s.Sound ∧ ∀ t, s.Shows t (G t) := by
  induction h with
  | new =>
    refine ⟨Store.sound_empty, fun t => ?_⟩
    exact Links.Shows.empty
  | step before k hk ih =>
    obtain ⟨hs, hG⟩ := ih
    exact ⟨(k.safe _ hs).state, hk.shows hs hG⟩

end History.Leads

/-! ## Links in order -/

namespace Store

variable {s : Store S} {t : S.Tag} {F : Forest}

/-- The links of a hierarchy are in order. -/
structure Orderly (s : Store S) (t : S.Tag) : Prop where
  /-- The links of a child come in a pair. -/
  child_pair : ∀ e, s.carries e (.parentLink t) = s.carries e (.siblingLinks t)
  /-- The links of a parent come in a pair. -/
  parent_pair : ∀ e, s.carries e (.firstChild t) = s.carries e (.childCount t)
  /-- From the first child of a parent the links lead through a list without repetition, to and
  fro, which ends with the null handle.  The list has exactly the live entities that name the
  parent, and their number is recorded. -/
  children : ∀ p, ∀ head : FirstChild, s.lookup? p (.firstChild t) = some head →
    ∃ cs : List Entity, cs.head? = some head.first ∧ cs.Nodup ∧
      Threaded (s.lookup? · (.siblingLinks t)) .null cs .null ∧
      (∀ c, c ∈ cs ↔ s.valid c = true ∧
        s.lookup? c (.parentLink t) = some (⟨p⟩ : ParentLink)) ∧
      ∃ count : ChildCount, s.lookup? p (.childCount t) = some count ∧
        count.size.toNat = cs.length ∧ 1 ≤ cs.length
  /-- A parent that is named is live and has children. -/
  parent_live : ∀ c, ∀ link : ParentLink, s.lookup? c (.parentLink t) = some link →
    s.valid link.parent = true ∧ s.carries link.parent (.firstChild t) = true
  /-- No entity is reached from itself by steps to the parent. -/
  acyclic : ∀ e, ¬ Relation.TransGen
    (fun c p => s.lookup? c (.parentLink t) = some (⟨p⟩ : ParentLink)) e e

theorem Shows.toOrderly (hF : s.Shows t F) (h : s.Sound) : s.Orderly t where
  child_pair e := by rw [h.carries_eq, h.carries_eq, hF.isSome_siblings?]
  parent_pair e := by rw [h.carries_eq, h.carries_eq, hF.isSome_first?, hF.isSome_count?]
  children p head hhead := by
    rw [hF.first?_eq, headOf, Option.map_eq_some_iff] at hhead
    obtain ⟨c, hc, rfl⟩ := hhead
    have hne : F p ≠ [] := by
      intro hnil
      simp [hnil] at hc
    refine ⟨F p, hc, Links.Shows.nodup hF p, Links.Shows.threaded hF p, fun x => ?_, ?_⟩
    · rw [hF.parent_iff]
      exact ⟨fun hx => ⟨(hF.valid hx).1, hx⟩, And.right⟩
    · refine ⟨_, hF.count?_eq.trans (if_neg hne), ?_, List.length_pos_of_ne_nil hne⟩
      have hroom := hF.length_lt_size h (p := p)
      exact UInt64.toNat_ofNat_of_lt' (by omega)
  parent_live c link hlink := by
    have hmem := Links.Shows.mem_of_parent? hF hlink
    refine ⟨(hF.valid hmem).2, ?_⟩
    rw [h.carries_eq, hF.isSome_first?, decide_eq_true_eq]
    exact List.ne_nil_of_mem hmem
  acyclic e he :=
    Links.Shows.acyclic hF e (Relation.TransGen.mono (fun _ _ hcp => hF.parent_iff.1 hcp) e e he)

/-! ## Answers -/

/-- No question about a hierarchy and no removal of edges fails on handles that are live or
null. -/
structure Responsive (s : Store S) (t : S.Tag) : Prop where
  /-- Questions about one entity. -/
  one : ∀ e, s.Askable e →
    (∃ b, s.isChild t e = .ok b) ∧ (∃ b, s.isParent t e = .ok b) ∧
    (∃ o, s.parentOf? t e = .ok o) ∧ (∃ o, s.firstChildOf? t e = .ok o) ∧
    (∃ n, s.childCount t e = .ok n) ∧ (∃ cs, s.listChildren t e = .ok cs) ∧
    ∃ w, s.children t e = .ok w ∧ ∀ n, ∃ shown, s.stepChildren t n w = .ok shown
  /-- Questions about two entities. -/
  two : ∀ e x, s.Askable e → s.Askable x →
    (∃ b, s.isChildOf t e x = .ok b) ∧ (∃ b, s.hasChild t e x = .ok b) ∧
    ∃ b, s.isAncestorOf t e x = .ok b
  /-- The removal of one edge. -/
  remove : ∀ p c, s.Askable p → s.Askable c → ∃ b, ((removeChild t p c).run s).result = .ok b
  /-- The removal of the edge to a parent. -/
  detach : ∀ c, s.Askable c → ∃ b, ((detachChild t c).run s).result = .ok b
  /-- The removal of all edges of a selection. -/
  clear : ∀ sel, ∃ n, ((clearSelection t sel).run s).result = .ok n

theorem Shows.toResponsive (hF : s.Shows t F) (h : s.Sound) : s.Responsive t where
  one e he := by
    refine ⟨⟨_, hF.isChild_eq h he⟩, ⟨_, hF.isParent_eq h he⟩, ⟨_, h.parentOf?_eq he⟩,
      ⟨_, h.firstChildOf?_eq he⟩, ⟨_, h.childCount_eq he⟩, ⟨_, hF.listChildren_eq h he⟩,
      _, hF.children_eq h he, fun n => ?_⟩
    exact exists_stepChildren (Links.Shows.threaded hF e) (hF.live_ne_null h) rfl
  two e x he hx := by
    obtain ⟨b, hb, -⟩ := hF.isAncestorOf_eq (a := e) h hx
    exact ⟨⟨_, hF.isChildOf_eq h hx⟩, ⟨_, hF.hasChild_eq h he⟩, b, hb⟩
  remove p c hp hc := by
    obtain ⟨hr, -⟩ := h.run_removeChild (p := p) (c := c) hF
    rw [hr, Forest.hasEdge_of_askable h.valid_null (fun p c => hF.valid) hp hc]
    exact ⟨_, rfl⟩
  detach c hc := by
    obtain ⟨-, hask, -⟩ := h.run_detachChild (c := c) hF
    obtain ⟨b, hb, -⟩ := hask hc
    exact ⟨b, hb⟩
  clear sel := by
    obtain ⟨-, -, hr, -⟩ := h.run_clearSelection hF sel
    exact ⟨_, hr⟩

end Store

/-- Wherever a disciplined history leads, the links of every hierarchy are in order, and no
question about it and no removal of edges fails. -/
theorem History.Leads.orderly_and_responsive {H : History S} {s : Store S} {G : Forests S}
    (h : H.Leads s G) (t : S.Tag) : s.Orderly t ∧ s.Responsive t := by
  obtain ⟨hs, hG⟩ := h.shows
  exact ⟨(hG t).toOrderly hs, (hG t).toResponsive hs⟩

/-- Two children are linked under a parent, and the first of them leaves again. -/
theorem History.Leads.orderly_and_responsive_siblings :
    ∃ (H : History Schema.sample) (s : Store Schema.sample) (G : Forests Schema.sample),
      H.Leads s G ∧ s.listChildren () ⟨0, 0⟩ = .ok [⟨2, 0⟩] ∧ s.Orderly () ∧ s.Responsive () := by
  have hrun : History.Leads (S := Schema.sample) _ _ _ :=
    (((((History.Leads.new.step (.call .create) trivial).step (.call .create) trivial).step
      (.call .create) trivial).step (.prependChild () ⟨0, 0⟩ ⟨1, 0⟩) trivial).step
      (.prependChild () ⟨0, 0⟩ ⟨2, 0⟩) trivial).step (.detachChild () ⟨1, 0⟩) trivial
  exact ⟨_, _, _, hrun, rfl, hrun.orderly_and_responsive ()⟩

end EntityStore
