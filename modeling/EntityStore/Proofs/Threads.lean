import EntityStore.Link
import EntityStore.Proofs.Trails

/-!
# Threads

The children of a parent are threaded: each leads to the one after it and back to the one before
it.  `Threaded links before cs after` says so of a stretch `cs` of such a list, where `before` and
`after` are the neighbours of the stretch.  A stretch may be cut anywhere (`threaded_append`), and
only the links of its own members matter (`Threaded.congr`).

An edit changes the links of at most two members: the last one before a gap and the first one after
it.  `setNext` and `setPrev` are these two writes.  At the null handle, which has no links, they
write nothing.
-/

namespace EntityStore

variable {links links' : Entity → Option SiblingLinks} {before after c d e q x : Entity}
  {l r cs : List Entity}

/-- Each of some entities leads to the next and back to the one before it. -/
def Threaded (links : Entity → Option SiblingLinks) : Entity → List Entity → Entity → Prop
  | _, [], _ => True
  | before, c :: cs, after =>
    links c = some { next := cs.head?.getD after, prev := before } ∧ Threaded links c cs after

@[simp] theorem threaded_nil : Threaded links before [] after := trivial

theorem threaded_cons : Threaded links before (c :: cs) after ↔
    links c = some { next := cs.head?.getD after, prev := before } ∧
      Threaded links c cs after := Iff.rfl

/-- A threaded list may be cut anywhere: each part is threaded, with the other's end as its
neighbour. -/
theorem threaded_append : Threaded links before (l ++ r) after ↔
    Threaded links before l (r.head?.getD after) ∧
      Threaded links (l.getLast?.getD before) r after := by
  induction l generalizing before with
  | nil => simp
  | cons c cs ih =>
    have hhead : (cs ++ r).head?.getD after = cs.head?.getD (r.head?.getD after) := by
      cases cs <;> rfl
    have hlast : (c :: cs).getLast?.getD before = cs.getLast?.getD c := by
      cases cs <;> simp [List.getLast?_cons]
    rw [List.cons_append, threaded_cons, threaded_cons, ih, hhead, hlast, and_assoc]

/-- Only the links of the members matter. -/
theorem Threaded.congr (h : Threaded links before cs after) (hl : ∀ x ∈ cs, links' x = links x) :
    Threaded links' before cs after := by
  induction cs generalizing before with
  | nil => trivial
  | cons c cs ih =>
    obtain ⟨hc, hcs⟩ := h
    refine ⟨(hl c List.mem_cons_self).trans hc, ih hcs fun x hx => ?_⟩
    exact hl x (List.mem_cons_of_mem c hx)

/-- Every member has links. -/
theorem Threaded.isSome (h : Threaded links before cs after) (hx : x ∈ cs) :
    (links x).isSome = true := by
  induction cs generalizing before with
  | nil => simp at hx
  | cons c cs ih =>
    rcases List.mem_cons.1 hx with rfl | hx
    · rw [h.1]
      rfl
    · exact ih h.2 hx

/-- The links of a member are determined by the stretch. -/
theorem Threaded.eq_of_mem (h : Threaded links before cs after)
    (h' : Threaded links' before cs after) (hx : x ∈ cs) : links x = links' x := by
  induction cs generalizing before with
  | nil => cases hx
  | cons c cs ih =>
    rcases List.mem_cons.1 hx with rfl | hx
    · exact h.1.trans h'.1.symm
    · exact ih h.2 h'.2 hx

/-- A list that is threaded to its end is a trail. -/
theorem Threaded.trail (h : Threaded links before cs after) (hend : links after = none) :
    Trail (fun x => (links x).map SiblingLinks.next) (cs.head?.getD after) cs after := by
  induction cs generalizing before with
  | nil => exact .last (Option.map_eq_none_iff.2 hend)
  | cons c cs ih =>
    have hc : (links c).map SiblingLinks.next = some (cs.head?.getD after) := by
      rw [h.1]
      rfl
    exact .step hc (ih h.2)

/-! ## The ends of a stretch -/

theorem head?_getD_mem (h : cs ≠ []) : cs.head?.getD d ∈ cs := by
  rw [List.head?_eq_some_head h]
  exact List.head_mem h

theorem getLast?_getD_mem (h : cs ≠ []) : cs.getLast?.getD d ∈ cs := by
  rw [List.getLast?_eq_some_getLast h]
  exact List.getLast_mem h

theorem head?_getD_mem_of_ne (h : cs.head?.getD d ≠ d) : cs.head?.getD d ∈ cs := by
  refine head?_getD_mem ?_
  rintro rfl
  exact h rfl

theorem getLast?_getD_mem_of_ne (h : cs.getLast?.getD d ≠ d) : cs.getLast?.getD d ∈ cs := by
  refine getLast?_getD_mem ?_
  rintro rfl
  exact h rfl

theorem ne_head?_getD (hx : x ∉ cs) (hd : x ≠ d) : x ≠ cs.head?.getD d := by
  by_cases h : cs = []
  · rwa [h]
  · rintro rfl
    exact hx (head?_getD_mem h)

theorem ne_getLast?_getD (hx : x ∉ cs) (hd : x ≠ d) : x ≠ cs.getLast?.getD d := by
  by_cases h : cs = []
  · rwa [h]
  · rintro rfl
    exact hx (getLast?_getD_mem h)

/-! ## Writes to single links -/

/-- Lets an entity lead back to another. -/
def setPrev (links : Entity → Option SiblingLinks) (e q : Entity) : Entity → Option SiblingLinks :=
  Function.update links e ((links e).map fun v => { v with prev := q })

/-- Lets an entity lead on to another. -/
def setNext (links : Entity → Option SiblingLinks) (e q : Entity) : Entity → Option SiblingLinks :=
  Function.update links e ((links e).map fun v => { v with next := q })

theorem setPrev_of_ne (h : x ≠ e) : setPrev links e q x = links x := Function.update_of_ne h ..

theorem setNext_of_ne (h : x ≠ e) : setNext links e q x = links x := Function.update_of_ne h ..

theorem setPrev_of_eq_none (h : links e = none) : setPrev links e q = links := by
  rw [setPrev, h, Option.map_none, ← h, Function.update_eq_self]

theorem setNext_of_eq_none (h : links e = none) : setNext links e q = links := by
  rw [setNext, h, Option.map_none, ← h, Function.update_eq_self]

theorem isSome_setPrev : (setPrev links e q x).isSome = (links x).isSome := by
  by_cases h : x = e
  · subst h
    simp [setPrev]
  · rw [setPrev_of_ne h]

theorem isSome_setNext : (setNext links e q x).isSome = (links x).isSome := by
  by_cases h : x = e
  · subst h
    simp [setNext]
  · rw [setNext_of_ne h]

/-- The first member may be led back elsewhere. -/
theorem Threaded.setPrev_head (h : Threaded links before cs after) (hn : cs.Nodup) :
    Threaded (setPrev links (cs.head?.getD .null) q) q cs after := by
  cases cs with
  | nil => trivial
  | cons c cs =>
    obtain ⟨hc, hcs⟩ := h
    refine ⟨by simp [setPrev, hc], hcs.congr fun x hx => setPrev_of_ne ?_⟩
    rintro rfl
    exact (List.nodup_cons.1 hn).1 hx

/-- The last member may be led on elsewhere. -/
theorem Threaded.setNext_last (h : Threaded links before cs after) (hn : cs.Nodup) :
    Threaded (setNext links (cs.getLast?.getD .null) q) before cs q := by
  induction cs generalizing before with
  | nil => trivial
  | cons c cs ih =>
    obtain ⟨hc, hcs⟩ := h
    obtain ⟨hnot, hn⟩ := List.nodup_cons.1 hn
    cases cs with
    | nil => exact ⟨by simp [setNext, hc], trivial⟩
    | cons d ds =>
      have hlast : (c :: d :: ds).getLast?.getD .null = (d :: ds).getLast?.getD .null := by
        simp [List.getLast?_cons]
      have hne : c ≠ (d :: ds).getLast?.getD .null := by
        rintro rfl
        exact hnot (getLast?_getD_mem (by simp))
      rw [hlast]
      exact ⟨(setNext_of_ne hne).trans hc, ih hcs hn⟩

/-! ## Edits of a thread -/

/-- A new first member. -/
theorem Threaded.prepend (h : Threaded links .null cs .null) (hn : (c :: cs).Nodup) :
    Threaded (Function.update (setPrev links (cs.head?.getD .null) c) c
      (some { next := cs.head?.getD .null })) .null (c :: cs) .null := by
  obtain ⟨hnot, hn⟩ := List.nodup_cons.1 hn
  refine ⟨Function.update_self .., (h.setPrev_head hn).congr fun x hx => ?_⟩
  refine Function.update_of_ne ?_ ..
  rintro rfl
  exact hnot hx

/-- The members after one that leaves are led back to an entity that is none of them. -/
theorem Threaded.remove_head (h : Threaded links c r after) (hn : (c :: r).Nodup)
    (hq : ∀ x ∈ r, x ≠ q) :
    Threaded (Function.update
      (setPrev (setNext links q d) (r.head?.getD .null) q) c none) q r after := by
  obtain ⟨hcr, hnr⟩ := List.nodup_cons.1 hn
  have hr : Threaded (setNext links q d) c r after := h.congr fun x hx => setNext_of_ne (hq x hx)
  exact (hr.setPrev_head hnr).congr fun x hx =>
    Function.update_of_ne (ne_of_mem_of_not_mem hx hcr) ..

/-- A member leaves, and its neighbours become neighbours of each other. -/
theorem Threaded.remove (h : Threaded links .null (l ++ c :: r) .null) (hn : (l ++ c :: r).Nodup)
    (hnull : Entity.null ∉ l ++ c :: r) :
    Threaded (Function.update
      (setPrev (setNext links (l.getLast?.getD .null) (r.head?.getD .null)) (r.head?.getD .null)
        (l.getLast?.getD .null)) c none) .null (l ++ r) .null := by
  obtain ⟨hl, -, hr⟩ := threaded_append.1 h
  obtain ⟨hnl, hncr, hdisj⟩ := List.nodup_append.1 hn
  have hnot_null : ∀ x ∈ l ++ c :: r, x ≠ .null := fun x hx hxn => hnull (hxn ▸ hx)
  have hprev : ∀ x ∈ r, x ≠ l.getLast?.getD .null := fun x hx =>
    ne_getLast?_getD (fun hxl => hdisj x hxl x (List.mem_cons_of_mem c hx) rfl)
      (hnot_null x (List.mem_append_right l (List.mem_cons_of_mem c hx)))
  have hnext : ∀ x ∈ l, x ≠ r.head?.getD .null := fun x hx =>
    ne_head?_getD (fun hxr => hdisj x hx x (List.mem_cons_of_mem c hxr) rfl)
      (hnot_null x (List.mem_append_left _ hx))
  have hcl : ∀ x ∈ l, x ≠ c := fun x hx => hdisj x hx c List.mem_cons_self
  refine threaded_append.2 ⟨?_, hr.remove_head hncr hprev⟩
  refine (hl.setNext_last hnl).congr fun x hx => ?_
  rw [Function.update_of_ne (hcl x hx), setPrev_of_ne (hnext x hx)]

end EntityStore
