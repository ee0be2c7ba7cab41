import EntityStore.Proofs.Histories

/-!
# Hierarchies refine forests

Along a disciplined history the forests change as a plain model would have it (`Forests.after`): an
edge that is made puts the child first, the removal of an edge takes one child from one list, and
so on.  The main theorem says that at every moment the store answers as this model does
(`History.Leads.refines`).

It says also in which order the children of a parent come.  `History.age` counts how many
operations ago a child was linked for the last time, and children are listed by increasing age.  An
operation makes everything older but the child that it links, and it adds that child in front.
-/

namespace EntityStore

variable {S : Schema}

/-! ## The time of the latest link -/

/-- Whether an operation linked a child. -/
def Op.linked (t : S.Tag) (c : Entity) : (k : Op S) × Except Fault k.Answer → Bool
  | ⟨.prependChild u _ x, .ok _⟩ => decide (u = t ∧ x = c)
  | _ => false

/-- How many operations came after the one that linked a child for the last time. -/
def History.age (H : History S) (t : S.Tag) (c : Entity) : Nat := H.findIdx (Op.linked t c)

namespace Forests

variable {G : Forests S} {s : Store S} {k : Op S} {r : Except Fault k.Answer} {t u : S.Tag}
  {F : Forest} {p c : Entity}

theorem update_sublist (h : ∀ p, (F p).Sublist (G u p)) :
    (Function.update G u F t p).Sublist (G t p) := by
  by_cases ht : t = u
  · subst ht
    rw [Function.update_self]
    exact h p
  · rw [Function.update_of_ne ht]

theorem remove_sublist (F : Forest) (p c q : Entity) : (F.remove p c q).Sublist (F q) := by
  by_cases hq : q = p
  · rw [hq, Forest.remove, Forest.set_self]
    exact List.erase_sublist
  · rw [Forest.remove, Forest.set_of_ne hq]

theorem clear_sublist (F : Forest) (selected : Entity → Bool) (q : Entity) :
    (F.clear selected q).Sublist (F q) := by
  unfold Forest.clear
  split
  · exact List.nil_sublist _
  · exact List.Sublist.refl _

/-- An operation that makes no edge adds to no list and keeps the order of each. -/
theorem after_sublist (hk : ∀ u q x, k ≠ .prependChild u q x) :
    (G.after s k r t p).Sublist (G t p) := by
  cases k with
  | prependChild u q x => exact absurd rfl (hk u q x)
  | removeChild u q x =>
    cases r with
    | ok b => exact update_sublist fun p => remove_sublist (G u) q x p
    | error f => exact List.Sublist.refl _
  | detachChild u x =>
    cases r with
    | ok b => exact update_sublist fun p => List.erase_sublist
    | error f => exact List.Sublist.refl _
  | clearSelection u sel =>
    cases r with
    | ok n => exact update_sublist fun p => clear_sublist (G u) (s.passes sel) p
    | error f => exact List.Sublist.refl _
  | _ => exact List.Sublist.refl _

end Forests

namespace History

variable {H : History S} {G : Forests S} {s : Store S} {t u : S.Tag} {p q c x : Entity}
  {ev : (k : Op S) × Except Fault k.Answer}

theorem linked_of_ne {k : Op S} {r : Except Fault k.Answer}
    (hk : ∀ u q x, k ≠ .prependChild u q x) : Op.linked t c ⟨k, r⟩ = false := by
  cases k with
  | prependChild u q x => exact absurd rfl (hk u q x)
  | _ => rfl

theorem age_cons_of_linked (h : Op.linked t c ev = true) : age (ev :: H) t c = 0 := by
  simp [age, List.findIdx_cons, h]

theorem age_cons_of_not_linked (h : Op.linked t c ev = false) :
    age (ev :: H) t c = H.age t c + 1 := by
  simp [age, List.findIdx_cons, h]

/-- Where an operation links none of some children, they keep their order by age. -/
theorem pairwise_age_cons {cs : List Entity} (hnot : ∀ x ∈ cs, Op.linked t x ev = false)
    (h : cs.Pairwise fun a b => H.age t a < H.age t b) :
    cs.Pairwise fun a b => age (ev :: H) t a < age (ev :: H) t b :=
  h.imp_of_mem fun ha hb hlt => by
    rw [age_cons_of_not_linked (hnot _ ha), age_cons_of_not_linked (hnot _ hb)]
    omega

/-- A new edge puts the youngest child in front. -/
theorem pairwise_age_prepend (hroot : ∀ q, x ∉ G u q)
    (ih : ∀ t p, (G t p).Pairwise fun a b => H.age t a < H.age t b)
    (hlinked : ∀ t c, Op.linked t c ev = decide (u = t ∧ x = c)) :
    (Function.update G u ((G u).prepend q x) t p).Pairwise
      fun a b => age (ev :: H) t a < age (ev :: H) t b := by
  have hother : ∀ p, ∀ y ∈ G t p, Op.linked t y ev = false := by
    intro p y hy
    rw [hlinked, decide_eq_false_iff_not]
    rintro ⟨rfl, rfl⟩
    exact hroot p hy
  have hold : ∀ p, (G t p).Pairwise fun a b => age (ev :: H) t a < age (ev :: H) t b :=
    fun p => pairwise_age_cons (hother p) (ih t p)
  by_cases ht : t = u
  · subst ht
    rw [Function.update_self]
    by_cases hp : p = q
    · rw [hp, Forest.prepend, Forest.set_self]
      refine List.Pairwise.cons (fun y hy => ?_) (hold q)
      rw [age_cons_of_linked (by simp [hlinked]), age_cons_of_not_linked (hother q y hy)]
      omega
    · rw [Forest.prepend, Forest.set_of_ne hp]
      exact hold p
  · rw [Function.update_of_ne ht]
    exact hold p

/-- Children are listed by increasing age. -/
theorem Leads.pairwise_age (h : H.Leads s G) :
    ∀ t p, (G t p).Pairwise fun a b => H.age t a < H.age t b := by
  induction h with
  | new => exact fun t p => List.Pairwise.nil
  | @step H s G before k hk ih =>
    intro t p
    by_cases hlink : ∃ u q x, k = .prependChild u q x
    · obtain ⟨u, q, x, rfl⟩ := hlink
      obtain ⟨hs, hG⟩ := before.shows
      obtain ⟨_, _, _, _, hcases⟩ := hs.run_prependChild (p := q) (c := x) (hG u)
      rcases hcases with ⟨hallows, hr, -⟩ | ⟨-, ⟨f, hr⟩, -⟩
      · have hres : ((Op.prependChild u q x).run.run s).result = .ok () := hr
        rw [hres]
        exact pairwise_age_prepend hallows.root ih fun _ _ => rfl
      · have hres : ((Op.prependChild u q x).run.run s).result = .error f := hr
        rw [hres]
        exact pairwise_age_cons (fun _ _ => rfl) (ih t p)
    · have hne : ∀ u q x, k ≠ .prependChild u q x := fun u q x hk => hlink ⟨u, q, x, hk⟩
      exact (pairwise_age_cons (fun _ _ => linked_of_ne hne) (ih t p)).sublist
        (Forests.after_sublist hne)

end History

/-- Wherever a disciplined history leads, the store answers as the forests do, and children are
listed by the time of their latest link, the newest first. -/
theorem History.Leads.refines {H : History S} {s : Store S} {G : Forests S} (h : H.Leads s G)
    (t : S.Tag) :
    (∀ p, s.valid p = true → s.listChildren t p = .ok (G t p)) ∧
    (∀ c, s.valid c = true → ∃ o, s.parentOf? t c = .ok o ∧ ∀ p, o = some p ↔ c ∈ G t p) ∧
    (∀ p c, ((Store.prependChild t p c).run s).result = .ok () ↔
      (G t).Allows s.valid p c) ∧
    (∀ p c, (((Store.removeChild t p c).run s).result = .ok true ↔ c ∈ G t p) ∧
      (s.Askable p → s.Askable c →
        ((Store.removeChild t p c).run s).result = .ok (decide (c ∈ G t p)))) ∧
    (∀ c, (((Store.detachChild t c).run s).result = .ok true ↔ ∃ p, c ∈ G t p) ∧
      (s.Askable c → ∃ b, ((Store.detachChild t c).run s).result = .ok b)) ∧
    (∀ sel, ((Store.clearSelection t sel).run s).result =
      .ok ((s.entities.filter (s.passes sel)).map fun p => (G t p).length).sum) ∧
    ∀ p, (G t p).Pairwise fun a b => H.age t a < H.age t b := by
  obtain ⟨hs, hG⟩ := h.shows
  have hF := hG t
  refine ⟨fun p hp => hF.listChildren_eq hs (.inl hp),
    fun c hc => hF.exists_parentOf? hs (.inl hc), fun p c => ?_, fun p c => ⟨?_, ?_⟩,
    fun c => ⟨?_, ?_⟩, fun sel => ?_, h.pairwise_age t⟩
  · obtain ⟨_, _, _, _, hcases⟩ := hs.run_prependChild (p := p) (c := c) hF
    rcases hcases with ⟨hallows, hr, -⟩ | ⟨hnot, ⟨f, hr⟩, -⟩
    · simp [hr, hallows]
    · simp [hr, hnot]
  · rw [(hs.run_removeChild hF).1]
    exact Forest.hasEdge_eq_ok_true_iff hs.valid_null hF.live
  · intro hp hc
    rw [(hs.run_removeChild hF).1]
    exact Forest.hasEdge_of_askable hs.valid_null hF.live hp hc
  · obtain ⟨-, hask, hstale⟩ := hs.run_detachChild (c := c) hF
    by_cases hc : s.Askable c
    · obtain ⟨b, hb, hiff⟩ := hask hc
      rw [hb, ← hiff]
      simp
    · rw [hstale hc]
      simp only [reduceCtorEq, false_iff, not_exists]
      exact fun p hp => hc (.inl (hF.valid hp).1)
  · intro hc
    obtain ⟨b, hb, -⟩ := (hs.run_detachChild hF).2.1 hc
    exact ⟨b, hb⟩
  · obtain ⟨-, -, hr, -⟩ := hs.run_clearSelection hF sel
    exact hr

/-- A child that leaves and comes back is the newest. -/
theorem History.Leads.refines_relinked :
    ∃ (H : History Schema.sample) (s : Store Schema.sample) (G : Forests Schema.sample),
      H.Leads s G ∧ G () ⟨0, 0⟩ = [⟨1, 0⟩, ⟨2, 0⟩] ∧
      s.listChildren () ⟨0, 0⟩ = .ok (G () ⟨0, 0⟩) := by
  have hrun : History.Leads (S := Schema.sample) _ _ _ :=
    ((((((History.Leads.new.step (.call .create) trivial).step (.call .create) trivial).step
      (.call .create) trivial).step (.prependChild () ⟨0, 0⟩ ⟨1, 0⟩) trivial).step
      (.prependChild () ⟨0, 0⟩ ⟨2, 0⟩) trivial).step (.detachChild () ⟨1, 0⟩) trivial).step
      (.prependChild () ⟨0, 0⟩ ⟨1, 0⟩) trivial
  exact ⟨_, _, _, hrun, rfl, (hrun.refines ()).1 ⟨0, 0⟩ rfl⟩

end EntityStore
