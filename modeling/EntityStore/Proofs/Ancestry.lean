import EntityStore.Proofs.Histories

/-!
# Ancestors

Links that were written by hand may lead round a cycle, from an entity to itself, to the null handle
or to a dead one.  The question whether an entity lies above another has the right answer all the
same (`exists_isAncestorOf`): the chain of parents stops at a node that it passed before, and then
whatever could be reached was met.

A disciplined history leaves a forest, where steps up are the edges to a parent and never come back.
So "lies above" is a strict partial order there (`Store.Ordered`).
-/

namespace EntityStore

open Relation

variable {S : Schema}

namespace Store

variable {s : Store S} {t : S.Tag} {F : Forest} {a e p : Entity}

/-- The store answers that an entity lies above another. -/
def LiesAbove (s : Store S) (t : S.Tag) (a e : Entity) : Prop := s.isAncestorOf t a e = .ok true

/-- "Lies above" is the transitive closure of the edges to a parent, and a strict partial order. -/
structure Ordered (s : Store S) (t : S.Tag) : Prop where
  closure : ∀ a e, s.LiesAbove t a e ↔ TransGen (fun c p => s.parentOf? t c = .ok (some p)) e a
  irrefl : ∀ e, ¬ s.LiesAbove t e e
  trans : ∀ a b e, s.LiesAbove t a b → s.LiesAbove t b e → s.LiesAbove t a e
  asymm : ∀ a e, s.LiesAbove t a e → ¬ s.LiesAbove t e a

/-- The steps up are the edges to a parent. -/
theorem edges_eq_stepsUp : (fun c p => s.parentOf? t c = .ok (some p)) = s.StepsUp t := by
  funext c p
  by_cases hc : s.Askable c
  · obtain ⟨o, ho, hup⟩ := exists_parentOf?_stepsUp (t := t) hc
    rw [ho, Except.ok.injEq, hup]
  · rw [parentOf?_of_not_askable hc]
    exact propext (iff_of_false nofun fun hup => hc (.inl hup.1))

theorem liesAbove_iff : s.LiesAbove t a e ↔ TransGen (s.StepsUp t) e a := by
  by_cases he : s.Askable e
  · obtain ⟨b, hb, hiff⟩ := exists_isAncestorOf (t := t) (a := a) he
    rw [LiesAbove, hb, Except.ok.injEq, hiff]
  · have hfails : s.isAncestorOf t a e = .error (.refused (.stale e)) := by
      rw [isAncestorOf, parentOf?_of_not_askable he]
      rfl
    rw [LiesAbove, hfails]
    constructor
    · intro hok
      cases hok
    · intro hreach
      obtain ⟨q, hq, -⟩ := TransGen.head'_iff.1 hreach
      exact absurd (.inl hq.1) he

/-- Where the links of a tag show a forest, "lies above" is an order. -/
theorem Shows.ordered (hF : s.Shows t F) (h : s.Sound) : s.Ordered t := by
  have hirrefl : ∀ e, ¬ s.LiesAbove t e e := by
    intro e hself
    rw [liesAbove_iff, h.stepsUp_eq, hF.steps_eq] at hself
    exact Links.Shows.acyclic hF e hself
  have htrans : ∀ a b e, s.LiesAbove t a b → s.LiesAbove t b e → s.LiesAbove t a e :=
    fun a b e hab hbe => liesAbove_iff.2 ((liesAbove_iff.1 hbe).trans (liesAbove_iff.1 hab))
  refine ⟨fun a e => ?_, hirrefl, htrans, fun a e hae hea => hirrefl a (htrans a e a hae hea)⟩
  rw [liesAbove_iff, edges_eq_stepsUp]

/-- On any store whatsoever, the question whether an entity lies above a live or null one does not
fail, and it holds exactly if the entity is reached by one or more steps up from live entities.
Wherever a disciplined history leads, "lies above" is the transitive closure of the edges to a
parent and a strict partial order. -/
theorem isAncestorOf_exact (S : Schema) :
    (∀ (s : Store S) (t : S.Tag) (a e : Entity), s.Askable e →
      ∃ b, s.isAncestorOf t a e = .ok b ∧ (b = true ↔ TransGen (s.StepsUp t) e a)) ∧
    ∀ (H : History S) (s : Store S) (G : Forests S), H.Leads s G → ∀ t, s.Ordered t :=
  ⟨fun _ _ _ _ he => exists_isAncestorOf he,
    fun _ _ _ h t => (h.shows.2 t).ordered h.shows.1⟩

/-- Six entities with links written by hand.  A chain of them runs into a cycle that it did not
start from.  Others lead from an entity to itself, to a dead handle and to the null handle. -/
def tangle : Store Schema.sample :=
  let parents : List Entity := [⟨1, 0⟩, ⟨2, 0⟩, ⟨1, 0⟩, ⟨3, 0⟩, ⟨7, 7⟩, .null]
  let fill := parents.forM fun parent => do
    let child ← create
    discard (attach child (.parentLink ()) (⟨parent⟩ : ParentLink))
  (fill.run {}).state

/-- Links are tangled on one store, and three generations are linked by a disciplined history that
leads to another. -/
theorem isAncestorOf_exact_tangled :
    (tangle.Askable ⟨0, 0⟩ ∧ TransGen (tangle.StepsUp ()) ⟨0, 0⟩ ⟨2, 0⟩ ∧
      tangle.isAncestorOf () ⟨2, 0⟩ ⟨0, 0⟩ = .ok true ∧
      tangle.isAncestorOf () ⟨2, 0⟩ ⟨2, 0⟩ = .ok true ∧
      tangle.isAncestorOf () ⟨0, 0⟩ ⟨0, 0⟩ = .ok false ∧
      tangle.isAncestorOf () ⟨3, 0⟩ ⟨3, 0⟩ = .ok true ∧
      tangle.isAncestorOf () ⟨7, 7⟩ ⟨4, 0⟩ = .ok true ∧
      tangle.isAncestorOf () .null ⟨5, 0⟩ = .ok true) ∧
    ∃ (H : History Schema.sample) (s : Store Schema.sample) (G : Forests Schema.sample),
      H.Leads s G ∧ s.LiesAbove () ⟨0, 0⟩ ⟨2, 0⟩ ∧ s.Ordered () := by
  obtain ⟨hany, hordered⟩ := isAncestorOf_exact Schema.sample
  constructor
  · have hask : tangle.Askable ⟨0, 0⟩ := .inl (by decide +kernel)
    have habove : tangle.isAncestorOf () ⟨2, 0⟩ ⟨0, 0⟩ = .ok true := by decide +kernel
    obtain ⟨b, hb, hiff⟩ := hany tangle () ⟨2, 0⟩ ⟨0, 0⟩ hask
    exact ⟨hask, hiff.1 (Except.ok.inj (hb.symm.trans habove)), habove, by decide +kernel,
      by decide +kernel, by decide +kernel, by decide +kernel, by decide +kernel⟩
  · have hrun : History.Leads (S := Schema.sample) _ _ _ :=
      ((((History.Leads.new.step (.call .create) trivial).step (.call .create) trivial).step
        (.call .create) trivial).step (.prependChild () ⟨0, 0⟩ ⟨1, 0⟩) trivial).step
        (.prependChild () ⟨1, 0⟩ ⟨2, 0⟩) trivial
    exact ⟨_, _, _, hrun, rfl, hordered _ _ _ hrun ()⟩

end Store

end EntityStore
