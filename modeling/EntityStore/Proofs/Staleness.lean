import EntityStore.Proofs.Runs
import EntityStore.Proofs.Unlinking

/-!
# Calls with dead entities

An entity that is neither live nor null, here *dead*, should make every call on a hierarchy fail.  A
call notices it where it asks for one of its links, and some calls do not ask for the links of all
their entities, or not always.

The entities that a call *heeds* (`EdgeCall.heeded`) it looks at on every store, and it fails if one
of them is dead.  A dead entity that it does not heed is overlooked (`EdgeCall.Overlooks`).  A child
goes on naming its dead parent, and so the question whether it is a child of that parent, or lies
below it, is answered as if the parent were live.  A dead candidate is never found in a list, and a
dead child is noticed by a removal only if the parent has children.
-/

namespace EntityStore

open EntityStore.Action Relation

variable {S : Schema} {s : Store S} {t : S.Tag} {p c x : Entity}

/-! ## Calls on a hierarchy -/

/-- A use of a function that asks for the edges of a hierarchy or changes them. -/
inductive EdgeCall (S : Schema) where
  /-- Ask whether an entity is a child. -/
  | isChild (e : Entity)
  /-- Ask whether an entity has children. -/
  | isParent (e : Entity)
  /-- Ask for the parent of an entity. -/
  | parentOf? (e : Entity)
  /-- Ask for the first child of an entity. -/
  | firstChildOf? (e : Entity)
  /-- Ask for the number of children of an entity. -/
  | childCount (e : Entity)
  /-- Ask whether a child names an entity as its parent. -/
  | isChildOf (parent child : Entity)
  /-- Ask whether a parent lists an entity. -/
  | hasChild (parent candidate : Entity)
  /-- Ask for the children of a parent. -/
  | children (parent : Entity)
  /-- Link a child. -/
  | prependChild (parent child : Entity)
  /-- Unlink a child from a parent. -/
  | removeChild (parent child : Entity)
  /-- Unlink a child. -/
  | detachChild (child : Entity)
  /-- Visit the children of a parent. -/
  | visitChildren (limit : Nat) (parent : Entity)
      (visitor : Entity → Entity → Action (Store S) Fault Unit)
  /-- Ask whether an entity lies above another one. -/
  | isAncestorOf (ancestor e : Entity)

namespace EdgeCall

/-- What a call answers when it does not fail. -/
def Answer : EdgeCall S → Type
  | isChild _ | isParent _ | isChildOf _ _ | hasChild _ _ | isAncestorOf _ _ => Bool
  | removeChild _ _ | detachChild _ => Bool
  | parentOf? _ | firstChildOf? _ => Option Entity
  | childCount _ => UInt64
  | children _ => Children
  | prependChild _ _ | visitChildren _ _ _ => Unit

/-- What a call does.  A visit that ends early is a failure. -/
def run (t : S.Tag) : (k : EdgeCall S) → Action (Store S) Fault k.Answer
  | isChild e => query (·.isChild t e)
  | isParent e => query (·.isParent t e)
  | parentOf? e => query (·.parentOf? t e)
  | firstChildOf? e => query (·.firstChildOf? t e)
  | childCount e => query (·.childCount t e)
  | isChildOf parent child => query (·.isChildOf t parent child)
  | hasChild parent candidate => query (·.hasChild t parent candidate)
  | children parent => query (·.children t parent)
  | prependChild parent child => Store.prependChild t parent child
  | removeChild parent child => Store.removeChild t parent child
  | detachChild child => Store.detachChild t child
  | visitChildren limit parent visitor => do
    let visits ← Store.visitChildren limit t parent visitor
    visits.failure.elim (pure ()) fail
  | isAncestorOf ancestor e => query (·.isAncestorOf t ancestor e)

/-- The entities that a call is given. -/
def entities : EdgeCall S → List Entity
  | isChild e | isParent e | parentOf? e | firstChildOf? e | childCount e => [e]
  | children parent | visitChildren _ parent _ => [parent]
  | detachChild child => [child]
  | isChildOf parent child | prependChild parent child | removeChild parent child =>
    [parent, child]
  | hasChild parent candidate => [parent, candidate]
  | isAncestorOf ancestor e => [ancestor, e]

/-- The entities that a call looks at whatever the edges are.  Most calls look at all that they are
given. -/
def heeded : EdgeCall S → List Entity
  | isChildOf _ child => [child]
  | isAncestorOf _ e => [e]
  | hasChild parent candidate => if candidate = .null then [] else [parent]
  | removeChild parent child => if parent = .null ∨ child = .null then [] else [parent]
  | k => k.entities

/-- Whether the edges have a say in whether a call with a dead entity fails. -/
def edgeBound : EdgeCall S → Bool
  | hasChild _ _ | removeChild _ _ => true
  | _ => false

/-- What comes of a call with a dead entity that it does not heed. -/
def Overlooks (s : Store S) (t : S.Tag) : (k : EdgeCall S) → Except Fault k.Answer → Prop
  | isChildOf parent child, r =>
    r = .ok (decide (s.lookup? child (.parentLink t) = some (⟨parent⟩ : ParentLink)))
  | isAncestorOf ancestor e, r =>
    ∃ above, r = .ok above ∧ (above = true ↔ TransGen (s.StepsUp t) e ancestor)
  | hasChild parent candidate, r =>
    if candidate = .null then r = .ok false
    else r = (s.listChildren t parent).map fun _ => false
  | removeChild parent child, r =>
    if parent = .null ∨ child = .null then r = .ok false
    else r = do if ← s.isParent t parent then throw (.refused (.stale child)) else pure false
  | _, _ => False

end EdgeCall

/-- The failures that say of an entity that it is not live. -/
inductive Fault.Blames : Fault → Entity → Prop where
  /-- It does not exist. -/
  | stale (e : Entity) : Blames (.refused (.stale e)) e
  /-- It is not live, and should be a parent. -/
  | deadParent (p : Entity) : Blames (.deadParent p) p
  /-- It is not live, and should be a child. -/
  | deadChild (c : Entity) : Blames (.deadChild c) c

namespace Store

/-! ## Questions -/

/-- A walk comes to live entities only, since it asks each one for its neighbours. -/
theorem valid_of_nextChild {w w' : Children} (h : s.nextChild t w = .ok (some c, w')) :
    s.valid c = true := by
  rw [nextChild] at h
  split at h
  · cases h
  · cases hget : s.get w.next (.siblingLinks t) with
    | error f =>
      rw [hget] at h
      cases h
    | ok links =>
      rw [hget] at h
      obtain rfl : w.next = c := Option.some.inj (congrArg Prod.fst (Except.ok.inj h))
      exact (get_eq_ok_iff.1 hget).1

/-- So a walk that looks for a dead entity ends as one that lists the children, and has not found
it. -/
theorem comesFrom_of_not_valid (hx : s.valid x = false) (n : Nat) (w : Children) :
    s.comesFrom t p x n w = (s.listFrom t p n w).map fun _ => false := by
  induction n generalizing w with
  | zero => rfl
  | succ n ih =>
    rw [comesFrom, listFrom]
    cases hnext : s.nextChild t w with
    | error f => rfl
    | ok found =>
      obtain ⟨o, w'⟩ := found
      cases o with
      | none => rfl
      | some c =>
        have hne : c ≠ x := by
          rintro rfl
          rw [valid_of_nextChild hnext] at hx
          cases hx
        change (if c = x then _ else s.comesFrom t p x n w') =
          (s.listFrom t p n w' >>= fun rest => pure (c :: rest)).map _
        rw [if_neg hne, ih w']
        cases s.listFrom t p n w' <;> rfl

theorem hasChild_of_not_askable (hc : ¬ s.Askable c) :
    s.hasChild t p c = (s.listChildren t p).map fun _ => false := by
  have hdead : s.valid c = false := Bool.eq_false_iff.2 (not_or.1 hc).1
  rw [hasChild, (assertValid_of_not_askable hc).2, listChildren]
  cases hplace : s.children t p with
  | error f => rfl
  | ok w => exact comesFrom_of_not_valid hdead _ w

theorem hasChild_of_parent_not_askable (hp : ¬ s.Askable p) (hc : c ≠ .null) :
    s.hasChild t p c = .error (.refused (.stale p)) := by
  rw [hasChild, if_neg (mt Entity.isNull_iff.1 hc), children_of_not_askable hp]
  rfl

/-! ## Edits -/

/-- A failure says of one of some entities that it is not live, and that is so. -/
def Blamed (s : Store S) (es : List Entity) (f : Fault) : Prop :=
  ∃ e ∈ es, f.Blames e ∧ s.valid e = false

theorem blamed_stale (hx : ¬ s.Askable x) : s.Blamed [x] (.refused (.stale x)) :=
  ⟨x, List.mem_singleton_self x, .stale x, Bool.eq_false_iff.2 (not_or.1 hx).1⟩

/-- To link under a dead entity, or to link one, fails before anything is written. -/
theorem ends_prependChild_of_dead (h : s.valid p = false ∨ s.valid c = false) :
    (prependChild t p c).Ends s fun r s' => s' = s ∧ ∃ f, r = .error f ∧ s.Blamed [p, c] f := by
  refine ends_state_bind ?_
  refine ends_require_bind (fun hp => ⟨rfl, _, rfl, p, by simp, .deadParent p, hp⟩) fun hp => ?_
  refine ends_require_bind (fun hc => ⟨rfl, _, rfl, c, by simp, .deadChild c, hc⟩) fun hc => ?_
  simp [hp, hc] at h

end Store

/-! ## What calls do with dead entities -/

namespace EdgeCall

variable {k : EdgeCall S}

/-- A call that heeds one entity fails if that one is dead. -/
theorem run_of_heeded_singleton (hx : k.heeded = [x]) (hdead : ¬ s.Askable x) :
    ((k.run t).run s).result = .error (.refused (.stale x)) ∧ ((k.run t).run s).state = s := by
  cases k with
  | isChild e => cases hx; exact ⟨Store.isChild_of_not_askable hdead, rfl⟩
  | isParent e => cases hx; exact ⟨Store.isParent_of_not_askable hdead, rfl⟩
  | parentOf? e => cases hx; exact ⟨Store.parentOf?_of_not_askable hdead, rfl⟩
  | firstChildOf? e => cases hx; exact ⟨Store.firstChildOf?_of_not_askable hdead, rfl⟩
  | childCount e => cases hx; exact ⟨Store.childCount_of_not_askable hdead, rfl⟩
  | isChildOf parent child => cases hx; exact ⟨Store.isChildOf_of_not_askable hdead, rfl⟩
  | isAncestorOf ancestor e => cases hx; exact ⟨Store.isAncestorOf_of_not_askable hdead, rfl⟩
  | children parent => cases hx; exact ⟨Store.children_of_not_askable hdead, rfl⟩
  | detachChild child => cases hx; exact Store.run_detachChild_of_not_askable hdead
  | prependChild parent child => cases hx
  | visitChildren limit parent visitor =>
    cases hx
    have hfirst := Store.firstChildOf?_of_not_askable (t := t) hdead
    simp [run, Store.visitChildren, run_bind, hfirst]
  | hasChild parent candidate =>
    simp only [heeded] at hx
    split at hx
    · cases hx
    · next hc =>
      cases hx
      exact ⟨Store.hasChild_of_parent_not_askable hdead hc, rfl⟩
  | removeChild parent child =>
    simp only [heeded] at hx
    split at hx
    · cases hx
    · next hn =>
      cases hx
      exact Store.run_removeChild_of_hasEdge
        (Store.hasEdge_of_not_askable hdead (not_or.1 hn).2) nofun

/-- The call that links a child heeds two entities, and no other call heeds more than one. -/
theorem heeded_eq_singleton (hx : x ∈ k.heeded) :
    k.heeded = [x] ∨ ∃ parent child, k = .prependChild parent child := by
  cases k with
  | prependChild parent child => exact .inr ⟨parent, child, rfl⟩
  | hasChild parent candidate =>
    simp only [heeded] at hx ⊢
    split at hx <;> simp_all
  | removeChild parent child =>
    simp only [heeded] at hx ⊢
    split at hx <;> simp_all
  | _ => exact .inl (congrArg (fun y => [y]) (List.mem_singleton.1 hx).symm)

/-- A call that heeds a dead entity fails for that reason, and changes nothing. -/
theorem ends_of_heeded (hx : x ∈ k.heeded) (hdead : ¬ s.Askable x) :
    (k.run t).Ends s fun r s' => s' = s ∧ ∃ f, r = .error f ∧ s.Blamed k.heeded f := by
  rcases heeded_eq_singleton hx with hone | ⟨parent, child, rfl⟩
  · obtain ⟨hresult, hstate⟩ := run_of_heeded_singleton (t := t) hone hdead
    exact ⟨hstate, _, hresult, hone ▸ Store.blamed_stale hdead⟩
  · have hdead' : s.valid x = false := Bool.eq_false_iff.2 (not_or.1 hdead).1
    refine Store.ends_prependChild_of_dead ?_
    rcases List.mem_pair.1 hx with rfl | rfl
    · exact .inl hdead'
    · exact .inr hdead'

theorem eq_child_of_not_askable (hx : x ∈ [p, c]) (hdead : ¬ s.Askable x)
    (hp : ∀ y ∈ [p], s.Askable y) : x = c := by
  rcases List.mem_pair.1 hx with rfl | rfl
  · exact absurd (hp x (List.mem_singleton_self x)) hdead
  · rfl

/-- What comes of a call that heeds no dead entity, though it is given one.  It changes nothing. -/
theorem ends_of_overlooked (hs : s.Sound) (hx : x ∈ k.entities) (hdead : ¬ s.Askable x)
    (hheed : ∀ y ∈ k.heeded, s.Askable y) :
    (k.run t).Ends s fun r s' => s' = s ∧ k.Overlooks s t r := by
  cases k with
  | isChildOf parent child =>
    exact ⟨rfl, hs.isChildOf_eq (hheed child (List.mem_singleton_self child))⟩
  | isAncestorOf ancestor e =>
    exact ⟨rfl, Store.exists_isAncestorOf (hheed e (List.mem_singleton_self e))⟩
  | hasChild parent candidate =>
    refine ⟨rfl, ?_⟩
    change if candidate = .null then s.hasChild t parent candidate = .ok false
      else s.hasChild t parent candidate = (s.listChildren t parent).map fun _ => false
    simp only [heeded] at hheed
    split_ifs at hheed ⊢ with hc
    · rw [hc]
      rfl
    · obtain rfl : x = candidate := eq_child_of_not_askable hx hdead hheed
      exact Store.hasChild_of_not_askable hdead
  | removeChild parent child =>
    simp only [heeded] at hheed
    simp only [Overlooks]
    split_ifs at hheed ⊢ with hn
    · exact (Store.run_removeChild_of_hasEdge (Store.hasEdge_null hn) nofun).symm
    · obtain rfl : x = child := eq_child_of_not_askable hx hdead hheed
      refine (Store.run_removeChild_of_hasEdge
        (Store.hasEdge_of_child_not_askable (not_or.1 hn).1 hdead) ?_).symm
      cases s.isParent t parent with
      | error f => exact nofun
      | ok b => cases b <;> exact nofun
  | _ => exact absurd (hheed x hx) hdead

theorem Overlooks.exists_ok {r : Except Fault k.Answer} (h : k.Overlooks s t r)
    (hk : k.edgeBound = false) : ∃ a, r = .ok a := by
  cases k with
  | isChildOf parent child => exact ⟨_, h⟩
  | isAncestorOf ancestor e =>
    obtain ⟨above, hr, -⟩ := h
    exact ⟨above, hr⟩
  | hasChild parent candidate => cases hk
  | removeChild parent child => cases hk
  | _ => exact h.elim

/-- What a call does on a store if one of its entities is neither live nor null. -/
structure Handles (k : EdgeCall S) (s : Store S) (t : S.Tag) : Prop where
  /-- It changes nothing. -/
  unchanged : ((k.run t).run s).state = s
  /-- It fails if it heeds such an entity, and says so. -/
  refused : (∃ x ∈ k.heeded, ¬ s.Askable x) →
    ∃ f, ((k.run t).run s).result = .error f ∧ s.Blamed k.heeded f
  /-- What comes of it otherwise. -/
  overlooked : (∀ x ∈ k.heeded, s.Askable x) → k.Overlooks s t ((k.run t).run s).result
  /-- Whether it fails does not depend on the edges, apart from two calls. -/
  fails_iff : k.edgeBound = false →
    ((∃ f, ((k.run t).run s).result = .error f) ↔ ∃ x ∈ k.heeded, ¬ s.Askable x)

theorem handles_of_sound (hs : s.Sound) (hx : ∃ x ∈ k.entities, ¬ s.Askable x) :
    k.Handles s t := by
  have hrefused : (∃ x ∈ k.heeded, ¬ s.Askable x) →
      (k.run t).Ends s fun r s' => s' = s ∧ ∃ f, r = .error f ∧ s.Blamed k.heeded f := by
    rintro ⟨y, hy, hdead⟩
    exact ends_of_heeded hy hdead
  have hoverlooked : (∀ x ∈ k.heeded, s.Askable x) →
      (k.run t).Ends s fun r s' => s' = s ∧ k.Overlooks s t r := by
    obtain ⟨x, hx, hdead⟩ := hx
    exact ends_of_overlooked hs hx hdead
  have hcases : (∃ x ∈ k.heeded, ¬ s.Askable x) ∨ ∀ x ∈ k.heeded, s.Askable x := by
    by_cases h : ∃ x ∈ k.heeded, ¬ s.Askable x
    · exact .inl h
    · exact .inr (by simpa using h)
  refine ⟨?_, fun h => (hrefused h).2, fun h => (hoverlooked h).2, fun hk => ⟨?_, ?_⟩⟩
  · exact hcases.elim (fun h => (hrefused h).1) fun h => (hoverlooked h).1
  · rintro ⟨f, hf⟩
    refine hcases.resolve_right fun h => ?_
    obtain ⟨a, ha⟩ := (hoverlooked h).2.exists_ok hk
    exact nomatch hf.symm.trans ha
  · intro h
    obtain ⟨f, hf, -⟩ := (hrefused h).2
    exact ⟨f, hf⟩

end EdgeCall

/-- After every run, this is what comes of a call that is given an entity that is neither live nor
null. -/
theorem Run.handles_stale {rs : List Report} (h : Run {} rs s) (t : S.Tag) (k : EdgeCall S)
    (hx : ∃ x ∈ k.entities, ¬ s.Askable x) : k.Handles s t :=
  EdgeCall.handles_of_sound (h.sound Store.sound_empty).1 hx

/-- To unlink a dead entity from a parent with another child. -/
theorem Run.handles_stale_removal :
    ∃ (rs : List Report) (s : Store Schema.sample), Run {} rs s ∧ ¬ s.Askable ⟨0, 0⟩ ∧
      (EdgeCall.removeChild ⟨2, 0⟩ ⟨0, 0⟩).Handles s () := by
  have hnew : Run (S := Schema.sample) {} _ _ :=
    ((((Run.refl {}).op (.call .create)).op (.call .create)).op (.call .create)).op
      (.call .create)
  have hrun : Run (S := Schema.sample) {} _ _ :=
    ((hnew.op (.prependChild () ⟨0, 0⟩ ⟨1, 0⟩)).op (.prependChild () ⟨2, 0⟩ ⟨3, 0⟩)).op
      (.call (.destroy ⟨0, 0⟩))
  refine ⟨_, _, hrun, ?dead,
    hrun.handles_stale () (.removeChild ⟨2, 0⟩ ⟨0, 0⟩) ⟨⟨0, 0⟩, .tail _ (.head _), ?dead⟩⟩
  exact not_or.2 ⟨Bool.eq_false_iff.1 rfl, by decide⟩

/-- Not every call with a dead entity fails.  The child of a dead parent is still said to be its
child, and to lie below it.  A dead candidate is not found, and a dead child cannot be unlinked
from a parent without children, nor from null.  The same removal fails for a parent that has
children, so the edges have a say in it. -/
theorem Run.not_refused_stale :
    ∃ (rs : List Report) (s : Store Schema.sample), Run {} rs s ∧ ¬ s.Askable ⟨0, 0⟩ ∧
      s.isChildOf () ⟨0, 0⟩ ⟨1, 0⟩ = .ok true ∧
      s.isAncestorOf () ⟨0, 0⟩ ⟨1, 0⟩ = .ok true ∧
      s.hasChild () ⟨2, 0⟩ ⟨0, 0⟩ = .ok false ∧
      ((Store.removeChild () .null ⟨0, 0⟩).run s).result = .ok false ∧
      ((Store.removeChild () ⟨3, 0⟩ ⟨0, 0⟩).run s).result = .ok false ∧
      ((Store.removeChild () ⟨2, 0⟩ ⟨0, 0⟩).run s).result =
        .error (.refused (.stale ⟨0, 0⟩)) := by
  have hnew : Run (S := Schema.sample) {} _ _ :=
    ((((Run.refl {}).op (.call .create)).op (.call .create)).op (.call .create)).op
      (.call .create)
  have hrun : Run (S := Schema.sample) {} _ _ :=
    ((hnew.op (.prependChild () ⟨0, 0⟩ ⟨1, 0⟩)).op (.prependChild () ⟨2, 0⟩ ⟨3, 0⟩)).op
      (.call (.destroy ⟨0, 0⟩))
  refine ⟨_, _, hrun, not_or.2 ⟨Bool.eq_false_iff.1 rfl, by decide⟩, ?_⟩
  exact ⟨rfl, rfl, rfl, rfl, rfl, rfl⟩

end EntityStore
