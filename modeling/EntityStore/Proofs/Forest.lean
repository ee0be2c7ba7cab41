import EntityStore.Entity
import EntityStore.Proofs.Trails
import Mathlib.Data.List.Basic

/-!
# Forests

A forest, as a plain mathematical thing: every parent has a list of children.  `Forest.set` changes
the list of one parent, and the edits of a hierarchy are changes of this kind.

An entity lies *above* another when it is reached by one or more steps to a parent.  A forest is
acyclic when no entity lies above itself.  Taking edges away keeps a forest acyclic, and so does a
new edge whose parent does not lie below its child (`Acyclic.set_cons`).
-/

namespace EntityStore

/-- The list of children of each parent. -/
abbrev Forest := Entity → List Entity

namespace Forest

variable {F : Forest} {a c e p q x y : Entity} {cs : List Entity}

/-- No children anywhere. -/
def empty : Forest := fun _ => []

/-- The forest with another list of children for one parent. -/
def set (F : Forest) (p : Entity) (cs : List Entity) : Forest := Function.update F p cs

@[simp] theorem set_self : F.set p cs p = cs := Function.update_self ..

theorem set_of_ne (h : q ≠ p) : F.set p cs q = F q := Function.update_of_ne h ..

/-- What holds of the new list and of the other lists holds of every list. -/
theorem forall_set {P : Entity → List Entity → Prop} (hp : P p cs) (hq : ∀ q, q ≠ p → P q (F q)) :
    ∀ q, P q (F.set p cs q) :=
  (Function.forall_update_iff F P).2 ⟨hp, hq⟩

/-- What is read off the lists changes for the one parent only. -/
theorem update_eq_set {α : Type} {f : List Entity → α} {g : Entity → α} (h : ∀ q, g q = f (F q)) :
    Function.update g p (f cs) q = f (F.set p cs q) := by
  rw [set, Function.apply_update (fun _ => f), ← funext h]

/-- The forest with a new first child for a parent. -/
def prepend (F : Forest) (p c : Entity) : Forest := F.set p (c :: F p)

/-- The forest without a child of a parent. -/
def remove (F : Forest) (p c : Entity) : Forest := F.set p ((F p).erase c)

/-- The forest without an entity in any list. -/
def detach (F : Forest) (c : Entity) : Forest := fun p => (F p).erase c

/-- The forest without the children of some parents. -/
def clear (F : Forest) (selected : Entity → Bool) : Forest := fun p =>
  if selected p then [] else F p

theorem set_eq_self (h : F p = cs) : F.set p cs = F := by
  rw [set, ← h, Function.update_eq_self]

theorem remove_of_not_mem (h : c ∉ F p) : F.remove p c = F :=
  set_eq_self (List.erase_of_not_mem h).symm

theorem detach_of_not_mem (h : ∀ p, c ∉ F p) : F.detach c = F :=
  funext fun p => List.erase_of_not_mem (h p)

/-- A first child that leaves again leaves the forest that there was. -/
theorem remove_prepend : (F.prepend p c).remove p c = F := by
  rw [remove, prepend, set_self, List.erase_cons_head, set, set, Function.update_idem,
    Function.update_eq_self]

/-- Only the list that has an entity changes when the entity is detached. -/
theorem detach_eq_remove (h : ∀ q, c ∈ F q → q = p) : F.detach c = F.remove p c := by
  funext q
  by_cases hq : q = p
  · rw [hq, detach, remove, set_self]
  · rw [remove, set_of_ne hq]
    exact List.erase_of_not_mem (mt (h q) hq)

/-! ## Being above -/

/-- A step from a child to its parent. -/
def Edge (F : Forest) (c p : Entity) : Prop := c ∈ F p

/-- Whether an entity lies above another. -/
def Above (F : Forest) (a e : Entity) : Prop := Relation.TransGen F.Edge e a

/-- No entity lies above itself. -/
def Acyclic (F : Forest) : Prop := ∀ e, ¬ F.Above e e

theorem acyclic_empty : empty.Acyclic := by
  intro e h
  cases h with
  | single h => exact List.not_mem_nil h
  | tail _ h => exact List.not_mem_nil h

theorem Acyclic.mono {G : Forest} (h : F.Acyclic) (hG : ∀ p, ∀ c ∈ G p, c ∈ F p) : G.Acyclic :=
  fun e he => h e (Relation.TransGen.mono (fun c p hc => hG p c hc) e e he)

/-- A path in a forest with one more edge either was there before or takes the new edge. -/
theorem above_set_cons (h : (F.set p (c :: F p)).Above a e) :
    F.Above a e ∨
      (Relation.ReflTransGen F.Edge e c ∧ Relation.ReflTransGen F.Edge p a) := by
  have hedge : ∀ x y, (F.set p (c :: F p)).Edge x y → F.Edge x y ∨ (x = c ∧ y = p) := by
    intro x y hxy
    by_cases hy : y = p
    · subst hy
      rw [Edge, set_self] at hxy
      exact (List.mem_cons.1 hxy).elim (fun hx => .inr ⟨hx, rfl⟩) .inl
    · rw [Edge, set_of_ne hy] at hxy
      exact .inl hxy
  exact transGen_insert hedge h

/-- A new edge makes no cycle if its parent is not its child and does not lie below it. -/
theorem Acyclic.set_cons (h : F.Acyclic) (hne : p ≠ c) (hnot : ¬ F.Above c p) :
    (F.set p (c :: F p)).Acyclic := by
  intro e he
  rcases above_set_cons he with he | ⟨hc, hp⟩
  · exact h e he
  · rcases Relation.reflTransGen_iff_eq_or_transGen.1 (hp.trans hc) with heq | habove
    · exact hne heq.symm
    · exact hnot habove

end Forest

end EntityStore
