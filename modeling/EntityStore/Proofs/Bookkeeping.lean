import EntityStore.Proofs.Issuing
import Mathlib.Data.List.Count

/-!
# The books of an allocator

An allocator keeps the same facts in four places: a generation and a mark for each slot, the queue
of slots that wait, and the number of slots that are alive.  Each operation writes to them one by
one.  The two arrays and the queue agree in every allocator that is coherent.  Here the number is
added: an issue marks one slot more and counts it, a release unmarks one and counts it off
(`Counted.allocate`, `Counted.deallocate`).

So the books balance (`Balanced`) after every history, whatever handles it tried to release.  Then a
slot that is taken from the queue exists, and where the count goes down there is something to count.
-/

namespace EntityStore.Allocator

variable {a b : Allocator} {H : List Use} {e : Entity} {i : Nat}

/-! ## The number of live slots -/

/-- The number of slots that are marked as alive. -/
def markedCount (a : Allocator) : Nat := a.alive.count true

/-- The count is the number of slots that are marked as alive. -/
def Counted (a : Allocator) : Prop := a.aliveCount = a.markedCount

theorem count_set_true {marks : Array Bool} (hi : marks[i]? = some false) :
    (marks.setIfInBounds i true).count true = marks.count true + 1 := by
  obtain ⟨hlt, hold⟩ := Array.getElem?_eq_some_iff.1 hi
  rw [Array.setIfInBounds, dif_pos hlt, Array.count_set, hold]
  rfl

theorem count_set_false {marks : Array Bool} (hi : marks[i]? = some true) :
    (marks.setIfInBounds i false).count true = marks.count true - 1 := by
  obtain ⟨hlt, hold⟩ := Array.getElem?_eq_some_iff.1 hi
  rw [Array.setIfInBounds, dif_pos hlt, Array.count_set, hold]
  rfl

theorem markedCount_pos (he : a.isAlive e = true) : 0 < a.markedCount :=
  Array.count_pos_iff.2 (Array.mem_of_getElem? (isAlive_iff.1 he).1)

theorem counted_empty : Counted {} := rfl

/-- An issue marks a slot that was not marked, or a new one. -/
theorem Counted.allocate (h : a.Counted) (hcoh : a.Coherent) : a.allocate.2.Counted := by
  unfold Counted at h
  cases hp : a.free.pop? with
  | some waiting =>
    obtain ⟨i, rest⟩ := waiting
    have hdead : a.alive[i.toNat]? = some false :=
      (hcoh.mem_free_iff i).1 (by simp [Fifo.toList_of_pop? hp])
    simp only [Counted, markedCount, Allocator.allocate, hp, h, count_set_true hdead]
  | none =>
    by_cases hroom : a.generations.size < slotLimit
    · simp [Counted, markedCount, Allocator.allocate, hp, hroom, h]
    · simp only [Allocator.allocate, hp, hroom, if_false]
      exact h

/-- A release unmarks a slot that was marked. -/
theorem Counted.deallocate (h : a.Counted) (e : Entity) : (a.deallocate e).2.Counted := by
  cases he : a.isAlive e with
  | false => rwa [deallocate_of_not_isAlive he]
  | true =>
    unfold Counted at h
    simp only [Counted, markedCount, Allocator.deallocate, he, if_true, h,
      count_set_false (isAlive_iff.1 he).1]

/-- After any history the count is the number of marked slots. -/
theorem Leads.counted (h : Leads {} H a) : a.Counted := by
  induction h with
  | start => exact counted_empty
  | issue before ih => exact ih.allocate before.alive_iff_held.1
  | release before e ih => exact ih.deallocate e

/-! ## The number of live handles -/

theorem map_getElem?_range {α : Type} (l : List α) :
    (List.range l.length).map (l[·]?) = l.map some := by
  refine List.ext_getElem? fun k => ?_
  by_cases hk : k < l.length
  · simp [hk]
  · simp [hk]

/-- A slot has a live handle if it is marked. -/
theorem Coherent.isSome_handleAt? (h : a.Coherent) :
    (a.handleAt? i).isSome = (a.alive.toList[i]? == some true) := by
  rw [Array.getElem?_toList, handleAt?]
  split
  · next hi =>
    obtain ⟨g, hg⟩ := h.getElem?_generations hi
    simp [hi, hg]
  · next hi => simpa using hi

/-- There are as many live handles as marked slots. -/
theorem Coherent.length_entities (h : a.Coherent) : a.entities.length = a.markedCount := by
  have hsize : a.slotCount = a.alive.toList.length := h.alive_size.symm
  calc a.entities.length
    _ = (List.range a.slotCount).countP fun i => (a.handleAt? i).isSome :=
      List.length_filterMap_eq_countP
    _ = (List.range a.slotCount).countP fun i => a.alive.toList[i]? == some true := by
      simp only [h.isSome_handleAt?]
    _ = ((List.range a.alive.toList.length).map (a.alive.toList[·]?)).count (some true) := by
      rw [hsize, List.count_eq_countP, List.countP_map]
      rfl
    _ = a.markedCount := by
      rw [map_getElem?_range, List.count_map_of_injective _ _ fun _ _ => Option.some.inj,
        Array.count_toList, markedCount]

/-! ## The main theorem -/

/-- The two arrays, the queue and the count of an allocator agree, and so does the list of its live
handles. -/
structure Balanced (a : Allocator) : Prop extends a.Coherent where
  /-- The count is the number of slots that are alive. -/
  aliveCount_eq : a.aliveCount = a.alive.count true
  /-- The list of live handles is as long. -/
  aliveCount_eq_length : a.aliveCount = a.entities.length
  /-- The list is in strictly ascending order of the indices. -/
  ascending : a.entities.Pairwise fun x y => x.index < y.index
  /-- It has exactly the handles that are alive. -/
  mem_entities_iff : ∀ e, e ∈ a.entities ↔ a.isAlive e = true
  /-- A slot that is taken from the queue has its place in both arrays. -/
  lt_of_pop? : ∀ i rest, a.free.pop? = some (i, rest) →
    i.toNat < a.alive.size ∧ i.toNat < a.generations.size
  /-- Where a handle can be released, the count is not zero. -/
  aliveCount_pos : ∀ e, a.isAlive e = true → 0 < a.aliveCount

/-- A slot that waits in the queue is a place of both arrays. -/
theorem Coherent.lt_of_pop? (h : a.Coherent) {i : UInt32} {rest : Fifo UInt32}
    (hp : a.free.pop? = some (i, rest)) :
    i.toNat < a.alive.size ∧ i.toNat < a.generations.size := by
  have hmem : i ∈ a.free.toList := by simp [Fifo.toList_of_pop? hp]
  have hlt := (Array.getElem?_eq_some_iff.1 ((h.mem_free_iff i).1 hmem)).1
  exact ⟨hlt, h.alive_size ▸ hlt⟩

/-- The books balance after every history of issues and releases. -/
theorem Leads.balanced (h : Leads {} H a) : a.Balanced where
  toCoherent := h.alive_iff_held.1
  aliveCount_eq := h.counted
  aliveCount_eq_length := h.counted.trans h.alive_iff_held.1.length_entities.symm
  ascending := h.alive_iff_held.1.pairwise_entities
  mem_entities_iff _ := h.alive_iff_held.1.mem_entities_iff
  lt_of_pop? _ _ := h.alive_iff_held.1.lt_of_pop?
  aliveCount_pos _ he := Nat.lt_of_lt_of_eq (markedCount_pos he) h.counted.symm

/-- Of two slots the first one is released, once with success and once without, and a handle that
was never issued is not released either. -/
theorem Leads.balanced_double_release : ∃ (H : List Use) (a : Allocator), Leads {} H a ∧
    a.free.toList = [0] ∧ a.aliveCount = 1 ∧ a.entities = [⟨1, 0⟩] ∧ a.Balanced := by
  have hrun : Leads {} _ _ :=
    ((((Leads.start.issue.issue).release ⟨0, 0⟩).release ⟨0, 0⟩).release ⟨7, 3⟩)
  exact ⟨_, _, hrun, rfl, rfl, rfl, hrun.balanced⟩

end EntityStore.Allocator
