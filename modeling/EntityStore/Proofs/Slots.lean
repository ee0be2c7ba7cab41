import EntityStore.Allocator
import Mathlib.Algebra.GroupWithZero.Nat
import Mathlib.Data.List.Nodup
import Mathlib.Data.List.Perm.Subperm

/-!
# The slots of an allocator

`Allocator.Coherent` relates the two arrays of an allocator to its queue: the queue holds exactly
the slots that exist and are not alive, each once.  Issuing and releasing keep it.

What the two operations do is said of the one view `Allocator.isAlive`.  An issue makes one handle
alive that was not alive before (`allocate_cases`), and a release makes one handle dead
(`deallocate_cases`).  Nothing here depends on the number of releases: a generation may wrap
around, and the handle issued then is still one that is not alive.
-/

namespace EntityStore.Allocator

variable {a : Allocator} {e : Entity}

/-- The queue holds the slots that are not alive, each once. -/
structure Coherent (a : Allocator) : Prop where
  /-- Each slot has a generation and is alive or not. -/
  alive_size : a.alive.size = a.generations.size
  /-- No slot has the index of the null handle. -/
  size_le : a.generations.size ≤ slotLimit
  /-- No slot waits twice. -/
  free_nodup : a.free.toList.Nodup
  /-- The slots that wait are those that are not alive. -/
  mem_free_iff : ∀ i : UInt32, i ∈ a.free.toList ↔ a.alive[i.toNat]? = some false

theorem coherent_empty : ({} : Allocator).Coherent where
  alive_size := rfl
  size_le := by simp [slotLimit]
  free_nodup := List.nodup_nil
  mem_free_iff := by simp [Fifo.toList]

/-- The index of a slot fits into a handle. -/
theorem toNat_index {i : Nat} (hi : i < slotLimit) : i.toUInt32.toNat = i := by
  have hlimit : slotLimit < 2 ^ 32 := by simp [slotLimit]
  rw [Nat.toUInt32_eq, UInt32.toNat_ofNat']
  exact Nat.mod_eq_of_lt (Nat.lt_trans hi hlimit)

theorem isAlive_iff :
    a.isAlive e = true ↔ a.alive[e.index.toNat]? = some true ∧
      a.generations[e.index.toNat]? = some e.generation := by
  simp [isAlive]

theorem Coherent.getElem?_generations (h : a.Coherent) {i : Nat} {b : Bool}
    (hb : a.alive[i]? = some b) : ∃ g, a.generations[i]? = some g := by
  obtain ⟨hi, _⟩ := Array.getElem?_eq_some_iff.1 hb
  rw [h.alive_size] at hi
  exact ⟨_, Array.getElem?_eq_getElem hi⟩

theorem Coherent.lt_slotLimit (h : a.Coherent) {i : Nat} {b : Bool}
    (hb : a.alive[i]? = some b) : i < slotLimit := by
  obtain ⟨hi, _⟩ := Array.getElem?_eq_some_iff.1 hb
  have := h.alive_size
  have := h.size_le
  omega

/-! ## Live handles -/

/-- A live handle is the only one of its index. -/
theorem eq_of_isAlive {f : Entity} (he : a.isAlive e = true) (hf : a.isAlive f = true)
    (hi : e.index = f.index) : e = f := by
  rw [isAlive_iff] at he hf
  have hg : some e.generation = some f.generation := by rw [← he.2, ← hf.2, hi]
  cases e
  cases f
  simp_all

theorem index_lt_slotCount (he : a.isAlive e = true) : e.index.toNat < a.slotCount :=
  (Array.getElem?_eq_some_iff.1 (isAlive_iff.1 he).2).1

theorem Coherent.slotCount_le (h : a.Coherent) : a.slotCount ≤ slotLimit := h.size_le

/-- The null handle is not alive: its index belongs to no slot. -/
theorem Coherent.ne_null (h : a.Coherent) (he : a.isAlive e = true) : e ≠ .null := by
  rintro rfl
  have := h.lt_slotLimit (isAlive_iff.1 he).1
  simp [slotLimit, Entity.null] at this

/-- There are no more live handles than slots. -/
theorem length_le_slotCount {es : List Entity} (hn : es.Nodup)
    (hl : ∀ e ∈ es, a.isAlive e = true) : es.length ≤ a.slotCount := by
  have hinj : (es.map fun e => e.index.toNat).Nodup := by
    refine List.Nodup.map_on ?_ hn
    intro x hx y hy hxy
    exact eq_of_isAlive (hl x hx) (hl y hy) (UInt32.toNat_inj.1 hxy)
  have hsub : (es.map fun e => e.index.toNat) ⊆ List.range a.slotCount := by
    intro i hi
    obtain ⟨e, he, rfl⟩ := List.mem_map.1 hi
    exact List.mem_range.2 (index_lt_slotCount (hl e he))
  simpa using (List.subperm_of_subset hinj hsub).length_le

/-! ## Issuing -/

/-- A slot that has waited is issued at the generation that its release gave it. -/
theorem Coherent.allocate_of_pop? (h : a.Coherent) {i : UInt32} {rest : Fifo UInt32}
    (hp : a.free.pop? = some (i, rest)) :
    ∃ e a', a.allocate = (some e, a') ∧ a'.Coherent ∧ a.isAlive e = false ∧
      ∀ x, a'.isAlive x = true ↔ x = e ∨ a.isAlive x = true := by
  have hl := Fifo.toList_of_pop? hp
  have hn := h.free_nodup
  rw [hl] at hn
  obtain ⟨hi, hrest⟩ := List.nodup_cons.1 hn
  have hdead : a.alive[i.toNat]? = some false := (h.mem_free_iff i).1 (by simp [hl])
  obtain ⟨g, hg⟩ := h.getElem?_generations hdead
  have hlt : i.toNat < a.alive.size := (Array.getElem?_eq_some_iff.1 hdead).1
  have hrun : a.allocate = (some ⟨i, g⟩,
      { a with
        alive := a.alive.setIfInBounds i.toNat true
        free := rest
        aliveCount := a.aliveCount + 1 }) := by
    simp [allocate, hp, hg]
  refine ⟨_, _, hrun, ⟨?_, h.size_le, hrest, ?_⟩, ?_, ?_⟩
  · simp [h.alive_size]
  · intro j
    have hj := h.mem_free_iff j
    rw [hl, List.mem_cons] at hj
    rw [Array.getElem?_setIfInBounds]
    by_cases hij : i = j
    · subst hij
      simp [hi, hlt]
    · rw [if_neg (mt UInt32.toNat_inj.1 hij)]
      simpa [Ne.symm hij] using hj
  · simp [isAlive, hdead]
  · intro x
    rw [isAlive_iff, isAlive_iff, Array.getElem?_setIfInBounds]
    by_cases hx : i = x.index
    · obtain ⟨j, k⟩ := x
      cases hx
      rw [if_pos rfl, if_pos hlt, hg, hdead]
      simp [eq_comm]
    · rw [if_neg (mt UInt32.toNat_inj.1 hx)]
      have : x ≠ ⟨i, g⟩ := by
        rintro rfl
        exact hx rfl
      simp [this]

/-- Where no slot waits and there is room, a new slot is issued at generation zero. -/
theorem Coherent.allocate_of_lt (h : a.Coherent) (hp : a.free.pop? = none)
    (hlt : a.generations.size < slotLimit) :
    ∃ e a', a.allocate = (some e, a') ∧ a'.Coherent ∧ a.isAlive e = false ∧
      ∀ x, a'.isAlive x = true ↔ x = e ∨ a.isAlive x = true := by
  have hempty := Fifo.pop?_eq_none_iff.1 hp
  have hidx := toNat_index hlt
  have hrun : a.allocate = (some ⟨a.generations.size.toUInt32, 0⟩,
      { a with
        generations := a.generations.push 0
        alive := a.alive.push true
        aliveCount := a.aliveCount + 1 }) := by
    simp [allocate, hp, hlt]
  have hnone : a.alive[a.generations.size]? = none := by simp [h.alive_size]
  refine ⟨_, _, hrun, ⟨?_, ?_, h.free_nodup, ?_⟩, ?_, ?_⟩
  · simp [h.alive_size]
  · rw [Array.size_push]
    exact hlt
  · intro i
    have hi := h.mem_free_iff i
    rw [hempty] at hi ⊢
    rw [Array.getElem?_push]
    split <;> simp_all
  · simp only [isAlive, hidx, hnone]
    rfl
  · intro x
    rw [isAlive_iff, isAlive_iff, Array.getElem?_push, Array.getElem?_push, h.alive_size]
    by_cases hx : x.index.toNat = a.generations.size
    · obtain ⟨j, k⟩ := x
      have hj : j = a.generations.size.toUInt32 := UInt32.toNat_inj.1 (hx.trans hidx.symm)
      rw [if_pos hx, if_pos hx, hx, hnone, hj]
      simp [eq_comm]
    · rw [if_neg hx, if_neg hx]
      have : x ≠ ⟨a.generations.size.toUInt32, 0⟩ := by
        rintro rfl
        exact hx hidx
      simp [this]

/-- Where no slot waits, every slot carries a live handle. -/
theorem Coherent.exists_isAlive (h : a.Coherent) (hempty : a.free.toList = []) {i : UInt32}
    (hi : i.toNat < a.slotCount) : ∃ g, a.isAlive ⟨i, g⟩ = true := by
  have hsize : i.toNat < a.alive.size := h.alive_size ▸ hi
  have hfree := h.mem_free_iff i
  rw [hempty] at hfree
  have halive : a.alive[i.toNat]? = some true := by
    rw [Array.getElem?_eq_getElem hsize] at hfree ⊢
    cases hb : a.alive[i.toNat] <;> simp_all
  obtain ⟨g, hg⟩ := h.getElem?_generations halive
  exact ⟨g, isAlive_iff.2 ⟨halive, hg⟩⟩

/-- An issue gives a handle that was not alive, and makes it alive beside the others.  It gives
none only when every slot there can be is alive. -/
theorem Coherent.allocate_cases (h : a.Coherent) :
    (∃ e a', a.allocate = (some e, a') ∧ a'.Coherent ∧ a.isAlive e = false ∧
      ∀ x, a'.isAlive x = true ↔ x = e ∨ a.isAlive x = true) ∨
    (a.allocate = (none, a) ∧ ∀ i : UInt32, i.toNat < slotLimit →
      ∃ g, a.isAlive ⟨i, g⟩ = true) := by
  cases hp : a.free.pop? with
  | some x => exact .inl (h.allocate_of_pop? hp)
  | none =>
    by_cases hlt : a.generations.size < slotLimit
    · exact .inl (h.allocate_of_lt hp hlt)
    · refine .inr ⟨by simp [allocate, hp, hlt], fun i hi => ?_⟩
      exact h.exists_isAlive (Fifo.pop?_eq_none_iff.1 hp)
        (Nat.lt_of_lt_of_le hi (Nat.not_lt.1 hlt))

/-! ## Releasing -/

/-- The release of a live handle makes that handle dead and no other. -/
theorem Coherent.deallocate_cases (h : a.Coherent) (he : a.isAlive e = true) :
    ∃ a', a.deallocate e = (true, a') ∧ a'.Coherent ∧
      ∀ x, a'.isAlive x = true ↔ x ≠ e ∧ a.isAlive x = true := by
  have hal := isAlive_iff.1 he
  have hlt : e.index.toNat < a.alive.size := (Array.getElem?_eq_some_iff.1 hal.1).1
  refine ⟨_, by rw [deallocate, if_pos he], ⟨?_, ?_, ?_, ?_⟩, ?_⟩
  · simp [h.alive_size]
  · simpa using h.size_le
  · rw [Fifo.toList_push, List.nodup_append]
    refine ⟨h.free_nodup, by simp, ?_⟩
    intro i hi j hj hij
    rw [h.mem_free_iff i] at hi
    simp_all
  · intro i
    rw [Fifo.toList_push, List.mem_append, List.mem_singleton, h.mem_free_iff i,
      Array.getElem?_setIfInBounds]
    by_cases hi : e.index = i
    · subst hi
      simp [hlt]
    · rw [if_neg (mt UInt32.toNat_inj.1 hi)]
      simp [Ne.symm hi]
  · intro x
    rw [isAlive_iff, Array.getElem?_setIfInBounds, Array.getElem?_modify]
    by_cases hx : e.index = x.index
    · rw [if_pos (congrArg UInt32.toNat hx), if_pos hlt]
      have : a.isAlive x = true → x = e := fun hxa => eq_of_isAlive hxa he hx.symm
      simp only [Option.some.injEq, Bool.false_eq_true, false_and, false_iff, not_and]
      exact fun hne hxa => hne (this hxa)
    · rw [if_neg (mt UInt32.toNat_inj.1 hx), if_neg (mt UInt32.toNat_inj.1 hx), ← isAlive_iff]
      have : x ≠ e := by
        rintro rfl
        exact hx rfl
      simp [this]

/-! ## The list of live handles -/

theorem Coherent.handleAt?_eq_some_iff (h : a.Coherent) {i : Nat} :
    a.handleAt? i = some e ↔ e.index.toNat = i ∧ a.isAlive e = true := by
  unfold handleAt?
  split
  · next hi =>
    obtain ⟨g, hg⟩ := h.getElem?_generations hi
    have hidx := toNat_index (h.lt_slotLimit hi)
    rw [hg, Option.map_some, Option.some.injEq]
    constructor
    · rintro rfl
      exact ⟨hidx, isAlive_iff.2 ⟨by rw [hidx]; exact hi, by rw [hidx]; exact hg⟩⟩
    · rintro ⟨rfl, he⟩
      have := (isAlive_iff.1 he).2
      rw [hg] at this
      cases e
      simp_all
  · next hi =>
    simp only [reduceCtorEq, false_iff, not_and]
    rintro rfl he
    exact hi (isAlive_iff.1 he).1

theorem Coherent.mem_entities_iff (h : a.Coherent) :
    e ∈ a.entities ↔ a.isAlive e = true := by
  simp only [entities, List.mem_filterMap, List.mem_range, h.handleAt?_eq_some_iff]
  constructor
  · rintro ⟨_, _, _, he⟩
    exact he
  · intro he
    exact ⟨_, index_lt_slotCount he, rfl, he⟩

theorem Coherent.nodup_entities (h : a.Coherent) : a.entities.Nodup := by
  refine List.Nodup.filterMap ?_ List.nodup_range
  intro i j e hi hj
  rw [Option.mem_def, h.handleAt?_eq_some_iff] at hi hj
  exact hi.1.symm.trans hj.1

/-- The live handles are listed by ascending index. -/
theorem Coherent.pairwise_entities (h : a.Coherent) :
    a.entities.Pairwise fun x y => x.index < y.index := by
  refine List.Pairwise.filterMap _ ?_ List.pairwise_lt_range
  intro i j hij x hx y hy
  rw [h.handleAt?_eq_some_iff] at hx hy
  rw [UInt32.lt_iff_toNat_lt, hx.1, hy.1]
  exact hij

end EntityStore.Allocator
