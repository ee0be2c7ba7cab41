import EntityStore.Pool
import Mathlib.Data.List.Nodup

/-!
# Packed pools

A pool is *coherent* when its sparse table leads from a slot index to exactly the position whose
owner has that index.  So no two owners of a coherent pool share an index, and a lookup through the
sparse table finds what a search through the owners would find.

Every operation keeps coherence, and what it does to the pairs is said of the one view
`Pool.get?`: an attachment changes the entry of its handle and drops that of any other handle of
the same index, a detachment removes the entry of its handle, and the entries of all other handles
stay.
-/

namespace EntityStore

/-! ## Closing a gap -/

section SwapRemove

variable {α : Type} {xs : Array α} {i k : Nat}

theorem size_swapRemove : (swapRemove xs i).size = xs.size - 1 := by
  unfold swapRemove
  cases h : xs.back? with
  | some last => simp
  | none => simp_all

theorem exists_last (hi : i < xs.size) : ∃ last, xs[xs.size - 1]? = some last :=
  ⟨_, Array.getElem?_eq_getElem (by omega)⟩

theorem getElem?_swapRemove (hi : i < xs.size) :
    (swapRemove xs i)[k]? =
      if k + 1 < xs.size then if k = i then xs[xs.size - 1]? else xs[k]? else none := by
  obtain ⟨last, hlast⟩ := exists_last hi
  rw [swapRemove, Array.back?_eq_getElem?, hlast]
  simp only [Array.getElem?_pop, Array.size_setIfInBounds, Array.getElem?_setIfInBounds]
  by_cases hk : k + 1 < xs.size
  · rw [if_pos hk, if_pos (by omega), if_pos hi]
    exact ite_congr (propext eq_comm) (fun _ => rfl) (fun _ => rfl)
  · rw [if_neg hk, if_neg (by omega)]

end SwapRemove

namespace Pool

variable {α : Type} {p : Pool α} {e x : Entity} {v w : α} {i j k : Nat}

/-- The sparse table leads from an index to the position whose owner has that index. -/
structure Coherent (p : Pool α) : Prop where
  /-- Every owner has a value. -/
  values_size : p.values.size = p.owners.size
  /-- The sparse table finds the owner of an index, and nothing else. -/
  sparse_iff : ∀ i k, p.sparse[i]? = some (some k) ↔
    ∃ o : Entity, p.owners[k]? = some o ∧ o.index.toNat = i

/-- The empty pool is coherent. -/
theorem coherent_empty : ({} : Pool α).Coherent where
  values_size := rfl
  sparse_iff := by simp

/-! ## Lookup -/

theorem held?_eq_some_iff : p.held? e = some k ↔ p.sparse[e.index.toNat]? = some (some k) := by
  rw [held?, Option.join_eq_some_iff]

/-- The sparse table finds the owner of a slot index, of whatever generation. -/
theorem Coherent.held?_iff (h : p.Coherent) :
    p.held? e = some k ↔ ∃ o, p.owners[k]? = some o ∧ o.index = e.index := by
  simp only [held?_eq_some_iff, h.sparse_iff, UInt32.toNat_inj]

/-- No two owners share an index. -/
theorem Coherent.position_unique (h : p.Coherent) {o : Entity} (hx : p.owners[i]? = some x)
    (ho : p.owners[j]? = some o) (hxo : x.index = o.index) : i = j := by
  have hi := (h.sparse_iff x.index.toNat i).2 ⟨x, hx, rfl⟩
  have hj := (h.sparse_iff x.index.toNat j).2 ⟨o, ho, by rw [hxo]⟩
  simpa using hi.symm.trans hj

/-- The position of a handle is where it stands among the owners. -/
theorem Coherent.position?_eq_some_iff (h : p.Coherent) :
    p.position? e = some k ↔ p.owners[k]? = some e := by
  rw [position?, Option.filter_eq_some_iff, h.held?_iff]
  constructor
  · rintro ⟨_, hk⟩
    simpa using hk
  · intro hk
    exact ⟨⟨e, hk, rfl⟩, by simpa using hk⟩

/-- The value of a handle stands where the handle stands. -/
theorem Coherent.get?_eq_some_iff (h : p.Coherent) :
    p.get? e = some v ↔ ∃ k : Nat, p.owners[k]? = some e ∧ p.values[k]? = some v := by
  simp only [get?, Option.bind_eq_some_iff, h.position?_eq_some_iff]

theorem Coherent.exists_value (h : p.Coherent) (hk : p.owners[k]? = some e) :
    ∃ v, p.values[k]? = some v := by
  obtain ⟨hlt, _⟩ := Array.getElem?_eq_some_iff.1 hk
  rw [← h.values_size] at hlt
  exact ⟨_, Array.getElem?_eq_getElem hlt⟩

theorem mem_entities_iff : e ∈ p.entities ↔ ∃ k : Nat, p.owners[k]? = some e := by
  rw [entities, Array.mem_toList_iff, Array.mem_iff_getElem?]

/-- A pool contains exactly its owners. -/
theorem Coherent.contains_iff (h : p.Coherent) : p.contains e = true ↔ e ∈ p.entities := by
  simp only [contains, Option.isSome_iff_exists, h.position?_eq_some_iff, mem_entities_iff]

theorem Coherent.isSome_get? (h : p.Coherent) : (p.get? e).isSome = p.contains e := by
  rw [Bool.eq_iff_iff, h.contains_iff, mem_entities_iff, Option.isSome_iff_exists]
  constructor
  · rintro ⟨v, hv⟩
    obtain ⟨k, hk, _⟩ := h.get?_eq_some_iff.1 hv
    exact ⟨k, hk⟩
  · rintro ⟨k, hk⟩
    obtain ⟨v, hv⟩ := h.exists_value hk
    exact ⟨v, h.get?_eq_some_iff.2 ⟨k, hk, hv⟩⟩

theorem Coherent.mem_entities_iff_isSome (h : p.Coherent) :
    e ∈ p.entities ↔ (p.get? e).isSome = true := by
  rw [h.isSome_get?, h.contains_iff]

/-! ## The list of pairs -/

/-- No two owners share a slot index. -/
theorem Coherent.nodup_index (h : p.Coherent) : (p.entities.map (·.index)).Nodup := by
  rw [entities, List.nodup_iff_injective_getElem]
  rintro ⟨a, ha⟩ ⟨b, hb⟩ hab
  simp only [List.getElem_map, Array.getElem_toList, Fin.mk.injEq] at hab ⊢
  have ha' : a < p.owners.size := by simpa using ha
  have hb' : b < p.owners.size := by simpa using hb
  exact h.position_unique (Array.getElem?_eq_getElem ha') (Array.getElem?_eq_getElem hb') hab

theorem Coherent.nodup_entities (h : p.Coherent) : p.entities.Nodup :=
  List.Nodup.of_map _ h.nodup_index

theorem Coherent.map_fst_toList (h : p.Coherent) : p.toList.map Prod.fst = p.entities := by
  rw [toList, List.map_fst_zip]
  · rfl
  · simp [h.values_size]

theorem Coherent.nodup_toList (h : p.Coherent) : p.toList.Nodup :=
  List.Nodup.of_map Prod.fst (h.map_fst_toList ▸ h.nodup_entities)

/-- The pairs are the handles with their values. -/
theorem Coherent.mem_toList_iff (h : p.Coherent) : (e, v) ∈ p.toList ↔ p.get? e = some v := by
  rw [h.get?_eq_some_iff, toList, List.mem_iff_getElem?]
  simp only [List.getElem?_zip_eq_some, Array.getElem?_toList]

/-! ## Attaching -/

theorem insert_of_held (hi : p.held? e = some i) :
    p.insert e v =
      { p with owners := p.owners.setIfInBounds i e, values := p.values.setIfInBounds i v } := by
  rw [insert, hi]

theorem insert_of_not_held (hi : p.held? e = none) :
    p.insert e v =
      { sparse := (p.grown e.index.toNat).setIfInBounds e.index.toNat (some p.owners.size)
        owners := p.owners.push e
        values := p.values.push v } := by
  rw [insert, hi]

/-- Growing the sparse table adds no positions. -/
theorem getElem?_grown_eq_some_iff :
    (p.grown i)[j]? = some (some k) ↔ p.sparse[j]? = some (some k) := by
  rw [grown, Array.getElem?_append]
  split
  · rfl
  · next hj =>
    have hnone : p.sparse[j]? = none := by simp; omega
    rw [Array.getElem?_replicate, hnone]
    split <;> simp

theorem size_grown : i < (p.grown i).size := by
  simp [grown]
  omega

/-- Where the table knows nothing of an index, no owner has it. -/
theorem Coherent.index_ne_of_not_held (h : p.Coherent) (hi : p.held? e = none) {o : Entity}
    (ho : p.owners[k]? = some o) : o.index ≠ e.index := by
  intro hoe
  have := h.held?_iff.2 ⟨o, ho, hoe⟩
  simp [hi] at this

/-- To store a value keeps a pool coherent. -/
theorem Coherent.insert (h : p.Coherent) (e : Entity) (v : α) : (p.insert e v).Coherent := by
  cases hi : p.held? e with
  | some i =>
    obtain ⟨o, ho, hoe⟩ := h.held?_iff.1 hi
    have hlt : i < p.owners.size := (Array.getElem?_eq_some_iff.1 ho).1
    rw [insert_of_held hi]
    refine ⟨by simp [h.values_size], fun j k => ?_⟩
    simp only [h.sparse_iff, Array.getElem?_setIfInBounds]
    by_cases hk : i = k
    · subst hk
      simp only [if_true, hlt, ho, Option.some.injEq, exists_eq_left', hoe]
    · simp [hk]
  | none =>
    rw [insert_of_not_held hi]
    refine ⟨by simp [h.values_size], fun j k => ?_⟩
    simp only [Array.getElem?_setIfInBounds, Array.getElem?_push]
    by_cases hj : e.index.toNat = j
    · subst hj
      rw [if_pos rfl, if_pos size_grown]
      by_cases hk : k = p.owners.size
      · simp [hk]
      · simp only [hk, if_false]
        constructor
        · intro hks
          exact absurd (by simpa using hks.symm) hk
        · rintro ⟨o, ho, hoe⟩
          exact absurd (UInt32.toNat_inj.1 hoe) (h.index_ne_of_not_held hi ho)
    · rw [if_neg hj, getElem?_grown_eq_some_iff, h.sparse_iff]
      by_cases hk : k = p.owners.size
      · simp [hk, hj]
      · simp [hk]

/-- The new pair has a position. -/
theorem Coherent.exists_position_insert (h : p.Coherent) :
    ∃ k : Nat, (p.insert e v).owners[k]? = some e ∧ (p.insert e v).values[k]? = some v := by
  cases hi : p.held? e with
  | some i =>
    obtain ⟨o, ho, hoe⟩ := h.held?_iff.1 hi
    have hlt : i < p.owners.size := (Array.getElem?_eq_some_iff.1 ho).1
    rw [insert_of_held hi]
    exact ⟨i, by simp [hlt], by simp [h.values_size, hlt]⟩
  | none =>
    rw [insert_of_not_held hi]
    exact ⟨p.owners.size, by simp, by simp [← h.values_size]⟩

/-- What was stored is found. -/
theorem Coherent.get?_insert_self (h : p.Coherent) : (p.insert e v).get? e = some v :=
  (h.insert e v).get?_eq_some_iff.2 h.exists_position_insert

/-- Another generation of the same slot is not found any more. -/
theorem Coherent.get?_insert_of_index_eq (h : p.Coherent) (hne : x ≠ e)
    (hx : x.index = e.index) : (p.insert e v).get? x = none := by
  obtain ⟨k, hk, _⟩ := h.exists_position_insert (e := e) (v := v)
  rw [Option.eq_none_iff_forall_ne_some]
  intro w hw
  obtain ⟨j, hj, _⟩ := (h.insert e v).get?_eq_some_iff.1 hw
  have hjk := (h.insert e v).position_unique hj hk hx
  rw [hjk] at hj
  exact hne (Option.some.inj (hj.symm.trans hk))

/-- The values of other slots stay. -/
theorem Coherent.get?_insert_of_index_ne (h : p.Coherent) (hx : x.index ≠ e.index) :
    (p.insert e v).get? x = p.get? x := by
  have hne : e ≠ x := by
    rintro rfl
    exact hx rfl
  ext w
  rw [(h.insert e v).get?_eq_some_iff, h.get?_eq_some_iff]
  refine exists_congr fun k => ?_
  cases hi : p.held? e with
  | some i =>
    obtain ⟨o, ho, hoe⟩ := h.held?_iff.1 hi
    rw [insert_of_held hi]
    simp only [Array.getElem?_setIfInBounds]
    by_cases hik : i = k
    · subst hik
      have hox : o ≠ x := by
        rintro rfl
        exact hx hoe
      have hlt : i < p.owners.size := (Array.getElem?_eq_some_iff.1 ho).1
      rw [if_pos rfl, if_pos hlt, ho]
      simp only [Option.some.injEq, hne, hox, false_and]
    · rw [if_neg hik, if_neg hik]
  | none =>
    rw [insert_of_not_held hi]
    simp only [Array.getElem?_push, h.values_size]
    by_cases hk : k = p.owners.size
    · simp [hk, hne]
    · rw [if_neg hk, if_neg hk]

/-- An attachment puts out an owner of its index only if that is another handle. -/
theorem Coherent.evictee?_eq_some_iff (h : p.Coherent) {o : Entity} :
    p.evictee? e = some o ↔ o ∈ p.entities ∧ o.index = e.index ∧ o ≠ e := by
  simp only [evictee?, Option.filter_eq_some_iff, Option.bind_eq_some_iff, h.held?_iff,
    mem_entities_iff, decide_eq_true_eq]
  constructor
  · rintro ⟨⟨k, ⟨o', ho', hi⟩, ho⟩, hne⟩
    rw [ho', Option.some.injEq] at ho
    subst ho
    exact ⟨⟨k, ho'⟩, hi, hne⟩
  · rintro ⟨⟨k, ho⟩, hi, hne⟩
    exact ⟨⟨k, ⟨o, ho, hi⟩, ho⟩, hne⟩

/-! ## Changing values -/

theorem modify_of_position? (hpos : p.position? e = some i) (f : α → α) :
    p.modify e f = { p with values := p.values.modify i f } := by
  rw [Pool.modify, hpos]

theorem modify_of_position?_eq_none (hpos : p.position? e = none) (f : α → α) :
    p.modify e f = p := by
  rw [Pool.modify, hpos]

/-- To change a value keeps a pool coherent. -/
theorem Coherent.modify (h : p.Coherent) (e : Entity) (f : α → α) : (p.modify e f).Coherent := by
  unfold Pool.modify
  split
  · exact ⟨by simp [h.values_size], h.sparse_iff⟩
  · exact h

theorem entities_modify (f : α → α) : (p.modify e f).entities = p.entities := by
  unfold Pool.modify
  split <;> rfl

theorem Coherent.get?_modify (h : p.Coherent) (f : α → α) :
    (p.modify e f).get? x = if x = e then (p.get? e).map f else p.get? x := by
  cases hpos : p.position? e with
  | some i =>
    have hi := h.position?_eq_some_iff.1 hpos
    have hcoh := h.modify e f
    have hmod := modify_of_position? hpos f
    split
    · next hx =>
      subst hx
      obtain ⟨v, hv⟩ := h.exists_value hi
      rw [h.get?_eq_some_iff.2 ⟨i, hi, hv⟩, Option.map_some, hcoh.get?_eq_some_iff, hmod]
      exact ⟨i, hi, by rw [Array.getElem?_modify, if_pos rfl, hv, Option.map_some]⟩
    · next hx =>
      ext w
      rw [hcoh.get?_eq_some_iff, h.get?_eq_some_iff, hmod]
      refine exists_congr fun k => and_congr_right fun hk => ?_
      have hik : i ≠ k := by
        rintro rfl
        exact hx (Option.some.inj (hk.symm.trans hi))
      rw [Array.getElem?_modify, if_neg hik]
  | none =>
    have hnone : p.get? e = none := by simp [Pool.get?, hpos]
    rw [modify_of_position?_eq_none hpos f, hnone]
    split
    · next hx => rw [hx, hnone, Option.map_none]
    · rfl

theorem Coherent.mapValues (h : p.Coherent) (f : Entity → α → α) : (p.mapValues f).Coherent :=
  ⟨by simp [Pool.mapValues, h.values_size], h.sparse_iff⟩

theorem Coherent.get?_mapValues (h : p.Coherent) (f : Entity → α → α) :
    (p.mapValues f).get? x = (p.get? x).map (f x) := by
  ext w
  rw [(h.mapValues f).get?_eq_some_iff]
  simp only [Option.map_eq_some_iff, h.get?_eq_some_iff, Pool.mapValues, Array.getElem?_zipWith]
  constructor
  · rintro ⟨k, hk, hw⟩
    obtain ⟨v, hv⟩ := h.exists_value hk
    exact ⟨v, ⟨k, hk, hv⟩, by simpa [hk, hv] using hw⟩
  · rintro ⟨v, ⟨k, hk, hv⟩, rfl⟩
    exact ⟨k, hk, by simp [hk, hv]⟩

/-! ## Detaching -/

theorem erase_of_position?_eq_none (hpos : p.position? e = none) : p.erase e = p := by
  simp [Pool.erase, hpos]

/-- The last pair takes the place of the one that is taken out. -/
theorem Coherent.erase_of_position? (h : p.Coherent) (hi : p.owners[i]? = some e) :
    ∃ last, p.owners[p.owners.size - 1]? = some last ∧
      p.erase e =
        { sparse := (p.sparse.setIfInBounds last.index.toNat (some i)).setIfInBounds
            e.index.toNat none
          owners := swapRemove p.owners i
          values := swapRemove p.values i } := by
  have hpos := h.position?_eq_some_iff.2 hi
  obtain ⟨last, hlast⟩ := exists_last (Array.getElem?_eq_some_iff.1 hi).1
  refine ⟨last, hlast, ?_⟩
  simp only [Pool.erase, hpos, Array.back?_eq_getElem?, hlast]

/-- No owner that stays has the index of the one that leaves. -/
theorem Coherent.index_ne_of_swapRemove (h : p.Coherent) (hi : p.owners[i]? = some e)
    (hx : (swapRemove p.owners i)[k]? = some x) : x.index ≠ e.index := by
  intro hxe
  rw [getElem?_swapRemove (Array.getElem?_eq_some_iff.1 hi).1] at hx
  split at hx
  · split at hx
    · have := h.position_unique hx hi hxe
      omega
    · next hk => exact hk (h.position_unique hx hi hxe)
  · simp at hx

/-- The last owner moves into the gap, unless it is the one that leaves. -/
theorem Coherent.swapRemove_last (h : p.Coherent) {last : Entity} (hi : p.owners[i]? = some e)
    (hlast : p.owners[p.owners.size - 1]? = some last) (hne : last ≠ e) :
    (swapRemove p.owners i)[k]? = some last ↔ k = i := by
  have hlt : i < p.owners.size := (Array.getElem?_eq_some_iff.1 hi).1
  have hil : i ≠ p.owners.size - 1 := by
    intro hil
    rw [hil, hlast, Option.some.injEq] at hi
    exact hne hi
  rw [getElem?_swapRemove hlt]
  constructor
  · intro hk
    split at hk
    · split at hk
      · assumption
      · have := h.position_unique hk hlast rfl
        omega
    · simp at hk
  · rintro rfl
    rw [if_pos (by omega), if_pos rfl, hlast]

/-- The other owners stay where they are. -/
theorem swapRemove_of_ne {last : Entity} (hi : p.owners[i]? = some e)
    (hlast : p.owners[p.owners.size - 1]? = some last) (hxe : x ≠ e) (hxl : x ≠ last) :
    (swapRemove p.owners i)[k]? = some x ↔ p.owners[k]? = some x := by
  rw [getElem?_swapRemove (Array.getElem?_eq_some_iff.1 hi).1]
  constructor
  · intro hx
    split at hx
    · split at hx
      · exact absurd (Option.some.inj (hx.symm.trans hlast)) hxl
      · exact hx
    · simp at hx
  · intro hx
    have hki : k ≠ i := by
      rintro rfl
      exact hxe (Option.some.inj (hx.symm.trans hi))
    have hkl : k ≠ p.owners.size - 1 := by
      rintro rfl
      exact hxl (Option.some.inj (hx.symm.trans hlast))
    have := (Array.getElem?_eq_some_iff.1 hx).1
    rw [if_pos (by omega), if_neg hki, hx]

/-- To take a value out keeps a pool coherent. -/
theorem Coherent.erase (h : p.Coherent) (e : Entity) : (p.erase e).Coherent := by
  cases hpos : p.position? e with
  | none => rwa [erase_of_position?_eq_none hpos]
  | some i =>
    have hi := h.position?_eq_some_iff.1 hpos
    obtain ⟨last, hlast, heq⟩ := h.erase_of_position? hi
    rw [heq]
    refine ⟨by simp [size_swapRemove, h.values_size], fun j k => ?_⟩
    simp only [Array.getElem?_setIfInBounds, Array.size_setIfInBounds]
    by_cases hje : e.index.toNat = j
    · -- the index of the handle that leaves
      rw [if_pos hje]
      constructor
      · intro hs
        split at hs <;> simp at hs
      · rintro ⟨o, ho, hoj⟩
        exact absurd (UInt32.toNat_inj.1 (hoj.trans hje.symm)) (h.index_ne_of_swapRemove hi ho)
    · rw [if_neg hje]
      by_cases hjl : last.index.toNat = j
      · -- the index of the handle that moves into the gap
        have hne : last ≠ e := by
          rintro rfl
          exact hje hjl
        have hls := (h.sparse_iff j _).2 ⟨last, hlast, hjl⟩
        have hbound : j < p.sparse.size := (Array.getElem?_eq_some_iff.1 hls).1
        rw [if_pos hjl, hjl, if_pos hbound, Option.some.injEq, Option.some.injEq, eq_comm,
          ← h.swapRemove_last hi hlast hne]
        constructor
        · exact fun hk => ⟨last, hk, hjl⟩
        · rintro ⟨o, ho, hoj⟩
          by_cases hol : o = last
          · rwa [← hol]
          · have hoe : o ≠ e := by
              rintro rfl
              exact hje hoj
            have hok := (swapRemove_of_ne hi hlast hoe hol).1 ho
            have hkl := h.position_unique hok hlast (UInt32.toNat_inj.1 (hoj.trans hjl.symm))
            rw [hkl, hlast, Option.some.injEq] at hok
            exact absurd hok.symm hol
      · -- any other index keeps its position
        rw [if_neg hjl, h.sparse_iff]
        refine exists_congr fun o => and_congr_left fun hoj => ?_
        refine (swapRemove_of_ne hi hlast ?_ ?_).symm
        · rintro rfl
          exact hje hoj
        · rintro rfl
          exact hjl hoj

/-- The other pairs survive a detachment, the last of them in another place. -/
theorem Coherent.get?_erase_of_ne (h : p.Coherent) (hne : x ≠ e) :
    (p.erase e).get? x = p.get? x := by
  cases hpos : p.position? e with
  | none => rw [erase_of_position?_eq_none hpos]
  | some i =>
    have hi := h.position?_eq_some_iff.1 hpos
    obtain ⟨last, hlast, heq⟩ := h.erase_of_position? hi
    have hlt : i < p.owners.size := (Array.getElem?_eq_some_iff.1 hi).1
    have hlt' : i < p.values.size := h.values_size ▸ hlt
    ext w
    rw [(h.erase e).get?_eq_some_iff, h.get?_eq_some_iff, heq]
    simp only [getElem?_swapRemove hlt, getElem?_swapRemove hlt', h.values_size]
    constructor
    · rintro ⟨k, hk, hw⟩
      split at hk
      · next hks =>
        rw [if_pos hks] at hw
        split at hk
        · next hki =>
          rw [if_pos hki] at hw
          exact ⟨_, hk, hw⟩
        · next hki =>
          rw [if_neg hki] at hw
          exact ⟨k, hk, hw⟩
      · simp at hk
    · rintro ⟨k, hk, hw⟩
      have hki : k ≠ i := by
        rintro rfl
        exact hne (Option.some.inj (hk.symm.trans hi))
      have hks := (Array.getElem?_eq_some_iff.1 hk).1
      by_cases hkl : k = p.owners.size - 1
      · subst hkl
        exact ⟨i, by rw [if_pos (by omega), if_pos rfl, hk],
          by rw [if_pos (by omega), if_pos rfl, hw]⟩
      · exact ⟨k, by rw [if_pos (by omega), if_neg hki, hk],
          by rw [if_pos (by omega), if_neg hki, hw]⟩

/-- What was taken out is not found. -/
theorem Coherent.get?_erase_self (h : p.Coherent) : (p.erase e).get? e = none := by
  cases hpos : p.position? e with
  | none => simp [erase_of_position?_eq_none hpos, Pool.get?, hpos]
  | some i =>
    have hi := h.position?_eq_some_iff.1 hpos
    obtain ⟨last, hlast, heq⟩ := h.erase_of_position? hi
    rw [Option.eq_none_iff_forall_ne_some]
    intro w hw
    obtain ⟨k, hk, _⟩ := (h.erase e).get?_eq_some_iff.1 hw
    rw [heq] at hk
    exact h.index_ne_of_swapRemove hi hk rfl

/-- A detachment removes the entry of its handle and leaves the rest. -/
theorem Coherent.get?_erase (h : p.Coherent) :
    (p.erase e).get? x = if x = e then none else p.get? x := by
  split
  · next hx => rw [hx, h.get?_erase_self]
  · next hx => rw [h.get?_erase_of_ne hx]

end Pool

end EntityStore
