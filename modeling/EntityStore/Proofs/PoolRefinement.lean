import EntityStore.Proofs.Packing

/-!
# Pools refine lists of pairs

A plain model of a pool is the list of its pairs, searched from the front.  A lookup finds the pair
of the exact handle.  A new pair takes the place of the pair of the same slot index, or else comes
last.  The removal of a pair moves the last pair into its place.

`Pool.Request.onPairs` is what the model answers to a request and becomes.  A coherent pool, which
finds its positions through the sparse table, answers the same and holds the same pairs in the same
order (`Coherent.run_eq`).  So does a pool through any sequence of requests
(`replay_refines_pairs`).
-/

namespace EntityStore

variable {α β ε : Type}

/-! ## The model -/

/-- Handles with values, in order. -/
abbrev Pairs (α : Type) := List (Entity × α)

namespace Pairs

/-- The value of the exact handle. -/
def lookup (l : Pairs α) (e : Entity) : Option α := List.lookup e l

/-- The position of the pair whose handle has a slot index. -/
def indexOf? (l : Pairs α) (i : UInt32) : Option Nat := l.findIdx? fun x => x.1.index = i

/-- Puts a pair in the place of the pair of the same slot index, or else at the end. -/
def put (l : Pairs α) (e : Entity) (v : α) : Pairs α :=
  match l.indexOf? e.index with
  | some i => l.set i (e, v)
  | none => l ++ [(e, v)]

/-- Removes the pair of the exact handle.  The last pair moves into its place. -/
def remove (l : Pairs α) (e : Entity) : Pairs α :=
  match l.findIdx? fun x => x.1 = e, l.getLast? with
  | some i, some last => (l.set i last).dropLast
  | _, _ => l

/-- Changes the value of the exact handle. -/
def modify (l : Pairs α) (e : Entity) (f : α → α) : Pairs α :=
  l.map fun x => if x.1 = e then (e, f x.2) else x

end Pairs

namespace Pool

namespace Request

/-- What the model answers to a request, and what it becomes. -/
def onPairs : (k : Request ε α) → Pairs α → k.Answer × Pairs α
  | insert e v, l => (l.lookup e, l.put e v)
  | insertOrReplace e v, l => (some v, l.put e v)
  | getOrInsert e make, l =>
    match l.lookup e with
    | some v => (.ok (v, false), l)
    | none =>
      match make () with
      | .ok v => (.ok (v, true), l.put e v)
      | .error f => (.error f, l)
  | remove e, l => (l.lookup e, l.remove e)
  | erase e, l => ((l.lookup e).isSome, l.remove e)
  | get e, l => (l.lookup e, l)
  | contains e, l => ((l.lookup e).isSome, l)
  | modify e f, l => (l.lookup e, l.modify e f)
  | list, l => (l, l)
  | modifyAll f, l => (l, l.map fun x => (x.1, f x.1 x.2))
  | entities, l => (l.map Prod.fst, l)
  | size, l => (l.length, l)
  | isEmpty, l => (l.isEmpty, l)

end Request

/-! ## Positions -/

/-- A search finds a position that is the only one to fit. -/
theorem findIdx?_eq_of_unique {l : List β} {fits : β → Bool} {o : Option Nat}
    (h : ∀ i, o = some i ↔ ∃ x, l[i]? = some x ∧ fits x = true) : l.findIdx? fits = o := by
  cases o with
  | none =>
    rw [List.findIdx?_eq_none_iff]
    intro x hx
    obtain ⟨i, hi⟩ := List.mem_iff_getElem?.1 hx
    rw [Bool.eq_false_iff]
    intro hfits
    cases (h i).2 ⟨x, hi, hfits⟩
  | some i =>
    obtain ⟨x, hx, hfits⟩ := (h i).1 rfl
    obtain ⟨hlt, rfl⟩ := List.getElem?_eq_some_iff.1 hx
    rw [List.findIdx?_eq_some_iff_getElem]
    refine ⟨hlt, hfits, fun j hji hj => ?_⟩
    have hij := (h j).2 ⟨_, List.getElem?_eq_getElem (Nat.lt_trans hji hlt), hj⟩
    rw [Option.some.injEq] at hij
    omega

variable {p : Pool α} {l : Pairs α} {e : Entity} {v : α} {i : Nat}

theorem getElem?_toList {x : Entity × α} :
    p.toList[i]? = some x ↔ p.owners[i]? = some x.1 ∧ p.values[i]? = some x.2 := by
  rw [toList, List.getElem?_zip_eq_some, Array.getElem?_toList, Array.getElem?_toList]

/-- Every owner stands in the list of pairs. -/
theorem Coherent.owners_getElem? (h : p.Coherent) {o : Entity} :
    p.owners[i]? = some o ↔ ∃ x, p.toList[i]? = some x ∧ x.1 = o := by
  constructor
  · intro ho
    obtain ⟨w, hw⟩ := h.exists_value ho
    exact ⟨(o, w), getElem?_toList.2 ⟨ho, hw⟩, rfl⟩
  · rintro ⟨x, hx, rfl⟩
    exact (getElem?_toList.1 hx).1

theorem Coherent.findIdx?_eq_position? (h : p.Coherent) :
    (p.toList.findIdx? fun x => x.1 = e) = p.position? e := by
  refine findIdx?_eq_of_unique fun i => ?_
  simp only [h.position?_eq_some_iff, h.owners_getElem?, decide_eq_true_eq]

theorem Coherent.indexOf?_eq_held? (h : p.Coherent) :
    Pairs.indexOf? p.toList e.index = p.held? e := by
  refine findIdx?_eq_of_unique fun i => ?_
  simp only [h.held?_iff, h.owners_getElem?, decide_eq_true_eq]
  constructor
  · rintro ⟨_, ⟨x, hx, rfl⟩, hi⟩
    exact ⟨x, hx, hi⟩
  · rintro ⟨x, hx, hi⟩
    exact ⟨_, ⟨x, hx, rfl⟩, hi⟩

/-- In a list whose handles are distinct, a lookup finds what is a member. -/
theorem lookup_eq_some_iff (hn : (l.map Prod.fst).Nodup) :
    Pairs.lookup l e = some v ↔ (e, v) ∈ l := by
  rw [Pairs.lookup, List.lookup_eq_some_iff]
  constructor
  · rintro ⟨before, after, rfl, -⟩
    exact List.mem_append_right _ List.mem_cons_self
  · intro hmem
    obtain ⟨before, after, rfl⟩ := List.append_of_mem hmem
    refine ⟨before, after, rfl, fun x hx => bne_iff_ne.2 (Ne.symm ?_)⟩
    rw [List.map_append, List.nodup_append] at hn
    exact hn.2.2 x.1 (List.mem_map_of_mem hx) e List.mem_cons_self

/-- A read of the pool is a search of the pairs. -/
theorem Coherent.lookup_toList (h : p.Coherent) : Pairs.lookup p.toList e = p.get? e := by
  ext v
  rw [lookup_eq_some_iff (h.map_fst_toList ▸ h.nodup_entities), h.mem_toList_iff]

/-! ## Changes -/

/-- Owners and values that come from a list of pairs are that list. -/
theorem toList_eq (ho : p.owners.toList = l.map Prod.fst) (hv : p.values.toList = l.map Prod.snd) :
    p.toList = l := by
  rw [toList, ho, hv]
  exact (List.zip_of_prod rfl rfl).symm

theorem Coherent.length_toList (h : p.Coherent) : p.toList.length = p.size := by
  rw [← List.length_map Prod.fst, h.map_fst_toList]
  rfl

theorem Coherent.isEmpty_toList (h : p.Coherent) : p.toList.isEmpty = p.isEmpty := by
  rw [Bool.eq_iff_iff, List.isEmpty_iff_length_eq_zero, h.length_toList, isEmpty,
    Array.isEmpty_iff_size_eq_zero, size]

theorem Coherent.map_snd_toList (h : p.Coherent) : p.toList.map Prod.snd = p.values.toList := by
  rw [toList, List.map_snd_zip]
  simp [h.values_size]

/-- An insertion writes over the pair of the same slot, or else adds one at the end. -/
theorem Coherent.toList_insert (h : p.Coherent) :
    (p.insert e v).toList = Pairs.put p.toList e v := by
  rw [Pairs.put, h.indexOf?_eq_held?]
  cases hi : p.held? e with
  | some i =>
    rw [insert_of_held hi]
    refine toList_eq ?_ ?_
    · rw [Array.toList_setIfInBounds, List.map_set, h.map_fst_toList, entities]
    · rw [Array.toList_setIfInBounds, List.map_set, h.map_snd_toList]
  | none =>
    rw [insert_of_not_held hi]
    refine toList_eq ?_ ?_
    · rw [Array.toList_push, List.map_append, h.map_fst_toList, entities]
      rfl
    · rw [Array.toList_push, List.map_append, h.map_snd_toList]
      rfl

theorem toList_swapRemove {xs : Array β} {last : β} (hlast : xs.toList.getLast? = some last) :
    (swapRemove xs i).toList = (xs.toList.set i last).dropLast := by
  rw [Array.getLast?_toList] at hlast
  rw [swapRemove, hlast, Array.toList_pop, Array.toList_setIfInBounds]

/-- A removal moves the last pair into the gap. -/
theorem Coherent.toList_erase (h : p.Coherent) : (p.erase e).toList = Pairs.remove p.toList e := by
  rw [Pairs.remove, h.findIdx?_eq_position?]
  cases hpos : p.position? e with
  | none => rw [erase_of_position?_eq_none hpos]
  | some i =>
    have hi := h.position?_eq_some_iff.1 hpos
    obtain ⟨last, hlast, heq⟩ := h.erase_of_position? hi
    obtain ⟨x, hx, -⟩ := h.owners_getElem?.1 hi
    obtain ⟨y, hy⟩ : ∃ y, p.toList.getLast? = some y :=
      ⟨_, List.getLast?_eq_some_getLast (List.ne_nil_of_mem (List.mem_of_getElem? hx))⟩
    rw [hy, heq]
    refine toList_eq ?_ ?_
    · have hlast' : p.owners.toList.getLast? = some y.1 := by
        rw [← entities, ← h.map_fst_toList, List.getLast?_map, hy]
        rfl
      rw [toList_swapRemove hlast', List.map_dropLast, List.map_set, h.map_fst_toList, entities]
    · have hlast' : p.values.toList.getLast? = some y.2 := by
        rw [← h.map_snd_toList, List.getLast?_map, hy]
        rfl
      rw [toList_swapRemove hlast', List.map_dropLast, List.map_set, h.map_snd_toList]

theorem Coherent.toList_modify (h : p.Coherent) (f : α → α) :
    (p.modify e f).toList = Pairs.modify p.toList e f := by
  refine List.ext_getElem? fun k => Option.ext fun x => ?_
  rw [Pairs.modify, List.getElem?_map, Option.map_eq_some_iff]
  -- a position that the handle does not hold keeps its pair
  have hother (hk : p.position? e ≠ some k) :
      (∃ y, p.toList[k]? = some y ∧ (if y.1 = e then (e, f y.2) else y) = x) ↔
        p.toList[k]? = some x := by
    have hne : ∀ y, p.toList[k]? = some y → y.1 ≠ e := fun y hy hye =>
      hk (h.position?_eq_some_iff.2 (h.owners_getElem?.2 ⟨y, hy, hye⟩))
    constructor
    · rintro ⟨y, hy, rfl⟩
      rw [if_neg (hne y hy)]
      exact hy
    · intro hx
      exact ⟨x, hx, if_neg (hne x hx)⟩
  cases hpos : p.position? e with
  | none =>
    rw [modify_of_position?_eq_none hpos, hother (by simp [hpos])]
  | some i =>
    rw [modify_of_position? hpos]
    by_cases hik : i = k
    · subst hik
      have hi := h.position?_eq_some_iff.1 hpos
      simp only [getElem?_toList, Array.getElem?_modify, if_true, hi, Option.map_eq_some_iff]
      constructor
      · rintro ⟨ho, w, hw, hfw⟩
        cases ho
        exact ⟨(x.1, w), ⟨rfl, hw⟩, by rw [if_pos rfl, hfw]⟩
      · rintro ⟨⟨o, w⟩, ⟨ho, hw⟩, rfl⟩
        cases ho
        rw [if_pos rfl]
        exact ⟨rfl, w, hw, rfl⟩
    · rw [hother (by simp [hpos, hik])]
      simp only [getElem?_toList, Array.getElem?_modify, if_neg hik]

theorem Coherent.toList_mapValues (h : p.Coherent) (f : Entity → α → α) :
    (p.mapValues f).toList = p.toList.map fun x => (x.1, f x.1 x.2) := by
  refine toList_eq ?_ ?_
  · rw [List.map_map]
    exact h.map_fst_toList.symm
  · rw [Pool.mapValues, Array.toList_zipWith, ← entities, ← h.map_fst_toList, ← h.map_snd_toList,
      List.zipWith_map, List.zipWith_self, List.map_map]
    rfl

/-! ## Requests -/

/-- A coherent pool answers a request as its list of pairs does, holds the list that this becomes,
and stays coherent. -/
theorem Coherent.run_eq (h : p.Coherent) (k : Request ε α) :
    (k.run p).1 = (k.onPairs p.toList).1 ∧ (k.run p).2.toList = (k.onPairs p.toList).2 ∧
      (k.run p).2.Coherent := by
  cases k with
  | insert e v => exact ⟨h.lookup_toList.symm, h.toList_insert, h.insert e v⟩
  | insertOrReplace e v => exact ⟨h.get?_insert_self, h.toList_insert, h.insert e v⟩
  | getOrInsert e make =>
    simp only [Request.run, Request.onPairs, getOrInsert, h.lookup_toList]
    cases p.get? e with
    | some v => exact ⟨rfl, rfl, h⟩
    | none =>
      cases make () with
      | ok v => exact ⟨rfl, h.toList_insert, h.insert e v⟩
      | error f => exact ⟨rfl, rfl, h⟩
  | remove e => exact ⟨h.lookup_toList.symm, h.toList_erase, h.erase e⟩
  | erase e => exact ⟨congrArg Option.isSome h.lookup_toList.symm, h.toList_erase, h.erase e⟩
  | get e => exact ⟨h.lookup_toList.symm, rfl, h⟩
  | contains e =>
    exact ⟨h.isSome_get?.symm.trans (congrArg Option.isSome h.lookup_toList.symm), rfl, h⟩
  | modify e f => exact ⟨h.lookup_toList.symm, h.toList_modify f, h.modify e f⟩
  | list => exact ⟨rfl, rfl, h⟩
  | modifyAll f => exact ⟨rfl, h.toList_mapValues f, h.mapValues f⟩
  | entities => exact ⟨h.map_fst_toList.symm, rfl, h⟩
  | size => exact ⟨h.length_toList.symm, rfl, h⟩
  | isEmpty => exact ⟨h.isEmpty_toList.symm, rfl, h⟩

/-! ## Replays -/

/-- The requests one after another, each with its answer, and the pool that they leave. -/
def replay (p : Pool α) : List (Request ε α) → List ((k : Request ε α) × k.Answer) × Pool α
  | [] => ([], p)
  | k :: ks =>
    let rest := replay (k.run p).2 ks
    (⟨k, (k.run p).1⟩ :: rest.1, rest.2)

/-- The requests one after another, each with the answer of the model, and what it becomes. -/
def replayPairs (l : Pairs α) :
    List (Request ε α) → List ((k : Request ε α) × k.Answer) × Pairs α
  | [] => ([], l)
  | k :: ks =>
    let rest := replayPairs (k.onPairs l).2 ks
    (⟨k, (k.onPairs l).1⟩ :: rest.1, rest.2)

/-- Any list of requests answers as on the pairs, and ends with the same pairs. -/
theorem Coherent.replay_eq (h : p.Coherent) (ks : List (Request ε α)) :
    (p.replay ks).1 = (replayPairs p.toList ks).1 ∧
      (p.replay ks).2.toList = (replayPairs p.toList ks).2 ∧ (p.replay ks).2.Coherent := by
  induction ks generalizing p with
  | nil => exact ⟨rfl, rfl, h⟩
  | cons k ks ih =>
    obtain ⟨hanswer, hlist, hcoh⟩ := h.run_eq k
    obtain ⟨hanswers, hleft, hend⟩ := ih hcoh
    rw [hlist] at hanswers hleft
    refine ⟨?_, hleft, hend⟩
    rw [replay, replayPairs, hanswers, hanswer]

/-- A pool that starts empty answers every sequence of requests as the list of pairs does, has the
pairs of that list in its order, and their slot indices are distinct. -/
theorem replay_refines_pairs (ks : List (Request ε α)) :
    (({} : Pool α).replay ks).1 = (replayPairs [] ks).1 ∧
      (({} : Pool α).replay ks).2.toList = (replayPairs [] ks).2 ∧
      (({} : Pool α).replay ks).2.entities = (replayPairs [] ks).2.map Prod.fst ∧
      ((replayPairs [] ks).2.map (·.1.index)).Nodup := by
  obtain ⟨hanswers, hleft, hcoh⟩ := coherent_empty.replay_eq (α := α) ks
  have hempty : ({} : Pool α).toList = [] := rfl
  rw [hempty] at hanswers hleft
  have howners := hcoh.map_fst_toList.symm
  rw [hleft] at howners
  refine ⟨hanswers, hleft, howners, ?_⟩
  have hnodup := hcoh.nodup_index
  rwa [howners, List.map_map] at hnodup

end Pool

end EntityStore
