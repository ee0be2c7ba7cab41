import EntityStore.Proofs.PoolRefinement
import Mathlib.Data.Nat.PSub

/-!
# Pools in memory

A pool lies in memory as three arrays.  The sparse one is made of words: a word is a position, or
the greatest word, which marks a vacant entry.  `Pool.Layout` has these arrays and the operations of
a pool on them.  An operation reads and writes by position only, and it has no result at all where
a position is out of bounds.

As long as a pool has fewer owners than there are words for them, the arrays do what the pool does
(`Coherent.inMemory_eq`): every access is in bounds, and what an operation answers and leaves is
what it answers and leaves on the pool.  The arrays that any requests leave are *linked*: positions
and owners determine each other, and no position is the vacant word (`replay_inMemory`).
-/

namespace EntityStore

/-! ## Checked accesses -/

section Access

variable {β : Type}

/-- Overwrites an element, which has to be there. -/
def write? (xs : Array β) (i : Nat) (x : β) : Option (Array β) :=
  if i < xs.size then some (xs.setIfInBounds i x) else none

/-- Takes out an element, which has to be there, and puts the last in its place. -/
def swapRemove? (xs : Array β) (i : Nat) : Option (β × Array β) :=
  xs[i]?.map fun x => (x, swapRemove xs i)

variable {xs : Array β} {i : Nat} {x y : β}

theorem write?_of_lt (hi : i < xs.size) : write? xs i x = some (xs.setIfInBounds i x) :=
  if_pos hi

theorem swapRemove?_of_getElem? (hx : xs[i]? = some x) :
    swapRemove? xs i = some (x, swapRemove xs i) := by
  rw [swapRemove?, hx, Option.map_some]

end Access

namespace Pool

variable {α ε : Type}

/-! ## The arrays -/

/-- The arrays of a pool. -/
structure Layout (α : Type) where
  /-- For each slot index, the position of its owner, or the vacant word. -/
  sparse : Array UInt32 := #[]
  /-- The owners. -/
  owners : Array Entity := #[]
  /-- The value of each owner, in the order of the owners. -/
  values : Array α := #[]

namespace Layout

/-- The word of an entry without a position. -/
def vacant : UInt32 := 0xffffffff

/-- The position of an owner. -/
def position? (l : Layout α) (e : Entity) : Option (Option Nat) :=
  match l.sparse[e.index.toNat]? with
  | none => some none
  | some w =>
    if w = vacant then some none
    else do
      let o ← l.owners[w.toNat]?
      return if o = e then some w.toNat else none

/-- The sparse array, long enough to have an entry for a slot index. -/
def grown (l : Layout α) (i : Nat) : Array UInt32 :=
  if l.sparse.size ≤ i then l.sparse ++ Array.replicate (i + 1 - l.sparse.size) vacant
  else l.sparse

/-- Puts a pair in the place of the owner of the same slot index, or else at the end, and tells its
position. -/
def push (l : Layout α) (e : Entity) (v : α) : Option (Nat × Layout α) := do
  let sparse := l.grown e.index.toNat
  let held ← sparse[e.index.toNat]?
  if held = vacant then
    let sparse ← write? sparse e.index.toNat l.owners.size.toUInt32
    return (l.owners.size, { sparse, owners := l.owners.push e, values := l.values.push v })
  else
    -- the owner that goes is read for the record
    let _stale ← l.owners[held.toNat]?
    let owners ← write? l.owners held.toNat e
    let values ← write? l.values held.toNat v
    return (held.toNat, { sparse, owners, values })

/-- Attaches a value, and gives the one that it replaces. -/
def insert (l : Layout α) (e : Entity) (v : α) : Option (Option α × Layout α) := do
  match ← l.position? e with
  | some i =>
    let old ← l.values[i]?
    let values ← write? l.values i v
    return (some old, { l with values })
  | none =>
    let (_, l) ← l.push e v
    return (none, l)

/-- Attaches a value, and gives what is stored then. -/
def insertOrReplace (l : Layout α) (e : Entity) (v : α) : Option (Option α × Layout α) := do
  let (i, l) ← match ← l.position? e with
    | some i => do
      let values ← write? l.values i v
      pure (i, { l with values })
    | none => l.push e v
  let stored ← l.values[i]?
  return (some stored, l)

/-- The value of an owner, which is made and attached first if there is none. -/
def getOrInsert (l : Layout α) (e : Entity) (make : Unit → Except ε α) :
    Option (Except ε (α × Bool) × Layout α) := do
  match ← l.position? e with
  | some i =>
    let stored ← l.values[i]?
    return (.ok (stored, false), l)
  | none =>
    match make () with
    | .error f => return (.error f, l)
    | .ok v =>
      let (i, l) ← l.push e v
      let stored ← l.values[i]?
      return (.ok (stored, true), l)

/-- Makes the entry of the last owner lead to a position, unless the last owner has it. -/
def pointLast (l : Layout α) (i : Nat) : Option (Array UInt32) := do
  let last ← l.owners.size.psub 1
  if i = last then return l.sparse
  else
    let moved ← l.owners[last]?
    write? l.sparse moved.index.toNat i.toUInt32

/-- Detaches the value of an owner and gives it.  The entry of the owner is cleared, and then the
last pair moves into the gap. -/
def remove (l : Layout α) (e : Entity) : Option (Option α × Layout α) := do
  match ← l.position? e with
  | none => return (none, l)
  | some i =>
    let cleared ← write? l.sparse e.index.toNat vacant
    let sparse ← pointLast { l with sparse := cleared } i
    let (_, owners) ← swapRemove? l.owners i
    let (v, values) ← swapRemove? l.values i
    return (some v, { sparse, owners, values })

/-- The value of an owner. -/
def get (l : Layout α) (e : Entity) : Option (Option α) := do
  match ← l.position? e with
  | some i =>
    let v ← l.values[i]?
    return some v
  | none => return none

/-- Changes the value of an owner, and gives the one before. -/
def modify (l : Layout α) (e : Entity) (f : α → α) : Option (Option α × Layout α) := do
  match ← l.position? e with
  | some i =>
    let v ← l.values[i]?
    let values ← write? l.values i (f v)
    return (some v, { l with values })
  | none => return (none, l)

/-- The owners with their values, in order. -/
def toList (l : Layout α) : List (Entity × α) := l.owners.toList.zip l.values.toList

/-- The arrays determine each other.  An owner is found through its slot index, an entry that is
not vacant leads to the owner of its index, and a position is told from the vacant word. -/
structure Linked (l : Layout α) : Prop where
  /-- Every owner has a value. -/
  values_size : l.values.size = l.owners.size
  /-- The entry of an owner is its position, which is not the vacant word. -/
  entry_of_owner : ∀ (i : Nat) (o : Entity), l.owners[i]? = some o →
    ∃ w, l.sparse[o.index.toNat]? = some w ∧ w.toNat = i ∧ w ≠ vacant
  /-- An entry that is not vacant is the position of an owner of its index. -/
  owner_of_entry : ∀ (j : Nat) (w : UInt32), l.sparse[j]? = some w → w ≠ vacant →
    ∃ o, l.owners[w.toNat]? = some o ∧ o.index.toNat = j

end Layout

/-- What a request answers on the arrays, and the arrays that it leaves. -/
def Request.inMemory : (k : Request ε α) → Layout α → Option (k.Answer × Layout α)
  | .insert e v, l => l.insert e v
  | .insertOrReplace e v, l => l.insertOrReplace e v
  | .getOrInsert e make, l => l.getOrInsert e make
  | .remove e, l => l.remove e
  | .erase e, l => (l.remove e).map fun x => (x.1.isSome, x.2)
  | .get e, l => (l.get e).map fun x => (x, l)
  | .contains e, l => (l.position? e).map fun x => (x.isSome, l)
  | .modify e f, l => l.modify e f
  | .list, l => some (l.toList, l)
  | .modifyAll f, l => some (l.toList, { l with values := Array.zipWith f l.owners l.values })
  | .entities, l => some (l.owners.toList, l)
  | .size, l => some (l.owners.size, l)
  | .isEmpty, l => some (l.owners.isEmpty, l)

/-- The requests one after another, each with its answer, and the arrays that they leave. -/
def replayInMemory (l : Layout α) :
    List (Request ε α) → Option (List ((k : Request ε α) × k.Answer) × Layout α)
  | [] => some ([], l)
  | k :: ks => do
    let (answer, l) ← k.inMemory l
    let (answers, l) ← replayInMemory l ks
    return (⟨k, answer⟩ :: answers, l)

/-! ## The arrays of a pool -/

/-- The word of an entry of the sparse table. -/
def word : Option Nat → UInt32
  | none => Layout.vacant
  | some i => i.toUInt32

/-- A pool as it lies in memory. -/
def layout (p : Pool α) : Layout α := ⟨p.sparse.map word, p.owners, p.values⟩

@[simp]
theorem owners_layout {p : Pool α} : p.layout.owners = p.owners := rfl

@[simp]
theorem values_layout {p : Pool α} : p.layout.values = p.values := rfl

@[simp]
theorem sparse_layout {p : Pool α} : p.layout.sparse = p.sparse.map word := rfl

@[simp]
theorem word_none : word none = Layout.vacant := rfl

variable {p : Pool α} {e : Entity} {v : α} {i : Nat}

/-- A position that is less than the vacant word is read back from its word. -/
theorem toNat_word (hi : i < 0xffffffff) : (word (some i)).toNat = i :=
  UInt32.toNat_ofNat_of_lt' (Nat.lt_trans hi (by decide))

/-- As long as the arrays are shorter than the marker, no position reads as vacant. -/
theorem word_ne_vacant (hi : i < 0xffffffff) : word (some i) ≠ Layout.vacant := by
  intro heq
  have hnat := toNat_word hi
  rw [heq] at hnat
  exact Nat.lt_irrefl _ (hnat ▸ hi)

/-- In a pool with no more owners than there are words for them, every position has its word. -/
theorem lt_vacant_of_owner (hfew : p.size ≤ 0xffffffff) (hi : p.owners[i]? = some e) :
    i < 0xffffffff :=
  Nat.lt_of_lt_of_le (Array.getElem?_eq_some_iff.1 hi).1 hfew

/-- The arrays of a coherent pool keep the invariant of the memory layout. -/
theorem Coherent.linked (h : p.Coherent) (hfew : p.size ≤ 0xffffffff) : p.layout.Linked where
  values_size := h.values_size
  entry_of_owner i o ho := by
    have hi := lt_vacant_of_owner hfew ho
    have hs := (h.sparse_iff _ i).2 ⟨o, ho, rfl⟩
    exact ⟨word (some i), by rw [sparse_layout, Array.getElem?_map, hs, Option.map_some],
      toNat_word hi, word_ne_vacant hi⟩
  owner_of_entry j w hw hne := by
    rw [sparse_layout, Array.getElem?_map, Option.map_eq_some_iff] at hw
    obtain ⟨s, hs, rfl⟩ := hw
    cases s with
    | none => exact absurd word_none hne
    | some i =>
      obtain ⟨o, ho, hoj⟩ := (h.sparse_iff j i).1 hs
      rw [toNat_word (lt_vacant_of_owner hfew ho)]
      exact ⟨o, ho, hoj⟩

/-! ## Operations -/

/-- A lookup in the arrays stays in bounds and finds what the pool finds. -/
theorem Coherent.position?_layout (h : p.Coherent) (hfew : p.size ≤ 0xffffffff) (e : Entity) :
    p.layout.position? e = some (p.position? e) := by
  rw [Layout.position?, Pool.position?, held?, sparse_layout, Array.getElem?_map]
  cases hs : p.sparse[e.index.toNat]? with
  | none => rfl
  | some s =>
    cases s with
    | none => rfl
    | some i =>
      obtain ⟨o, ho, -⟩ := (h.sparse_iff _ _).1 hs
      have hi := lt_vacant_of_owner hfew ho
      simp [word_ne_vacant hi, toNat_word hi, ho, Option.filter]

/-- The sparse array grows as the sparse table does. -/
theorem grown_layout : p.layout.grown i = (p.grown i).map word := by
  rw [Layout.grown, grown, Array.map_append, Array.map_replicate, sparse_layout, Array.size_map,
    word_none]
  split
  · rfl
  · rw [Nat.sub_eq_zero_of_le (by omega), Array.replicate_zero, Array.append_empty]

/-- The entry of a slot index, once there is one, is the word of what the table holds. -/
theorem getElem?_grown_layout :
    (p.layout.grown e.index.toNat)[e.index.toNat]? = some (word (p.held? e)) := by
  rw [grown_layout, Array.getElem?_map, held?, grown, Array.getElem?_append]
  split
  · next hlt => rw [Array.getElem?_eq_getElem hlt, Option.map_some, Option.join_some]
  · next hge =>
    rw [Array.getElem?_replicate, if_pos (by omega), Array.getElem?_eq_none (by omega)]
    rfl

/-- The sparse array does not grow where it has an entry. -/
theorem grown_layout_of_held (hi : p.held? e = some i) :
    p.layout.grown e.index.toNat = p.layout.sparse := by
  have hlt := (Array.getElem?_eq_some_iff.1 (held?_eq_some_iff.1 hi)).1
  rw [Layout.grown, if_neg (by simpa using hlt)]

/-- A push stays in bounds, leaves what an attachment leaves, and tells the position of the pair. -/
theorem Coherent.push_layout (h : p.Coherent) (hfew : p.size < 0xffffffff) (e : Entity) (v : α) :
    ∃ i, p.layout.push e v = some (i, (p.insert e v).layout) ∧
      (p.insert e v).values[i]? = some v := by
  cases hheld : p.held? e with
  | some i =>
    obtain ⟨o, ho, -⟩ := h.held?_iff.1 hheld
    have hi := lt_vacant_of_owner (Nat.le_of_lt hfew) ho
    have hlt : i < p.owners.size := (Array.getElem?_eq_some_iff.1 ho).1
    have hlt' : i < p.values.size := h.values_size ▸ hlt
    have hentry := getElem?_grown_layout (p := p) (e := e)
    rw [grown_layout_of_held hheld, hheld] at hentry
    rw [Layout.push, grown_layout_of_held hheld, hentry, insert_of_held hheld]
    refine ⟨i, ?_, by simp [hlt']⟩
    simp [word_ne_vacant hi, toNat_word hi, hlt, hlt', write?_of_lt, layout]
  | none =>
    have hsize : e.index.toNat < ((p.grown e.index.toNat).map word).size := by
      rw [Array.size_map]
      exact size_grown
    rw [Layout.push, getElem?_grown_layout, hheld, insert_of_not_held hheld, grown_layout]
    refine ⟨p.owners.size, ?_, by simp [← h.values_size]⟩
    simp only [word_none, if_true, write?_of_lt hsize, Option.bind_eq_bind, Option.bind_some,
      Option.pure_def, layout, Array.map_setIfInBounds]
    rfl

/-- Where an owner leaves, its entry is cleared before the last owner is pointed into the gap.  In
the pool the order is the other, and the tables agree also where the last owner is the one that
leaves. -/
theorem Coherent.pointLast_layout (h : p.Coherent) {last : Entity} (hi : p.owners[i]? = some e)
    (hlast : p.owners[p.owners.size - 1]? = some last) :
    Layout.pointLast
        ⟨p.layout.sparse.setIfInBounds e.index.toNat Layout.vacant, p.owners, p.values⟩ i =
      some (((p.sparse.setIfInBounds last.index.toNat (some i)).setIfInBounds
        e.index.toNat none).map word) := by
  have hpred : p.owners.size.psub 1 = some (p.owners.size - 1) :=
    Nat.psub_eq_sub (Nat.one_le_of_lt (Array.getElem?_eq_some_iff.1 hi).1)
  simp only [Layout.pointLast, hpred, Option.bind_eq_bind, Option.bind_some, hlast]
  rw [sparse_layout, ← word_none, ← Array.map_setIfInBounds]
  split
  · next hil =>
    rw [← hil, hi, Option.some.injEq] at hlast
    rw [hlast, Array.setIfInBounds_setIfInBounds]
    rfl
  · next hil =>
    have hne : last.index.toNat ≠ e.index.toNat := fun hix =>
      hil (h.position_unique hi hlast (UInt32.toNat_inj.1 hix.symm))
    have hentry := (h.sparse_iff _ _).2 ⟨last, hlast, rfl⟩
    rw [write?_of_lt (by simpa using (Array.getElem?_eq_some_iff.1 hentry).1),
      Array.setIfInBounds_comm _ _ hne, Array.map_setIfInBounds (i := last.index.toNat)]
    rfl

/-- A detachment stays in bounds, gives the value, and leaves what it leaves of the pool. -/
theorem Coherent.remove_layout (h : p.Coherent) (hfew : p.size ≤ 0xffffffff) (e : Entity) :
    p.layout.remove e = some (p.get? e, (p.erase e).layout) := by
  rw [Layout.remove, h.position?_layout hfew, get?]
  cases hpos : p.position? e with
  | none =>
    rw [erase_of_position?_eq_none hpos]
    rfl
  | some i =>
    have hi := h.position?_eq_some_iff.1 hpos
    obtain ⟨v, hv⟩ := h.exists_value hi
    obtain ⟨last, hlast, heq⟩ := h.erase_of_position? hi
    have hentry := (h.sparse_iff _ _).2 ⟨e, hi, rfl⟩
    have hlt : e.index.toNat < p.layout.sparse.size := by
      simpa using (Array.getElem?_eq_some_iff.1 hentry).1
    have hpoint := h.pointLast_layout hi hlast
    simp only [Option.bind_eq_bind, Option.bind_some, owners_layout, values_layout,
      write?_of_lt hlt, Option.pure_def, hpoint, swapRemove?_of_getElem? hi,
      swapRemove?_of_getElem? hv, hv, heq]
    rfl

/-- To attach a value to its owner again is to overwrite the one that is there. -/
theorem Coherent.insert_of_position? (h : p.Coherent) (hpos : p.position? e = some i) :
    p.insert e v = { p with values := p.values.setIfInBounds i v } := by
  have hi := h.position?_eq_some_iff.1 hpos
  have hset : p.owners.setIfInBounds i e = p.owners := by
    obtain ⟨hlt, rfl⟩ := Array.getElem?_eq_some_iff.1 hi
    simp [Array.setIfInBounds, hlt]
  rw [insert_of_held (h.held?_iff.2 ⟨e, hi, rfl⟩), hset]

theorem Coherent.value_of_position? (h : p.Coherent) (hpos : p.position? e = some i) :
    ∃ v, p.values[i]? = some v ∧ i < p.values.size := by
  obtain ⟨v, hv⟩ := h.exists_value (h.position?_eq_some_iff.1 hpos)
  exact ⟨v, hv, (Array.getElem?_eq_some_iff.1 hv).1⟩

/-- A read stays in bounds and finds what the pool holds. -/
theorem Coherent.get_layout (h : p.Coherent) (hfew : p.size ≤ 0xffffffff) (e : Entity) :
    p.layout.get e = some (p.get? e) := by
  rw [Layout.get, h.position?_layout hfew, get?]
  cases hpos : p.position? e with
  | some i =>
    obtain ⟨v, hv, -⟩ := h.value_of_position? hpos
    simp [hv]
  | none => rfl

/-- A write in place stays in bounds and ends with the arrays of the pool written to. -/
theorem Coherent.modify_layout (h : p.Coherent) (hfew : p.size ≤ 0xffffffff) (e : Entity)
    (f : α → α) : p.layout.modify e f = some (p.get? e, (p.modify e f).layout) := by
  rw [Layout.modify, h.position?_layout hfew, get?]
  cases hpos : p.position? e with
  | some i =>
    obtain ⟨v, hv, hlt⟩ := h.value_of_position? hpos
    rw [modify_of_position? hpos]
    have hset : p.values.modify i f = p.values.setIfInBounds i (f v) := by
      refine Array.ext (by simp) fun k hk _ => ?_
      have hk' : k < p.values.size := by simpa using hk
      rw [Array.getElem_modify, Array.getElem_setIfInBounds hk']
      split
      · next hik =>
        subst hik
        rw [Array.getElem?_eq_getElem hk', Option.some.injEq] at hv
        rw [hv]
      · rfl
    simp [hv, write?_of_lt hlt, hset, layout]
  | none =>
    rw [modify_of_position?_eq_none hpos]
    rfl

/-- An insertion stays in bounds, also where it evicts the value of another entity. -/
theorem Coherent.insert_layout (h : p.Coherent) (hfew : p.size < 0xffffffff) (e : Entity) (v : α) :
    p.layout.insert e v = some (p.get? e, (p.insert e v).layout) := by
  rw [Layout.insert, h.position?_layout (Nat.le_of_lt hfew), get?]
  cases hpos : p.position? e with
  | some i =>
    obtain ⟨old, hold, hlt⟩ := h.value_of_position? hpos
    rw [h.insert_of_position? hpos]
    simp [hold, write?_of_lt hlt, layout]
  | none =>
    obtain ⟨i, hpush, -⟩ := h.push_layout hfew e v
    simp [hpush]

theorem Coherent.insertOrReplace_layout (h : p.Coherent) (hfew : p.size < 0xffffffff) (e : Entity)
    (v : α) : p.layout.insertOrReplace e v = some (some v, (p.insert e v).layout) := by
  rw [Layout.insertOrReplace, h.position?_layout (Nat.le_of_lt hfew)]
  cases hpos : p.position? e with
  | some i =>
    obtain ⟨-, -, hlt⟩ := h.value_of_position? hpos
    rw [h.insert_of_position? hpos]
    simp [write?_of_lt hlt, hlt, layout]
  | none =>
    obtain ⟨i, hpush, hi⟩ := h.push_layout hfew e v
    simp [hpush, hi]

theorem Coherent.getOrInsert_layout (h : p.Coherent) (hfew : p.size < 0xffffffff) (e : Entity)
    (make : Unit → Except ε α) :
    p.layout.getOrInsert e make =
      some ((p.getOrInsert e make).1, (p.getOrInsert e make).2.layout) := by
  rw [Layout.getOrInsert, h.position?_layout (Nat.le_of_lt hfew), getOrInsert, get?]
  cases hpos : p.position? e with
  | some i =>
    obtain ⟨v, hv, -⟩ := h.value_of_position? hpos
    simp [hv]
  | none =>
    cases hmade : make () with
    | error f => simp
    | ok v =>
      obtain ⟨i, hpush, hi⟩ := h.push_layout hfew e v
      simp [hpush, hi]

/-! ## Requests -/

/-- With fewer owners than there are words for them, a request stays in bounds on the arrays of a
pool, and it answers and leaves what it answers and leaves on the pool. -/
theorem Coherent.inMemory_eq (h : p.Coherent) (hfew : p.size < 0xffffffff) (k : Request ε α) :
    k.inMemory p.layout = some ((k.run p).1, (k.run p).2.layout) := by
  have hle := Nat.le_of_lt hfew
  cases k with
  | insert e v => exact h.insert_layout hfew e v
  | insertOrReplace e v =>
    rw [Request.inMemory, h.insertOrReplace_layout hfew, Request.run, h.get?_insert_self]
    rfl
  | getOrInsert e make => exact h.getOrInsert_layout hfew e make
  | remove e => exact h.remove_layout hle e
  | erase e =>
    rw [Request.inMemory, h.remove_layout hle]
    rfl
  | get e =>
    rw [Request.inMemory, h.get_layout hle]
    rfl
  | contains e =>
    rw [Request.inMemory, h.position?_layout hle]
    rfl
  | modify e f => exact h.modify_layout hle e f
  | list | modifyAll f | entities | size | isEmpty => rfl

/-- A pool grows by one place at a time. -/
theorem size_insert_le : (p.insert e v).size ≤ p.size + 1 := by
  cases hheld : p.held? e with
  | some i => simp [insert_of_held hheld, size]
  | none => simp [insert_of_not_held hheld, size]

theorem size_erase_le : (p.erase e).size ≤ p.size := by
  rw [erase]
  split
  · simp [size, size_swapRemove]
  · exact Nat.le_refl _

theorem size_modify (f : α → α) : (p.modify e f).size = p.size := by
  rw [modify]
  split <;> rfl

/-- A request adds at most one owner. -/
theorem size_run_le (k : Request ε α) : (k.run p).2.size ≤ p.size + 1 := by
  cases k with
  | insert e v | insertOrReplace e v => exact size_insert_le
  | getOrInsert e make =>
    rw [Request.run, getOrInsert]
    split
    · exact Nat.le_succ _
    · split
      · exact size_insert_le
      · exact Nat.le_succ _
  | remove e | erase e => exact Nat.le_succ_of_le size_erase_le
  | modify e f => exact Nat.le_succ_of_le (Nat.le_of_eq (size_modify f))
  | get e | contains e | list | modifyAll f | entities | size | isEmpty => exact Nat.le_succ _

/-- So a pool has at most one owner for each request. -/
theorem size_replay_le (ks : List (Request ε α)) :
    (p.replay ks).2.size ≤ p.size + ks.length := by
  induction ks generalizing p with
  | nil => exact Nat.le_refl _
  | cons k ks ih =>
    calc ((k.run p).2.replay ks).2.size
      _ ≤ (k.run p).2.size + ks.length := ih
      _ ≤ p.size + 1 + ks.length := Nat.add_le_add_right (size_run_le k) _
      _ = p.size + (ks.length + 1) := by omega

/-- The arrays of the empty pool are empty. -/
theorem layout_empty : ({} : Pool α).layout = {} := by
  simp [layout]

/-- As long as the pool stays below the marker, every access of a replay is in bounds, and the
answers and the arrays are those of the pool. -/
theorem Coherent.replayInMemory_eq (h : p.Coherent) (ks : List (Request ε α))
    (hfew : ∀ js, js <+: ks → (p.replay js).2.size < 0xffffffff) :
    replayInMemory p.layout ks = some ((p.replay ks).1, (p.replay ks).2.layout) := by
  induction ks generalizing p with
  | nil => rfl
  | cons k ks ih =>
    obtain ⟨-, -, hcoh⟩ := h.run_eq k
    have hrest := ih hcoh fun js hjs => hfew (k :: js) (List.cons_prefix_cons.2 ⟨rfl, hjs⟩)
    rw [replayInMemory, h.inMemory_eq (hfew [] List.nil_prefix)]
    simp [hrest, replay]

/-- A pool that starts empty and never has as many owners as there are words for them answers all
requests from its arrays, without an access that is out of bounds, and leaves them linked: the
positions and the owners determine each other, and no position is the vacant word. -/
theorem replay_inMemory (ks : List (Request ε α))
    (hfew : ∀ js, js <+: ks → (({} : Pool α).replay js).2.size < 0xffffffff) :
    replayInMemory {} ks =
        some ((({} : Pool α).replay ks).1, (({} : Pool α).replay ks).2.layout) ∧
      (({} : Pool α).replay ks).2.layout.Linked := by
  obtain ⟨-, -, hcoh⟩ := coherent_empty.replay_eq (α := α) ks
  have hreplay := coherent_empty.replayInMemory_eq ks hfew
  rw [layout_empty] at hreplay
  exact ⟨hreplay, hcoh.linked (Nat.le_of_lt (hfew ks (List.prefix_refl ks)))⟩

/-- A run in which a handle is put out by another generation, a lookup of the old handle finds
nothing, the first of three pairs is removed, and then the last one. -/
theorem replay_inMemory_evict_remove :
    let ks : List (Request Empty Nat) :=
      [.insert ⟨2, 0⟩ 10, .insert ⟨0, 0⟩ 20, .insert ⟨2, 1⟩ 30, .remove ⟨2, 0⟩,
        .insert ⟨1, 5⟩ 40, .remove ⟨2, 1⟩, .remove ⟨0, 0⟩]
    (∀ js, js <+: ks → (({} : Pool Nat).replay js).2.size < 0xffffffff) ∧
      ∃ answers l, replayInMemory {} ks = some (answers, l) ∧ l.Linked ∧
        l.sparse = #[Layout.vacant, 0, Layout.vacant] ∧ l.owners = #[⟨1, 5⟩] ∧
        l.values = #[40] := by
  intro ks
  have hfew : ∀ js, js <+: ks → (({} : Pool Nat).replay js).2.size < 0xffffffff := by
    intro js hjs
    calc (({} : Pool Nat).replay js).2.size
      _ ≤ 0 + js.length := size_replay_le js
      _ ≤ 0 + 7 := Nat.add_le_add_left hjs.length_le 0
      _ < 0xffffffff := by decide
  obtain ⟨hreplay, hlinked⟩ := replay_inMemory ks hfew
  exact ⟨hfew, _, _, hreplay, hlinked, by decide +kernel, by decide, by decide⟩

end Pool

end EntityStore
