/-!
# Tables

A table holds at most one entry under each key, in the order in which the keys were first entered.
The type of an entry may depend on its key, so one table can hold the pools of all components
although their values differ in type.

Everything is said of the one view `Table.get?`.  Its laws hold of every table, whether or not its
list repeats a key: a lookup finds the first entry, a change is made where a lookup finds it, and
an erasure leaves none.
-/

namespace EntityStore

/-- Entries under distinct keys, oldest key first. -/
structure Table (K : Type) (F : K → Type) where
  /-- The entries. -/
  entries : List (Sigma F) := []

namespace Table

variable {K : Type} {F : K → Type}

/-- The keys, oldest first. -/
def keys (t : Table K F) : List K := t.entries.map Sigma.fst

/-- The number of entries. -/
def size (t : Table K F) : Nat := t.entries.length

/-- Changes every entry. -/
def map (t : Table K F) (f : (k : K) → F k → F k) : Table K F :=
  ⟨t.entries.map fun ⟨k, v⟩ => ⟨k, f k v⟩⟩

/-- Whether all entries pass a test. -/
def all (t : Table K F) (p : (k : K) → F k → Bool) : Bool := t.entries.all fun ⟨k, v⟩ => p k v

variable [DecidableEq K]

/-! ## Operations on lists of entries -/

/-- The first entry under a key. -/
def find? : List (Sigma F) → (k : K) → Option (F k)
  | [], _ => none
  | ⟨k', v⟩ :: rest, k => if h : k' = k then some (h ▸ v) else find? rest k

/-- Enters a value in the place of the first entry under its key, or else at the end. -/
def put (k : K) (v : F k) : List (Sigma F) → List (Sigma F)
  | [] => [⟨k, v⟩]
  | ⟨k', v'⟩ :: rest => if k' = k then ⟨k, v⟩ :: rest else ⟨k', v'⟩ :: put k v rest

/-- Changes the first entry under a key. -/
def update (k : K) (f : F k → F k) : List (Sigma F) → List (Sigma F)
  | [] => []
  | ⟨k', v⟩ :: rest =>
    if h : k' = k then ⟨k, f (h ▸ v)⟩ :: rest else ⟨k', v⟩ :: update k f rest

/-! ## Operations on tables -/

/-- The entry under a key. -/
def get? (t : Table K F) (k : K) : Option (F k) := find? t.entries k

/-- Whether there is an entry under a key. -/
def contains (t : Table K F) (k : K) : Bool := (t.get? k).isSome

/-- Enters a value under a key, in the place of any entry there. -/
def insert (t : Table K F) (k : K) (v : F k) : Table K F := ⟨put k v t.entries⟩

/-- Enters a value under a key that has no entry. -/
def insertIfNew (t : Table K F) (k : K) (v : F k) : Table K F :=
  if t.contains k then t else t.insert k v

/-- Changes the entry under a key, if there is one. -/
def modify (t : Table K F) (k : K) (f : F k → F k) : Table K F := ⟨update k f t.entries⟩

/-- Removes the entry under a key. -/
def erase (t : Table K F) (k : K) : Table K F := ⟨t.entries.filter fun x => x.fst ≠ k⟩

/-! ## The view -/

@[simp] theorem get?_empty (k : K) : ({} : Table K F).get? k = none := rfl

theorem find?_put_self (k : K) (v : F k) (l : List (Sigma F)) :
    find? (put k v l) k = some v := by
  induction l with
  | nil => simp [put, find?]
  | cons x rest ih =>
    unfold put
    split <;> simp_all [find?]

theorem find?_put_of_ne {k j : K} (h : k ≠ j) (v : F k) (l : List (Sigma F)) :
    find? (put k v l) j = find? l j := by
  induction l with
  | nil => simp [put, find?, h]
  | cons x rest ih =>
    unfold put
    split
    · next hk => subst hk; simp [find?, h]
    · simp only [find?, ih]

theorem find?_update_self (k : K) (f : F k → F k) (l : List (Sigma F)) :
    find? (update k f l) k = (find? l k).map f := by
  induction l with
  | nil => rfl
  | cons x rest ih =>
    unfold update
    split
    · next hk => subst hk; simp [find?]
    · simp_all [find?]

theorem find?_update_of_ne {k j : K} (h : k ≠ j) (f : F k → F k) (l : List (Sigma F)) :
    find? (update k f l) j = find? l j := by
  induction l with
  | nil => rfl
  | cons x rest ih =>
    unfold update
    split
    · next hk => subst hk; simp [find?, h]
    · simp only [find?, ih]

theorem find?_filter_self (k : K) (l : List (Sigma F)) :
    find? (l.filter fun x => x.fst ≠ k) k = none := by
  induction l with
  | nil => rfl
  | cons x rest ih =>
    by_cases h : x.fst = k
    · simpa [h] using ih
    · simpa [h, find?] using ih

theorem find?_filter_of_ne {k j : K} (h : k ≠ j) (l : List (Sigma F)) :
    find? (l.filter fun x => x.fst ≠ k) j = find? l j := by
  induction l with
  | nil => rfl
  | cons x rest ih =>
    by_cases hx : x.fst = k
    · simpa [hx, find?, h] using ih
    · rw [List.filter_cons_of_pos (by simpa using hx)]
      simp only [find?, ih]

theorem find?_map (f : (k : K) → F k → F k) (k : K) (l : List (Sigma F)) :
    find? (l.map fun x => ⟨x.fst, f x.fst x.snd⟩) k = (find? l k).map (f k) := by
  induction l with
  | nil => rfl
  | cons x rest ih =>
    simp only [List.map_cons, find?]
    split
    · next hk => subst hk; simp
    · exact ih

@[simp] theorem get?_insert_self (t : Table K F) (k : K) (v : F k) :
    (t.insert k v).get? k = some v := find?_put_self k v t.entries

theorem get?_insert_of_ne (t : Table K F) {k j : K} (h : k ≠ j) (v : F k) :
    (t.insert k v).get? j = t.get? j := find?_put_of_ne h v t.entries

@[simp] theorem get?_modify_self (t : Table K F) (k : K) (f : F k → F k) :
    (t.modify k f).get? k = (t.get? k).map f := find?_update_self k f t.entries

theorem get?_modify_of_ne (t : Table K F) {k j : K} (h : k ≠ j) (f : F k → F k) :
    (t.modify k f).get? j = t.get? j := find?_update_of_ne h f t.entries

@[simp] theorem get?_erase_self (t : Table K F) (k : K) : (t.erase k).get? k = none :=
  find?_filter_self k t.entries

theorem get?_erase_of_ne (t : Table K F) {k j : K} (h : k ≠ j) :
    (t.erase k).get? j = t.get? j := find?_filter_of_ne h t.entries

@[simp] theorem get?_map (t : Table K F) (f : (k : K) → F k → F k) (k : K) :
    (t.map f).get? k = (t.get? k).map (f k) := find?_map f k t.entries

theorem get?_insertIfNew_self (t : Table K F) (k : K) (v : F k) :
    (t.insertIfNew k v).get? k = some ((t.get? k).getD v) := by
  unfold insertIfNew contains
  split
  · next h =>
    obtain ⟨w, hw⟩ := Option.isSome_iff_exists.1 h
    simp [hw]
  · next h => simp_all

theorem get?_insertIfNew_of_ne (t : Table K F) {k j : K} (h : k ≠ j) (v : F k) :
    (t.insertIfNew k v).get? j = t.get? j := by
  unfold insertIfNew
  split
  · rfl
  · exact get?_insert_of_ne t h v

end Table

end EntityStore
