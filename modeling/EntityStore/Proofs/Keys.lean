import EntityStore.Table
import Mathlib.Data.List.Nodup

/-!
# The keys of a table

A table is entered under each key at most once, so the list of its entries and its lookup say the
same (`Table.mem_entries_iff`).  The operations that keep an entry in its place keep the list of
keys.
-/

namespace EntityStore.Table

variable {K : Type} {F : K → Type} {t : Table K F} {k : K} {v : F k}

theorem keys_map (f : (k : K) → F k → F k) : (t.map f).keys = t.keys := by
  simp [keys, Table.map]

variable [DecidableEq K]

/-- What is found under a key stands in the list. -/
theorem mem_of_find? {l : List (Sigma F)} (h : find? l k = some v) : ⟨k, v⟩ ∈ l := by
  induction l with
  | nil => simp [find?] at h
  | cons x rest ih =>
    unfold find? at h
    split at h
    · next hk =>
      subst hk
      cases h
      exact List.mem_cons_self
    · exact List.mem_cons_of_mem _ (ih h)

/-- Where no key comes twice, every entry is found under its key. -/
theorem find?_of_mem {l : List (Sigma F)} (hn : (l.map Sigma.fst).Nodup) (h : ⟨k, v⟩ ∈ l) :
    find? l k = some v := by
  induction l with
  | nil => simp at h
  | cons x rest ih =>
    obtain ⟨j, w⟩ := x
    rw [List.map_cons, List.nodup_cons] at hn
    rcases List.mem_cons.1 h with heq | hrest
    · cases heq
      simp [find?]
    · have hjk : j ≠ k := by
        rintro rfl
        exact hn.1 (List.mem_map.2 ⟨_, hrest, rfl⟩)
      simp only [find?, hjk, dif_neg, not_false_eq_true]
      exact ih hn.2 hrest

/-- A lookup finds exactly what is entered. -/
theorem mem_entries_iff (hn : t.keys.Nodup) : ⟨k, v⟩ ∈ t.entries ↔ t.get? k = some v :=
  ⟨find?_of_mem hn, mem_of_find?⟩

theorem contains_iff_exists : t.contains k = true ↔ ∃ v, t.get? k = some v := by
  rw [contains, Option.isSome_iff_exists]

theorem contains_eq_false_iff : t.contains k = false ↔ t.get? k = none := by
  rw [contains, Option.isSome_eq_false_iff, Option.isNone_iff_eq_none]

theorem find?_isSome_iff (l : List (Sigma F)) :
    (find? l k).isSome = true ↔ k ∈ l.map Sigma.fst := by
  induction l with
  | nil => simp [find?]
  | cons x rest ih =>
    unfold find?
    split
    · next hk => simp [hk]
    · next hk =>
      rw [ih, List.map_cons, List.mem_cons]
      simp [Ne.symm hk]

theorem contains_iff_mem_keys : t.contains k = true ↔ k ∈ t.keys := find?_isSome_iff t.entries

/-! ## Operations -/

theorem map_fst_update (f : F k → F k) (l : List (Sigma F)) :
    (update k f l).map Sigma.fst = l.map Sigma.fst := by
  induction l with
  | nil => rfl
  | cons x rest ih =>
    unfold update
    split
    · next hk =>
      obtain ⟨j, w⟩ := x
      cases hk
      rfl
    · rw [List.map_cons, List.map_cons, ih]

theorem keys_modify (f : F k → F k) : (t.modify k f).keys = t.keys := map_fst_update f t.entries

theorem contains_modify {j : K} (f : F k → F k) : (t.modify k f).contains j = t.contains j := by
  rw [Bool.eq_iff_iff, contains_iff_mem_keys, contains_iff_mem_keys, keys_modify]

theorem map_fst_put {l : List (Sigma F)} (hk : k ∉ l.map Sigma.fst) :
    (put k v l).map Sigma.fst = l.map Sigma.fst ++ [k] := by
  induction l with
  | nil => rfl
  | cons x rest ih =>
    rw [List.map_cons, List.mem_cons, not_or] at hk
    unfold put
    rw [if_neg (Ne.symm hk.1), List.map_cons, List.map_cons, ih hk.2, List.cons_append]

theorem keys_insert (hk : t.contains k = false) : (t.insert k v).keys = t.keys ++ [k] := by
  refine map_fst_put fun hmem => ?_
  have := contains_iff_mem_keys.2 hmem
  simp [hk] at this

theorem nodup_keys_insert (hn : t.keys.Nodup) (hk : t.contains k = false) :
    (t.insert k v).keys.Nodup := by
  rw [keys_insert hk, List.nodup_append]
  refine ⟨hn, by simp, ?_⟩
  rintro j hj _ hjk rfl
  rw [List.mem_singleton] at hjk
  rw [hjk, ← contains_iff_mem_keys, hk] at hj
  simp at hj

theorem map_fst_put_of_mem {l : List (Sigma F)} (hk : k ∈ l.map Sigma.fst) :
    (put k v l).map Sigma.fst = l.map Sigma.fst := by
  induction l with
  | nil => simp at hk
  | cons x rest ih =>
    unfold put
    split
    · next hx => rw [List.map_cons, List.map_cons, hx]
    · next hx =>
      rw [List.map_cons, List.mem_cons] at hk
      rw [List.map_cons, List.map_cons, ih (hk.resolve_left (Ne.symm hx))]

/-- A key that is there already keeps its place. -/
theorem keys_insert_of_contains (hk : t.contains k = true) : (t.insert k v).keys = t.keys :=
  map_fst_put_of_mem (contains_iff_mem_keys.1 hk)

theorem nodup_keys_insert_any (hn : t.keys.Nodup) : (t.insert k v).keys.Nodup := by
  cases hk : t.contains k with
  | true => rwa [keys_insert_of_contains hk]
  | false => exact nodup_keys_insert hn hk

theorem nodup_keys_erase (hn : t.keys.Nodup) : (t.erase k).keys.Nodup :=
  hn.sublist (List.filter_sublist.map _)

end EntityStore.Table
