import EntityStore.Entity
import Mathlib.Algebra.Group.Nat.Defs
import Mathlib.Data.List.Sort
import Mathlib.Data.Prod.Lex

/-!
# Handles as words, as text and in order

A handle is shown in three ways, and none of them loses anything.

*Words.*  Every 64-bit word packs one handle, since index and generation fill its two halves
(`ofBits_toBits`, `toBits_ofBits`).

*Text.*  A handle other than the null handle reads as two numerals with the letter `v` between them.
A numeral has only digits, so the letter says where the first numeral ends, and numerals of
different numbers differ.  The word `null` has no such letter, so no other handle reads like the
null handle, not even by its own two numbers.

*Order.*  Handles are ordered as the pairs of their index and their generation (`rank`), which is a
total order.  So a list of handles has just one ascending order, and `Entity.sort` finds it.
-/

namespace EntityStore.Entity

variable {e f g : Entity}

/-! ## Words -/

/-- The generation fills the high half of the word, the slot the low half. -/
theorem toNat_toBits (e : Entity) :
    e.toBits.toNat = e.generation.toNat * 2 ^ 32 + e.index.toNat := by
  have hindex := e.index.toNat_lt
  have hgeneration := e.generation.toNat_lt
  have hshift : (32 : UInt64).toNat % 64 = 32 := rfl
  rw [toBits, UInt64.toNat_or, UInt64.toNat_shiftLeft, UInt32.toNat_toUInt64,
    UInt32.toNat_toUInt64, hshift, Nat.mod_eq_of_lt (by rw [Nat.shiftLeft_eq]; omega),
    ← Nat.shiftLeft_add_eq_or_of_lt hindex, Nat.shiftLeft_eq]

theorem toNat_index_ofBits (w : UInt64) : (ofBits w).index.toNat = w.toNat % 2 ^ 32 :=
  UInt64.toNat_toUInt32 w

theorem toNat_generation_ofBits (w : UInt64) :
    (ofBits w).generation.toNat = w.toNat / 2 ^ 32 := by
  have hword := w.toNat_lt
  have hshift : (32 : UInt64).toNat % 64 = 32 := rfl
  rw [ofBits, UInt64.toNat_toUInt32, UInt64.toNat_shiftRight, hshift, Nat.shiftRight_eq_div_pow,
    Nat.mod_eq_of_lt (by omega)]

/-- Handles with the same two numbers are the same. -/
theorem eq_of_toNat (hi : e.index.toNat = f.index.toNat)
    (hg : e.generation.toNat = f.generation.toNat) : e = f := by
  cases e
  cases f
  rw [mk.injEq]
  exact ⟨UInt32.toNat_inj.1 hi, UInt32.toNat_inj.1 hg⟩

/-- No handle is lost in its word. -/
theorem ofBits_toBits (e : Entity) : ofBits e.toBits = e := by
  have hindex := e.index.toNat_lt
  refine eq_of_toNat ?_ ?_
  · rw [toNat_index_ofBits, toNat_toBits]
    omega
  · rw [toNat_generation_ofBits, toNat_toBits]
    omega

/-- Every word is the word of a handle. -/
theorem toBits_ofBits (w : UInt64) : (ofBits w).toBits = w := by
  rw [← UInt64.toNat_inj, toNat_toBits, toNat_index_ofBits, toNat_generation_ofBits]
  exact Nat.div_add_mod' w.toNat (2 ^ 32)

theorem bijective_toBits : Function.Bijective toBits :=
  ⟨Function.LeftInverse.injective ofBits_toBits, Function.RightInverse.surjective toBits_ofBits⟩

/-! ## Text -/

/-- The letter between the numbers is no digit. -/
theorem not_mem_numeral (n : Nat) : 'v' ∉ (toString n).toList := by
  rw [Nat.toString_eq_repr, Nat.toList_repr]
  intro hv
  have hdigit := Nat.isDigit_of_mem_toDigits (by decide) (by decide) hv
  simp at hdigit

theorem toList_display (he : e ≠ null) : e.display.toList =
    (toString e.index.toNat).toList ++ 'v' :: (toString e.generation.toNat).toList := by
  rw [display, if_neg (mt isNull_iff.1 he), String.toList_append, String.toList_append,
    List.append_assoc]
  rfl

theorem display_null : null.display = "null" := rfl

/-- No handle but the null one is shown as null, whatever its numbers are. -/
theorem display_eq_null_iff : e.display = "null" ↔ e = null := by
  constructor
  · intro hnull
    by_contra he
    have hmem : 'v' ∈ e.display.toList := by
      rw [toList_display he]
      exact List.mem_append_right _ List.mem_cons_self
    rw [hnull] at hmem
    exact absurd hmem (by decide)
  · rintro rfl
    exact display_null

/-- A numeral can be read back. -/
theorem eq_of_numeral_eq {m n : Nat} (h : toString m = toString n) : m = n := by
  have hdigits : Nat.toDigits 10 m = Nat.toDigits 10 n := by
    simpa only [Nat.toString_eq_repr, Nat.toList_repr] using congrArg String.toList h
  calc m = Nat.ofDigitChars 10 (Nat.toDigits 10 m) 0 := Nat.ofDigitChars_ten_toDigits.symm
    _ = Nat.ofDigitChars 10 (Nat.toDigits 10 n) 0 := by rw [hdigits]
    _ = n := Nat.ofDigitChars_ten_toDigits

/-- The letter cuts the text of a handle into its two numerals. -/
theorem eq_of_display_eq (he : e ≠ null) (hf : f ≠ null) (h : e.display = f.display) : e = f := by
  rw [← String.toList_inj, toList_display he, toList_display hf,
    List.append_cons_inj_of_notMem (not_mem_numeral _) (not_mem_numeral _), String.toList_inj,
    String.toList_inj] at h
  exact eq_of_toNat (eq_of_numeral_eq h.1) (eq_of_numeral_eq h.2.2)

/-- Two handles that are shown alike are one handle. -/
theorem display_injective : Function.Injective display := by
  intro e f h
  by_cases he : e = null
  · subst he
    exact (display_eq_null_iff.1 h.symm).symm
  · by_cases hf : f = null
    · subst hf
      exact display_eq_null_iff.1 h
    · exact eq_of_display_eq he hf h

/-- The brackets around the short form hide nothing. -/
theorem debug_eq_debug_iff : e.debug = f.debug ↔ e.display = f.display := by
  rw [debug, debug, ← String.toList_inj, ← String.toList_inj]
  simp only [String.toList_append, List.append_left_inj, List.append_right_inj]

theorem debug_injective : Function.Injective debug :=
  fun _ _ h => display_injective (debug_eq_debug_iff.1 h)

theorem debug_eq_null_iff : e.debug = "Entity(null)" ↔ e = null :=
  debug_injective.eq_iff (b := null)

/-! ## Order -/

/-- The index with the generation, as a pair that is ordered by its first part first. -/
def rank (e : Entity) : Nat ×ₗ Nat := toLex (e.index.toNat, e.generation.toNat)

/-- The rank tells all handles apart, the null one included. -/
theorem rank_injective : Function.Injective rank := by
  intro e f h
  rw [rank, rank, toLex_inj, Prod.mk.injEq] at h
  exact eq_of_toNat h.1 h.2

/-- Handles compare as their ranks do. -/
theorem compare_eq_compare_rank (e f : Entity) : compare e f = compare e.rank f.rank := by
  change (compare e.index f.index).then (compare e.generation f.generation) = _
  rw [UInt32.compare_eq_toNat_compare_toNat, UInt32.compare_eq_toNat_compare_toNat,
    Prod.Lex.compare_def]
  rfl

/-- The order of handles is that of their ranks. -/
theorem lt_iff_rank : e < f ↔ e.rank < f.rank := by
  change compare e f = .lt ↔ _
  rw [compare_eq_compare_rank, compare_lt_iff_lt]

theorem le_iff_rank : e ≤ f ↔ e.rank ≤ f.rank := by
  change (compare e f).isLE = true ↔ _
  rw [compare_eq_compare_rank, Ordering.isLE_iff_ne_gt]
  exact compare_le_iff_le

theorem le_iff_lt_or_same : e ≤ f ↔ e < f ∨ e = f := by
  rw [le_iff_rank, lt_iff_rank, le_iff_lt_or_eq, rank_injective.eq_iff]

/-- The order is total. -/
instance : Std.IsLinearOrder Entity where
  le_refl e := le_iff_rank.2 le_rfl
  le_antisymm e f hef hfe := rank_injective (le_antisymm (le_iff_rank.1 hef) (le_iff_rank.1 hfe))
  le_trans e f g hef hfg := le_iff_rank.2 ((le_iff_rank.1 hef).trans (le_iff_rank.1 hfg))
  le_total e f := by
    rw [le_iff_rank, le_iff_rank]
    exact le_total e.rank f.rank

theorem perm_sort (es : List Entity) : (sort es).Perm es := List.mergeSort_perm ..

theorem pairwise_sort (es : List Entity) : (sort es).Pairwise (· ≤ ·) :=
  List.pairwise_mergeSort' (· ≤ ·) es

/-- A list of handles has one ascending order. -/
theorem eq_sort_iff {es l : List Entity} : l = sort es ↔ l.Perm es ∧ l.Pairwise (· ≤ ·) := by
  constructor
  · rintro rfl
    exact ⟨perm_sort es, pairwise_sort es⟩
  · rintro ⟨hperm, hl⟩
    exact List.Perm.eq_of_pairwise' hl (pairwise_sort es) (hperm.trans (perm_sort es).symm)

/-- The index decides first, and the generation where the indices are the same. -/
theorem lt_iff : e < f ↔
    e.index < f.index ∨ e.index = f.index ∧ e.generation < f.generation := by
  rw [lt_iff_rank, rank, rank, Prod.Lex.toLex_lt_toLex, UInt32.lt_iff_toNat_lt,
    UInt32.lt_iff_toNat_lt, UInt32.toNat_inj]

/-- A comparison tells which of two handles comes first, or that they are the same. -/
theorem compare_iff (e f : Entity) : (compare e f = .lt ↔ e < f) ∧ (compare e f = .eq ↔ e = f) ∧
    (compare e f = .gt ↔ f < e) := by
  rw [lt_iff_rank, lt_iff_rank, compare_eq_compare_rank, compare_lt_iff_lt, compare_eq_iff_eq,
    compare_gt_iff_gt]
  exact ⟨Iff.rfl, rank_injective.eq_iff, Iff.rfl⟩

/-! ## The main theorem -/

/-- Words and handles are in one-to-one correspondence.  Different handles read differently, in the
short form and inside messages, and only the null handle reads `null`.  The order of handles is the
total order that compares the index first and the generation second, and the ascending list of some
handles is the only one. -/
theorem packs_prints_and_sorts :
    (∀ e, ofBits (toBits e) = e) ∧ (∀ w, toBits (ofBits w) = w) ∧ Function.Bijective toBits ∧
    Function.Injective display ∧ Function.Injective debug ∧
    (∀ e, (e.display = "null" ↔ e = null) ∧ (e.debug = "Entity(null)" ↔ e = null)) ∧
    (∀ e f : Entity, e < f ↔
      e.index < f.index ∨ e.index = f.index ∧ e.generation < f.generation) ∧
    (∀ e f : Entity, (compare e f = .lt ↔ e < f) ∧ (compare e f = .eq ↔ e = f) ∧
      (compare e f = .gt ↔ f < e)) ∧
    (∀ e f : Entity, e ≤ f ↔ e < f ∨ e = f) ∧ Std.IsLinearOrder Entity ∧
    ∀ es l, l = sort es ↔ l.Perm es ∧ l.Pairwise (· ≤ ·) :=
  ⟨ofBits_toBits, toBits_ofBits, bijective_toBits, display_injective, debug_injective,
    fun _ => ⟨display_eq_null_iff, debug_eq_null_iff⟩, fun _ _ => lt_iff, compare_iff,
    fun _ _ => le_iff_lt_or_same, inferInstance, fun _ _ => eq_sort_iff⟩

/-- Words do not have the order of their handles. -/
example : (⟨1, 5⟩ : Entity) < ⟨2, 0⟩ ∧ toBits ⟨2, 0⟩ < toBits ⟨1, 5⟩ := by decide

end EntityStore.Entity
