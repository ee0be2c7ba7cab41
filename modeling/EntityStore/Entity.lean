/-!
# Entities

An *entity* is a handle to a slot of the store.  It pairs the index of the slot with the
*generation* the slot had when the handle was issued.  A slot moves to its next generation every
time it is released, so a handle of an earlier generation can be told from one of a later.

The handle `Entity.null` has both fields at their greatest value.  No slot ever has that index, so
the null handle is never live, and it stands for "no entity" wherever a link may be absent.

A handle packs into one 64-bit word, the generation in the high half (`Entity.toBits`,
`Entity.ofBits`).  Handles are ordered by index first and by generation second, which is not the
order of the packed words.
-/

namespace EntityStore

/-- A handle to a slot of the store. -/
structure Entity where
  /-- The index of the slot. -/
  index : UInt32
  /-- The generation of the slot at the time the handle was issued. -/
  generation : UInt32
deriving DecidableEq

namespace Entity

/-! ## The null handle -/

/-- The handle that no slot ever has. -/
def null : Entity := ⟨0xffffffff, 0xffffffff⟩

instance : Inhabited Entity := ⟨null⟩

/-- Whether the handle is the null handle. -/
def isNull (e : Entity) : Bool := e = null

/-- The handle itself, unless it is null. -/
def nonNull? (e : Entity) : Option Entity := if e.isNull then none else some e

theorem isNull_iff {e : Entity} : e.isNull = true ↔ e = null := by
  simp [isNull]

theorem nonNull?_eq_some_iff {e f : Entity} : e.nonNull? = some f ↔ e ≠ null ∧ e = f := by
  unfold nonNull?
  split <;> simp_all [isNull_iff]

/-! ## Packing -/

/-- The handle as one word: the generation in the high half, the index in the low half. -/
def toBits (e : Entity) : UInt64 := e.generation.toUInt64 <<< 32 ||| e.index.toUInt64

/-- The handle that a word packs. -/
def ofBits (w : UInt64) : Entity := ⟨w.toUInt32, (w >>> 32).toUInt32⟩

/-! ## Order -/

/-- Compares the index first and the generation second. -/
instance : Ord Entity where
  compare a b := (compare a.index b.index).then (compare a.generation b.generation)

instance : LE Entity := leOfOrd

instance : LT Entity := ltOfOrd

/-- The later of two handles. -/
instance : Max Entity := maxOfLe

/-- The handles in ascending order. -/
def sort (es : List Entity) : List Entity := es.mergeSort fun a b => decide (a ≤ b)

/-! ## Text -/

/-- The short form: `index`, the letter `v`, `generation`, or `null`. -/
def display (e : Entity) : String :=
  if e.isNull then "null"
  else toString e.index.toNat ++ "v" ++ toString e.generation.toNat

/-- The form used inside messages and records, which names the type. -/
def debug (e : Entity) : String := "Entity(" ++ e.display ++ ")"

end Entity

end EntityStore
