import EntityStore.Proofs.Issuing
import Mathlib.Data.Finset.Card
import Mathlib.Data.Set.Card
import Mathlib.Order.Bounds.Basic

/-!
# The order in which slots are reused

A history tells which slots were issued, which of the issues took a slot that had been issued
before, and which slots were released.  `Traced` compares this with the allocator that the history
leads to: the slots that wait are the released ones that no later issue has reused yet, the slots
that were ever issued are those that exist, and a generation counts the releases of its slot modulo
2^32.

`Recycles` says what this means for every issue of a history.  A waiting slot is reused before a new
one is made, and of the waiting slots the one that was released first.  So whenever a new slot is
made, every slot there is carries a live handle, and the slots are as many as there ever were live
handles at a time.
-/

namespace EntityStore.Allocator

variable {a b c : Allocator} {H K : List Use} {e x : Entity} {i : UInt32}

/-! ## What a history tells of slots -/

/-- The slots that were issued, the latest first. -/
def issuedSlots (H : List Use) : List UInt32 := (issued H).map Entity.index

/-- The slots that were released, in the order of their release. -/
def releasedSlots (H : List Use) : List UInt32 := ((released H).map Entity.index).reverse

/-- The slots of those issues that took a slot that had been issued before, in the order of the
issues. -/
def reusedSlots : List Use → List UInt32
  | [] => []
  | .issue (some e) :: H =>
    if e.index ∈ issuedSlots H then reusedSlots H ++ [e.index] else reusedSlots H
  | .issue none :: H | .release _ _ :: H => reusedSlots H

/-- The number of slots that were ever issued. -/
def usedSlots (H : List Use) : Nat := (issuedSlots H).toFinset.card

@[simp] theorem issuedSlots_issue_some :
    issuedSlots (.issue (some e) :: H) = e.index :: issuedSlots H := rfl

@[simp] theorem issuedSlots_release {r : Bool} :
    issuedSlots (.release e r :: H) = issuedSlots H := rfl

@[simp] theorem releasedSlots_issue {o : Option Entity} :
    releasedSlots (.issue o :: H) = releasedSlots H := rfl

@[simp] theorem releasedSlots_release_true :
    releasedSlots (.release e true :: H) = releasedSlots H ++ [e.index] := by
  simp [releasedSlots, released]

@[simp] theorem reusedSlots_release {r : Bool} :
    reusedSlots (.release e r :: H) = reusedSlots H := rfl

theorem reusedSlots_issue_of_mem (he : e.index ∈ issuedSlots H) :
    reusedSlots (.issue (some e) :: H) = reusedSlots H ++ [e.index] := if_pos he

theorem reusedSlots_issue_of_not_mem (he : e.index ∉ issuedSlots H) :
    reusedSlots (.issue (some e) :: H) = reusedSlots H := if_neg he

/-- One slot is given back for each handle released. -/
theorem length_releasedSlots : (releasedSlots H).length = (released H).length := by
  simp [releasedSlots]

theorem released_length_le_of_suffix (hK : K <:+ H) :
    (released K).length ≤ (released H).length := by
  obtain ⟨later, rfl⟩ := hK
  simp [released_append]

/-- What came before a moment of a history is a history. -/
theorem Leads.of_suffix (h : a.Leads H b) (hK : K <:+ H) : ∃ c, a.Leads K c := by
  induction h with
  | start => exact ⟨a, List.suffix_nil.1 hK ▸ .start⟩
  | @issue H b before ih =>
    rcases List.suffix_cons_iff.1 hK with rfl | hK
    · exact ⟨_, before.issue⟩
    · exact ih hK
  | @release H b before e ih =>
    rcases List.suffix_cons_iff.1 hK with rfl | hK
    · exact ⟨_, before.release e⟩
    · exact ih hK

/-! ## What a use does to the queue and to the generations -/

/-- An issue takes the slot that has waited longest, at its generation.  If none waits it makes a
new slot, and if there is no room for one it gives nothing. -/
theorem Coherent.issue_cases (h : a.Coherent) :
    (∃ e b, a.allocate = (some e, b) ∧ a.free.toList = e.index :: b.free.toList ∧
      a.generations[e.index.toNat]? = some e.generation ∧ b.generations = a.generations) ∨
    (∃ e b, a.allocate = (some e, b) ∧ a.free.toList = [] ∧ b.free.toList = [] ∧
      e.index.toNat = a.slotCount ∧ e.generation = 0 ∧
      b.generations = a.generations.push 0) ∨
    (a.allocate = (none, a) ∧ a.free.toList = [] ∧ a.slotCount = slotLimit) := by
  cases hp : a.free.pop? with
  | some waiting =>
    obtain ⟨i, rest⟩ := waiting
    have hl := Fifo.toList_of_pop? hp
    obtain ⟨g, hg⟩ := h.getElem?_generations ((h.mem_free_iff i).1 (by simp [hl]))
    have hrun : a.allocate = (some ⟨i, g⟩,
        { a with
          alive := a.alive.setIfInBounds i.toNat true
          free := rest
          aliveCount := a.aliveCount + 1 }) := by
      simp [allocate, hp, hg]
    exact .inl ⟨_, _, hrun, hl, hg, rfl⟩
  | none =>
    have hempty := Fifo.pop?_eq_none_iff.1 hp
    by_cases hroom : a.generations.size < slotLimit
    · have hrun : a.allocate = (some ⟨a.generations.size.toUInt32, 0⟩,
          { a with
            generations := a.generations.push 0
            alive := a.alive.push true
            aliveCount := a.aliveCount + 1 }) := by
        simp [allocate, hp, hroom]
      exact .inr (.inl ⟨_, _, hrun, hempty, hempty, toNat_index hroom, rfl, rfl⟩)
    · exact .inr (.inr ⟨by simp [allocate, hp, hroom], hempty,
        Nat.le_antisymm h.slotCount_le (Nat.not_lt.1 hroom)⟩)

/-- A release puts the slot of a live handle behind the waiting ones, at its next generation. -/
theorem release_cases (a : Allocator) (e : Entity) :
    (∃ b, a.deallocate e = (true, b) ∧ e.index.toNat < a.slotCount ∧
      b.free.toList = a.free.toList ++ [e.index] ∧
      b.generations = a.generations.modify e.index.toNat (· + 1)) ∨
    a.deallocate e = (false, a) := by
  cases he : a.isAlive e with
  | false => exact .inr (deallocate_of_not_isAlive he)
  | true => exact .inl ⟨_, by rw [deallocate, if_pos he], index_lt_slotCount he, by simp, rfl⟩

/-! ## How a history shows in the allocator -/

/-- The allocator is what the history makes of it. -/
structure Traced (H : List Use) (a : Allocator) : Prop where
  /-- The slots that wait are the released ones that were not reused since. -/
  releasedSlots_eq : releasedSlots H = reusedSlots H ++ a.free.toList
  /-- The slots that were issued are those that exist. -/
  mem_issuedSlots_iff : ∀ i : UInt32, i ∈ issuedSlots H ↔ i.toNat < a.slotCount
  /-- The slots that were released exist. -/
  lt_slotCount : ∀ i ∈ releasedSlots H, i.toNat < a.slotCount
  /-- A generation counts the releases of its slot. -/
  generation_eq : ∀ (i : UInt32) g, a.generations[i.toNat]? = some g →
    g = UInt32.ofNat ((releasedSlots H).count i)

theorem traced_empty : Traced [] {} where
  releasedSlots_eq := rfl
  mem_issuedSlots_iff := by simp [issuedSlots, issued, slotCount]
  lt_slotCount := by simp [releasedSlots, released]
  generation_eq := by simp

/-- The trace keeps up with an issue: the handle takes the slot that has waited longest, or else a
slot that was never used. -/
theorem Traced.issue (h : Traced H a) (hcoh : a.Coherent) :
    Traced (.issue a.allocate.1 :: H) a.allocate.2 := by
  rcases hcoh.issue_cases with ⟨e, b, hrun, hfree, hgen, hsame⟩ |
    ⟨e, b, hrun, hfree, hfree', hnew, hzero, hpush⟩ | ⟨hrun, -⟩
  · have hcount : b.slotCount = a.slotCount := congrArg Array.size hsame
    have hmem : e.index ∈ issuedSlots H := by
      rw [h.mem_issuedSlots_iff]
      exact (Array.getElem?_eq_some_iff.1 hgen).1
    rw [hrun]
    constructor
    · rw [releasedSlots_issue, h.releasedSlots_eq, reusedSlots_issue_of_mem hmem, hfree]
      simp
    · intro i
      rw [issuedSlots_issue_some, List.mem_cons, hcount, ← h.mem_issuedSlots_iff]
      exact or_iff_right_of_imp (fun hi => hi ▸ hmem)
    · intro i hi
      rw [hcount]
      exact h.lt_slotCount i hi
    · intro i g hg
      rw [hsame] at hg
      exact h.generation_eq i g hg
  · have hcount : b.slotCount = a.slotCount + 1 := by
      rw [slotCount, hpush, Array.size_push, slotCount]
    have hmem : e.index ∉ issuedSlots H := by
      rw [h.mem_issuedSlots_iff]
      omega
    rw [hrun]
    constructor
    · rw [releasedSlots_issue, h.releasedSlots_eq, reusedSlots_issue_of_not_mem hmem, hfree, hfree']
    · intro i
      rw [issuedSlots_issue_some, List.mem_cons, hcount, h.mem_issuedSlots_iff,
        ← UInt32.toNat_inj, hnew]
      omega
    · intro i hi
      rw [hcount]
      exact Nat.lt_succ_of_lt (h.lt_slotCount i hi)
    · intro i g hg
      rw [hpush, Array.getElem?_push] at hg
      split at hg
      · next hi =>
        -- the new slot was never released
        have hnot : i ∉ releasedSlots H := by
          intro hmem
          exact absurd (h.lt_slotCount i hmem) (Nat.not_lt.2 (Nat.le_of_eq hi.symm))
        rw [releasedSlots_issue, List.count_eq_zero.2 hnot, ← Option.some.inj hg]
        rfl
      · exact h.generation_eq i g hg
  · rw [hrun]
    exact ⟨h.releasedSlots_eq, h.mem_issuedSlots_iff, h.lt_slotCount, h.generation_eq⟩

/-- The trace keeps up with a release, which puts its slot last in the queue or, if it fails, moves
nothing. -/
theorem Traced.release (h : Traced H a) (e : Entity) :
    Traced (.release e (a.deallocate e).1 :: H) (a.deallocate e).2 := by
  rcases a.release_cases e with ⟨b, hrun, hlt, hfree, hgen⟩ | hrun
  · have hcount : b.slotCount = a.slotCount := by
      rw [slotCount, hgen, Array.size_modify, slotCount]
    rw [hrun]
    constructor
    · rw [releasedSlots_release_true, h.releasedSlots_eq, hfree]
      simp
    · intro i
      rw [issuedSlots_release, hcount, h.mem_issuedSlots_iff]
    · intro i hi
      rw [releasedSlots_release_true, List.mem_append, List.mem_singleton] at hi
      rw [hcount]
      rcases hi with hi | rfl
      · exact h.lt_slotCount i hi
      · exact hlt
    · intro i g hg
      rw [hgen, Array.getElem?_modify] at hg
      rw [releasedSlots_release_true, List.count_append, List.count_singleton]
      split at hg
      · next hi =>
        obtain rfl := UInt32.toNat_inj.1 hi
        obtain ⟨g', hg', rfl⟩ := Option.map_eq_some_iff.1 hg
        rw [h.generation_eq _ g' hg', beq_self_eq_true, if_pos rfl, UInt32.ofNat_add]
        rfl
      · next hi =>
        have hne : e.index ≠ i := fun heq => hi (congrArg UInt32.toNat heq)
        simpa [hne] using h.generation_eq i g hg
  · rw [hrun]
    exact ⟨h.releasedSlots_eq, h.mem_issuedSlots_iff, h.lt_slotCount, h.generation_eq⟩

/-- Every history shows in the allocator it leads to. -/
theorem Leads.traced (h : Leads {} H a) : Traced H a := by
  induction h with
  | start => exact traced_empty
  | issue before ih => exact ih.issue before.alive_iff_held.1
  | release before e ih => exact ih.release e

/-- The slots in use are all that the allocator ever made. -/
theorem Traced.usedSlots_eq (h : Traced H a) (hcoh : a.Coherent) : usedSlots H = a.slotCount := by
  have himage : (issuedSlots H).toFinset.image UInt32.toNat = Finset.range a.slotCount := by
    ext n
    rw [Finset.mem_image, Finset.mem_range]
    constructor
    · rintro ⟨i, hi, rfl⟩
      exact (h.mem_issuedSlots_iff i).1 (List.mem_toFinset.1 hi)
    · intro hn
      have hidx := toNat_index (Nat.lt_of_lt_of_le hn hcoh.slotCount_le)
      refine ⟨n.toUInt32, List.mem_toFinset.2 ((h.mem_issuedSlots_iff _).2 ?_), hidx⟩
      rwa [hidx]
  rw [← Finset.card_range a.slotCount, ← himage,
    Finset.card_image_of_injective _ fun i j => UInt32.toNat_inj.1]
  rfl

/-! ## The greatest number of live handles -/

/-- The number of handles that are alive. -/
noncomputable def liveCount (a : Allocator) : Nat := {e | a.isAlive e = true}.ncard

theorem Coherent.liveCount_eq (h : a.Coherent) : a.liveCount = a.entities.length := by
  have hset : {e | a.isAlive e = true} = (a.entities.toFinset : Set Entity) := by
    ext e
    simp [h.mem_entities_iff]
  rw [liveCount, hset, Set.ncard_coe_finset, List.toFinset_card_of_nodup h.nodup_entities]

/-- There is a slot for each live handle. -/
theorem Coherent.liveCount_le (h : a.Coherent) : a.liveCount ≤ a.slotCount := by
  rw [h.liveCount_eq]
  exact length_le_slotCount h.nodup_entities fun e he => h.mem_entities_iff.1 he

/-- Where no slot waits, there are as many live handles as slots. -/
theorem Coherent.liveCount_of_free (h : a.Coherent) (hempty : a.free.toList = []) :
    a.liveCount = a.slotCount := by
  have hall : ∀ i ∈ List.range a.slotCount, (a.handleAt? i).isSome = true := by
    intro i hi
    have hlt := List.mem_range.1 hi
    have hidx := toNat_index (Nat.lt_of_lt_of_le hlt h.slotCount_le)
    obtain ⟨g, hg⟩ := h.exists_isAlive (i := i.toUInt32) hempty (by rwa [hidx])
    exact Option.isSome_iff_exists.2 ⟨_, h.handleAt?_eq_some_iff.2 ⟨hidx, hg⟩⟩
  rw [h.liveCount_eq, entities, List.filterMap_length_eq_length.2 hall, List.length_range]

/-- The slots came to be as many as they are at a moment when none of them waited. -/
theorem Leads.exists_none_waiting (h : Leads {} H a) :
    ∃ K b, K <:+ H ∧ Leads {} K b ∧ b.free.toList = [] ∧ b.slotCount = a.slotCount := by
  induction h with
  | start => exact ⟨[], {}, List.nil_suffix, .start, rfl, rfl⟩
  | @issue H a before ih =>
    obtain ⟨K, c, hK, hc, hempty, hcount⟩ := ih
    rcases before.alive_iff_held.1.issue_cases with ⟨e, b, hrun, -, -, hsame⟩ |
      ⟨e, b, hrun, -, hfree, -⟩ | ⟨hrun, -⟩
    · refine ⟨K, c, hK.trans (List.suffix_cons _ _), hc, hempty, ?_⟩
      rw [hrun, hcount]
      exact congrArg Array.size hsame.symm
    · refine ⟨_, _, List.suffix_rfl, before.issue, ?_, rfl⟩
      rw [hrun]
      exact hfree
    · rw [hrun]
      exact ⟨K, c, hK.trans (List.suffix_cons _ _), hc, hempty, hcount⟩
  | @release H a before e ih =>
    obtain ⟨K, c, hK, hc, hempty, hcount⟩ := ih
    refine ⟨K, c, hK.trans (List.suffix_cons _ _), hc, hempty, ?_⟩
    rcases a.release_cases e with ⟨b, hrun, -, -, hgen⟩ | hrun
    · rw [hrun, hcount, slotCount, slotCount, hgen, Array.size_modify]
    · rw [hrun, hcount]

/-- The slots used up to an earlier moment are no more than those used since. -/
theorem usedSlots_le_of_suffix (hK : K <:+ H) : usedSlots K ≤ usedSlots H := by
  have hcons (u : Use) (H : List Use) : usedSlots H ≤ usedSlots (u :: H) := by
    match u with
    | .issue (some e) => exact Finset.card_le_card (by simp)
    | .issue none | .release _ _ => exact Nat.le_refl _
  obtain ⟨later, rfl⟩ := hK
  induction later with
  | nil => exact Nat.le_refl _
  | cons u later ih => exact Nat.le_trans ih (hcons u _)

/-- The slots used are as many as there were live handles at some moment, and at no moment there
were more. -/
theorem Leads.isGreatest_liveCount (h : Leads {} H a) :
    IsGreatest {n | ∃ K b, K <:+ H ∧ Leads {} K b ∧ n = b.liveCount} (usedSlots H) := by
  constructor
  · obtain ⟨K, b, hK, hb, hempty, hcount⟩ := h.exists_none_waiting
    refine ⟨K, b, hK, hb, ?_⟩
    rw [h.traced.usedSlots_eq h.alive_iff_held.1, ← hcount,
      hb.alive_iff_held.1.liveCount_of_free hempty]
  · rintro n ⟨K, b, hK, hb, rfl⟩
    calc b.liveCount ≤ b.slotCount := hb.alive_iff_held.1.liveCount_le
      _ = usedSlots K := (hb.traced.usedSlots_eq hb.alive_iff_held.1).symm
      _ ≤ usedSlots H := usedSlots_le_of_suffix hK

/-! ## The main theorem -/

/-- A history reuses the slots in the order of their release. -/
structure Recycles (H : List Use) (a : Allocator) : Prop where
  /-- At every moment, the slots reused so far are the first of those released so far. -/
  reused_prefix : ∀ K, K <:+ H → reusedSlots K <+: releasedSlots K
  /-- The slots that wait are the rest of them. -/
  waiting : reusedSlots H ++ a.free.toList = releasedSlots H
  /-- A slot that was not issued before is issued only when every slot released so far has been
  reused, and its index is the number of slots issued so far. -/
  new_slot : ∀ K e, .issue (some e) :: K <:+ H → e.index ∉ issuedSlots K →
    reusedSlots K = releasedSlots K ∧ e.index.toNat = usedSlots K
  /-- No handle is issued only when every slot released so far has been reused and there is no room
  for another. -/
  no_slot : ∀ K, .issue none :: K <:+ H →
    reusedSlots K = releasedSlots K ∧ usedSlots K = slotLimit
  /-- The generation of an issued handle is the number of releases of its slot so far. -/
  generation : ∀ K e, .issue (some e) :: K <:+ H →
    e.generation.toNat = (releasedSlots K).count e.index
  /-- The slots that were issued are those that exist. -/
  slots : usedSlots H = a.slotCount
  /-- There are as many as there were ever live handles at a time. -/
  peak : IsGreatest {n | ∃ K b, K <:+ H ∧ Leads {} K b ∧ n = b.liveCount} (usedSlots H)

/-- The issue that comes last was made by the allocator before it. -/
theorem Leads.exists_of_issue {o : Option Entity} (h : a.Leads (.issue o :: K) c) :
    ∃ b, a.Leads K b ∧ b.allocate = (o, c) := by
  cases h with
  | issue before => exact ⟨_, before, rfl⟩

/-- Where no slot waits, all that were given back have been used again, in that order. -/
theorem Traced.reusedSlots_eq_of_free (h : Traced H a) (hempty : a.free.toList = []) :
    reusedSlots H = releasedSlots H := by
  rw [h.releasedSlots_eq, hempty, List.append_nil]

/-- A slot is new only where none waits, and it comes after all others. -/
theorem Leads.new_slot (h : Leads {} (.issue (some e) :: K) c) (hnew : e.index ∉ issuedSlots K) :
    reusedSlots K = releasedSlots K ∧ e.index.toNat = usedSlots K := by
  obtain ⟨b, hb, hrun⟩ := h.exists_of_issue
  have hcoh := hb.alive_iff_held.1
  rw [hb.traced.usedSlots_eq hcoh]
  rw [hb.traced.mem_issuedSlots_iff] at hnew
  rcases hcoh.issue_cases with ⟨e', b', hrun', -, hgen, -⟩ | ⟨e', b', hrun', hempty, -, hidx, -⟩ |
    ⟨hrun', -⟩
  · obtain rfl := Option.some.inj (Prod.mk.inj (hrun.symm.trans hrun')).1
    exact absurd (Array.getElem?_eq_some_iff.1 hgen).1 hnew
  · obtain rfl := Option.some.inj (Prod.mk.inj (hrun.symm.trans hrun')).1
    exact ⟨hb.traced.reusedSlots_eq_of_free hempty, hidx⟩
  · simp [hrun] at hrun'

/-- No slot is issued only where none waits and all there can be exist. -/
theorem Leads.no_slot (h : Leads {} (.issue none :: K) c) :
    reusedSlots K = releasedSlots K ∧ usedSlots K = slotLimit := by
  obtain ⟨b, hb, hrun⟩ := h.exists_of_issue
  have hcoh := hb.alive_iff_held.1
  rw [hb.traced.usedSlots_eq hcoh]
  rcases hcoh.issue_cases with ⟨e, b', hrun', -⟩ | ⟨e, b', hrun', -⟩ | ⟨-, hempty, hfull⟩
  · simp [hrun] at hrun'
  · simp [hrun] at hrun'
  · exact ⟨hb.traced.reusedSlots_eq_of_free hempty, hfull⟩

/-- The generation of a handle that is issued is the number of releases of its slot, unless there
were so many that it wrapped around. -/
theorem Leads.generation_eq_count (h : Leads {} (.issue (some e) :: K) c)
    (hfew : (released K).length < 2 ^ 32) :
    e.generation.toNat = (releasedSlots K).count e.index := by
  have halive := (h.alive_iff_held.2 e).2 held_issue_self
  have hcount : (releasedSlots K).count e.index < 2 ^ 32 :=
    Nat.lt_of_le_of_lt List.count_le_length (length_releasedSlots ▸ hfew)
  rw [h.traced.generation_eq _ _ (isAlive_iff.1 halive).2, releasedSlots_issue,
    UInt32.toNat_ofNat_of_lt' hcount]

/-- As long as there have been fewer than 2^32 releases, the slots are reused in the order of their
release, a new slot is issued only when none waits, the slots are as many as there ever were live
handles at a time, and the generation of an issued handle is the number of releases of its slot. -/
theorem Leads.recycles (h : Leads {} H a) (hfew : (released H).length < 2 ^ 32) :
    Recycles H a where
  reused_prefix K hK := by
    obtain ⟨b, hb⟩ := h.of_suffix hK
    exact ⟨b.free.toList, hb.traced.releasedSlots_eq.symm⟩
  waiting := h.traced.releasedSlots_eq.symm
  new_slot K e hK hnew := by
    obtain ⟨c, hc⟩ := h.of_suffix hK
    exact hc.new_slot hnew
  no_slot K hK := by
    obtain ⟨c, hc⟩ := h.of_suffix hK
    exact hc.no_slot
  generation K e hK := by
    obtain ⟨c, hc⟩ := h.of_suffix hK
    have hshort := released_length_le_of_suffix ((List.suffix_cons _ K).trans hK)
    exact hc.generation_eq_count (Nat.lt_of_le_of_lt hshort hfew)
  slots := h.traced.usedSlots_eq h.alive_iff_held.1
  peak := h.isGreatest_liveCount

/-- Two slots are released, the second before the first, and the one that was released first is
reused.  No third slot is made. -/
theorem Leads.recycles_two : ∃ (H : List Use) (a : Allocator), Leads {} H a ∧
    reusedSlots H = [1] ∧ releasedSlots H = [1, 0] ∧ usedSlots H = 2 ∧
    issued H = [⟨1, 1⟩, ⟨1, 0⟩, ⟨0, 0⟩] ∧ Recycles H a := by
  have hrun : Leads {} _ _ :=
    (((((Leads.start.issue.issue).release ⟨1, 0⟩).release ⟨1, 0⟩).release ⟨0, 0⟩).issue)
  exact ⟨_, _, hrun, by decide, by decide, by decide, by decide, hrun.recycles (by decide)⟩

end EntityStore.Allocator
