import EntityStore.Proofs.Slots

/-!
# Handles and their histories

`a.Leads H b` says that uses of the allocator `a`, with the answers recorded in the history `H`,
lead to the allocator `b`.  The released handles are arbitrary: they may be alive, dead, null or
never issued.

A slot's generation only grows, as long as it does not wrap around.  So a handle that was issued is
either alive or of an earlier generation of its slot (`Past`), and it is of an earlier generation
exactly if it was released.  A handle that is issued next is neither, hence it is new.  This is what
keeps handles apart over a whole history (`Leads.handles_apart`).
-/

namespace EntityStore.Allocator

/-- A use of an allocator with its answer. -/
inductive Use where
  /-- A handle is issued, if there is a slot for it. -/
  | issue (answer : Option Entity)
  /-- A handle is released, if it is alive. -/
  | release (e : Entity) (answer : Bool)
deriving DecidableEq

/-- A history of uses leads from one allocator to another.  The latest use comes first. -/
inductive Leads (a : Allocator) : List Use → Allocator → Prop where
  /-- Nothing was done. -/
  | start : Leads a [] a
  /-- An issue comes last. -/
  | issue {H : List Use} {b : Allocator} (before : Leads a H b) :
      Leads a (.issue b.allocate.1 :: H) b.allocate.2
  /-- A release comes last. -/
  | release {H : List Use} {b : Allocator} (before : Leads a H b) (e : Entity) :
      Leads a (.release e (b.deallocate e).1 :: H) (b.deallocate e).2

/-! ## What a history tells -/

/-- The handles that were issued, the latest first. -/
def issued : List Use → List Entity
  | [] => []
  | .issue (some e) :: H => e :: issued H
  | .issue none :: H | .release _ _ :: H => issued H

/-- The handles whose release succeeded, the latest first. -/
def released : List Use → List Entity
  | [] => []
  | .release e true :: H => e :: released H
  | .release _ false :: H | .issue _ :: H => released H

/-- The handle was issued, and no release of it has succeeded since. -/
def Held (H : List Use) (e : Entity) : Prop :=
  ∃ later earlier, H = later ++ .issue (some e) :: earlier ∧ .release e true ∉ later

variable {a b c : Allocator} {H K : List Use} {u : Use} {e x : Entity}

theorem Leads.trans (h : a.Leads H b) (hc : b.Leads K c) : a.Leads (K ++ H) c := by
  induction hc with
  | start => exact h
  | issue before ih => exact ih.issue
  | release before e ih => exact ih.release e

theorem released_append : released (K ++ H) = released K ++ released H := by
  induction K with
  | nil => rfl
  | cons u K ih =>
    cases u with
    | issue o => exact ih
    | release e b =>
      cases b with
      | false => exact ih
      | true => exact congrArg (e :: ·) ih

theorem not_held_nil : ¬ Held [] e := by
  rintro ⟨later, earlier, hH, -⟩
  simp at hH

/-- A use other than the issue or the release of a handle does not change whether it is held. -/
theorem held_cons_iff (hi : u ≠ .issue (some e)) (hr : u ≠ .release e true) :
    Held (u :: H) e ↔ Held H e := by
  constructor
  · rintro ⟨later, earlier, hH, hnot⟩
    cases later with
    | nil =>
      rw [List.nil_append, List.cons.injEq] at hH
      exact absurd hH.1 hi
    | cons w later =>
      rw [List.cons_append, List.cons.injEq] at hH
      exact ⟨later, earlier, hH.2, fun hmem => hnot (List.mem_cons_of_mem w hmem)⟩
  · rintro ⟨later, earlier, rfl, hnot⟩
    refine ⟨u :: later, earlier, rfl, fun hmem => ?_⟩
    rcases List.mem_cons.1 hmem with hu | hlater
    · exact hr hu.symm
    · exact hnot hlater

/-- A handle is held as soon as it was issued. -/
theorem held_issue_self : Held (.issue (some e) :: H) e := ⟨[], H, rfl, List.not_mem_nil⟩

theorem not_held_release_self : ¬ Held (.release e true :: H) e := by
  rintro ⟨later, earlier, hH, hnot⟩
  cases later with
  | nil => simp at hH
  | cons w later =>
    rw [List.cons_append, List.cons.injEq] at hH
    exact hnot (hH.1 ▸ List.mem_cons_self)

/-- The handles that are alive are those that are held. -/
theorem Leads.alive_iff_held (h : Leads {} H a) :
    a.Coherent ∧ ∀ x, a.isAlive x = true ↔ Held H x := by
  induction h with
  | start => exact ⟨coherent_empty, fun x => by simp [isAlive, not_held_nil]⟩
  | @issue H a before ih =>
    obtain ⟨hcoh, halive⟩ := ih
    rcases hcoh.allocate_cases with ⟨e, a', hrun, hcoh', -, halive'⟩ | ⟨hrun, -⟩
    · rw [hrun]
      refine ⟨hcoh', fun x => ?_⟩
      rw [halive']
      by_cases hx : x = e
      · simp [hx, held_issue_self]
      · rw [held_cons_iff (by simpa using Ne.symm hx) (by simp), halive]
        simp [hx]
    · rw [hrun]
      refine ⟨hcoh, fun x => ?_⟩
      rw [held_cons_iff (by simp) (by simp), halive]
  | @release H a before e ih =>
    obtain ⟨hcoh, halive⟩ := ih
    cases he : a.isAlive e with
    | false =>
      rw [deallocate_of_not_isAlive he]
      refine ⟨hcoh, fun x => ?_⟩
      rw [held_cons_iff (by simp) (by simp), halive]
    | true =>
      obtain ⟨a', hrun, hcoh', halive'⟩ := hcoh.deallocate_cases he
      rw [hrun]
      refine ⟨hcoh', fun x => ?_⟩
      rw [halive']
      by_cases hx : x = e
      · simp [hx, not_held_release_self]
      · rw [held_cons_iff (by simp) (by simpa using Ne.symm hx), halive]
        simp [hx]

/-! ## Past handles -/

/-- The handle is of an earlier generation of its slot. -/
def Past (a : Allocator) (e : Entity) : Prop :=
  ∃ g, a.generations[e.index.toNat]? = some g ∧ e.generation < g

/-- A live handle is not one of the past. -/
theorem not_past_of_isAlive (he : a.isAlive e = true) : ¬ a.Past e := by
  rintro ⟨g, hg, hlt⟩
  rw [(isAlive_iff.1 he).2, Option.some.injEq] at hg
  rw [hg] at hlt
  exact UInt32.lt_irrefl g hlt

/-- An issue gives a handle that is not past, and makes none past. -/
theorem past_allocate (hrun : a.allocate = (some e, b)) :
    ¬ a.Past e ∧ (∀ x, b.Past x ↔ a.Past x) ∧
      ∀ (i : Nat) g, b.generations[i]? = some g → a.generations[i]? = some g ∨ g = 0 := by
  cases hp : a.free.pop? with
  | some waiting =>
    obtain ⟨i, rest⟩ := waiting
    simp only [allocate, hp, Prod.mk.injEq, Option.some.injEq] at hrun
    obtain ⟨rfl, rfl⟩ := hrun
    refine ⟨?_, fun x => Iff.rfl, fun j g hg => .inl hg⟩
    rintro ⟨g, hg, hlt⟩
    rw [hg, Option.getD_some] at hlt
    exact UInt32.lt_irrefl g hlt
  | none =>
    by_cases hroom : a.generations.size < slotLimit
    · simp only [allocate, hp, hroom, if_true, Prod.mk.injEq, Option.some.injEq] at hrun
      obtain ⟨rfl, rfl⟩ := hrun
      have hpush : ∀ (i : Nat) g, (a.generations.push 0)[i]? = some g →
          a.generations[i]? = some g ∨ g = 0 := by
        intro i g hg
        rw [Array.getElem?_push] at hg
        split at hg
        · exact .inr (Option.some.inj hg).symm
        · exact .inl hg
      refine ⟨?_, fun x => ⟨?_, ?_⟩, hpush⟩
      · rintro ⟨g, hg, -⟩
        rw [toNat_index hroom, Array.getElem?_eq_none (Nat.le_refl _)] at hg
        cases hg
      · rintro ⟨g, hg, hlt⟩
        rcases hpush _ g hg with hold | rfl
        · exact ⟨g, hold, hlt⟩
        · exact absurd hlt UInt32.not_lt_zero
      · rintro ⟨g, hg, hlt⟩
        have hne := Nat.ne_of_lt (Array.getElem?_eq_some_iff.1 hg).1
        exact ⟨g, by rw [Array.getElem?_push, if_neg hne, hg], hlt⟩
    · simp [allocate, hp, hroom] at hrun

/-- The next generation comes right after a generation, unless it wraps around. -/
theorem lt_next_iff {g x : UInt32} (hg : g.toNat + 1 < 2 ^ 32) :
    (g + 1).toNat = g.toNat + 1 ∧ (x < g + 1 ↔ x = g ∨ x < g) := by
  have hnext : (g + 1).toNat = g.toNat + 1 := by
    rw [UInt32.toNat_add, UInt32.toNat_one, Nat.mod_eq_of_lt hg]
  refine ⟨hnext, ?_⟩
  rw [UInt32.lt_iff_toNat_lt, UInt32.lt_iff_toNat_lt, hnext, ← UInt32.toNat_inj]
  omega

/-- The release of a live handle makes that handle past and no other, unless its generation wraps
around. -/
theorem past_deallocate (he : a.isAlive e = true) (hroom : e.generation.toNat + 1 < 2 ^ 32)
    (hrun : a.deallocate e = (true, b)) :
    (∀ x, b.Past x ↔ x = e ∨ a.Past x) ∧
      ∀ (i : Nat) g, b.generations[i]? = some g →
        a.generations[i]? = some g ∨ g.toNat = e.generation.toNat + 1 := by
  have hgen := (isAlive_iff.1 he).2
  rw [deallocate, if_pos he, Prod.mk.injEq] at hrun
  obtain ⟨-, rfl⟩ := hrun
  refine ⟨fun x => ?_, fun i g hg => ?_⟩
  · simp only [Past, Array.getElem?_modify]
    by_cases hx : e.index = x.index
    · have hself : x = e ↔ x.generation = e.generation := by
        refine ⟨congrArg Entity.generation, fun h => ?_⟩
        cases x
        cases e
        simp_all
      rw [if_pos (congrArg UInt32.toNat hx), ← hx, hgen, hself]
      simp only [Option.map_some, Option.some.injEq, exists_eq_left']
      exact (lt_next_iff hroom).2
    · have hne : x ≠ e := by
        rintro rfl
        exact hx rfl
      rw [if_neg (mt UInt32.toNat_inj.1 hx)]
      simp [hne]
  · rw [Array.getElem?_modify] at hg
    split at hg
    · next hi =>
      rw [← hi, hgen, Option.map_some, Option.some.injEq] at hg
      exact .inr (hg ▸ (lt_next_iff (x := 0) hroom).1)
    · exact .inl hg

/-! ## The issued and the released handles -/

/-- The history knows the handles that were ever alive: each of them was issued once, those that
are past now were released once, and no generation is greater than the number of releases. -/
structure Recorded (H : List Use) (a : Allocator) : Prop where
  /-- The issued handles are those that are alive or past. -/
  mem_issued_iff : ∀ x, x ∈ issued H ↔ a.isAlive x = true ∨ a.Past x
  /-- The released handles are those that are past. -/
  mem_released_iff : ∀ x, x ∈ released H ↔ a.Past x
  /-- No handle was issued twice. -/
  nodup_issued : (issued H).Nodup
  /-- No handle was released twice. -/
  nodup_released : (released H).Nodup
  /-- Each generation stands for a release. -/
  generation_le : ∀ (i : Nat) g, a.generations[i]? = some g → g.toNat ≤ (released H).length

theorem recorded_empty : Recorded [] {} where
  mem_issued_iff := by simp [issued, isAlive, Past]
  mem_released_iff := by simp [released, Past]
  nodup_issued := List.nodup_nil
  nodup_released := List.nodup_nil
  generation_le := by simp

/-- The record keeps up with an issue, whose handle was never issued before. -/
theorem Recorded.allocate (h : Recorded H a) (hcoh : a.Coherent) :
    Recorded (.issue a.allocate.1 :: H) a.allocate.2 := by
  rcases hcoh.allocate_cases with ⟨e, b, hrun, -, hdead, halive⟩ | ⟨hrun, -⟩
  · obtain ⟨hnot, hpast, hgen⟩ := past_allocate hrun
    rw [hrun]
    refine ⟨fun x => ?_, fun x => ?_, ?_, h.nodup_released, fun i g hg => ?_⟩
    · rw [issued, List.mem_cons, h.mem_issued_iff, halive, hpast, or_assoc]
    · rw [released, h.mem_released_iff, hpast]
    · refine List.Nodup.cons (fun hmem => ?_) h.nodup_issued
      rcases (h.mem_issued_iff e).1 hmem with hlive | hpast
      · simp [hdead] at hlive
      · exact hnot hpast
    · rcases hgen i g hg with hold | rfl
      · exact h.generation_le i g hold
      · exact Nat.zero_le _
  · rw [hrun]
    exact ⟨h.mem_issued_iff, h.mem_released_iff, h.nodup_issued, h.nodup_released,
      h.generation_le⟩

/-- The record keeps up with a release as long as no generation wraps. -/
theorem Recorded.deallocate (h : Recorded H a) (hcoh : a.Coherent) (e : Entity)
    (hfew : (released (.release e (a.deallocate e).1 :: H)).length < 2 ^ 32) :
    Recorded (.release e (a.deallocate e).1 :: H) (a.deallocate e).2 := by
  cases he : a.isAlive e with
  | false =>
    rw [deallocate_of_not_isAlive he]
    exact ⟨h.mem_issued_iff, h.mem_released_iff, h.nodup_issued, h.nodup_released,
      h.generation_le⟩
  | true =>
    obtain ⟨b, hrun, -, halive⟩ := hcoh.deallocate_cases he
    rw [hrun] at hfew ⊢
    simp only [released, List.length_cons] at hfew
    have hle := h.generation_le _ _ (isAlive_iff.1 he).2
    obtain ⟨hpast, hgen⟩ := past_deallocate he (by omega) hrun
    refine ⟨fun x => ?_, fun x => ?_, h.nodup_issued, ?_, fun i g hg => ?_⟩
    · rw [issued, h.mem_issued_iff, halive, hpast]
      by_cases hx : x = e
      · simp [hx, he]
      · simp [hx]
    · rw [released, List.mem_cons, h.mem_released_iff, hpast]
    · refine List.Nodup.cons (fun hmem => ?_) h.nodup_released
      exact not_past_of_isAlive he ((h.mem_released_iff e).1 hmem)
    · rw [released, List.length_cons]
      rcases hgen i g hg with hold | hnext
      · exact Nat.le_succ_of_le (h.generation_le i g hold)
      · omega

/-- After any history with fewer releases than generations, the history and the allocator agree. -/
theorem Leads.recorded (h : Leads {} H a) (hfew : (released H).length < 2 ^ 32) :
    Recorded H a := by
  induction h with
  | start => exact recorded_empty
  | issue before ih => exact (ih hfew).allocate before.alive_iff_held.1
  | release before e ih =>
    refine (ih (Nat.lt_of_le_of_lt ?_ hfew)).deallocate before.alive_iff_held.1 e hfew
    rw [← List.singleton_append, released_append, List.length_append]
    exact Nat.le_add_left _ _

/-! ## The main theorem -/

/-- As long as there have been fewer than 2^32 releases, no handle is issued twice and the null
handle never.  The handles that are alive are those that were issued and not released since, a
release succeeds exactly for these, so at most once for a handle, and one that does not succeed
changes nothing.  A handle that was issued and is dead stays dead.  While there is room for another
slot, an issue succeeds. -/
theorem Leads.handles_apart (h : Leads {} H a) (hfew : (released H).length < 2 ^ 32) :
    (issued H).Nodup ∧ .null ∉ issued H ∧
    (∀ e, a.isAlive e = true ↔ Held H e) ∧
    (∀ e, ((a.deallocate e).1 = true ↔ a.isAlive e = true) ∧
      ((a.deallocate e).1 = false → (a.deallocate e).2 = a)) ∧
    (released H).Nodup ∧
    (∀ K b e, a.Leads K b → (released (K ++ H)).length < 2 ^ 32 →
      e ∈ issued H → a.isAlive e = false → b.isAlive e = false) ∧
    (a.slotCount < slotLimit → ∃ e, a.allocate.1 = some e) := by
  obtain ⟨hcoh, hheld⟩ := h.alive_iff_held
  have hrec := h.recorded hfew
  refine ⟨hrec.nodup_issued, fun hnull => ?_, hheld, fun e => ?_, hrec.nodup_released,
    fun K b e hK hfew' he hdead => ?_, fun hroom => ?_⟩
  · rcases (hrec.mem_issued_iff .null).1 hnull with hlive | ⟨g, hg, -⟩
    · exact hcoh.ne_null hlive rfl
    · have hlt := (Array.getElem?_eq_some_iff.1 hg).1
      have hle := hcoh.size_le
      simp only [slotLimit, Entity.null, UInt32.reduceToNat] at hlt hle
      omega
  · cases he : a.isAlive e with
    | false => simp [he]
    | true =>
      obtain ⟨b, hrun, -, -⟩ := hcoh.deallocate_cases he
      simp [hrun]
  · have hpast : a.Past e := by
      rcases (hrec.mem_issued_iff e).1 he with hlive | hpast
      · simp [hdead] at hlive
      · exact hpast
    have hmem : e ∈ released (K ++ H) := by
      rw [released_append]
      exact List.mem_append_right _ ((hrec.mem_released_iff e).2 hpast)
    have hpast' := (((h.trans hK).recorded hfew').mem_released_iff e).1 hmem
    rw [Bool.eq_false_iff]
    exact fun hlive => not_past_of_isAlive hlive hpast'
  · rcases hcoh.allocate_cases with ⟨e, b, hrun, -⟩ | ⟨-, hfull⟩
    · exact ⟨e, by rw [hrun]⟩
    · -- the slot after the last one would be alive
      obtain ⟨g, hg⟩ := hfull a.slotCount.toUInt32 (by rwa [toNat_index hroom])
      have hlt := index_lt_slotCount hg
      rw [toNat_index hroom] at hlt
      exact absurd hlt (Nat.lt_irrefl _)

/-- The second handle of a slot is told from the first, whose second release fails. -/
theorem Leads.handles_apart_reuse :
    ∃ (H K : List Use) (a b : Allocator), Leads {} H a ∧ a.Leads K b ∧
      issued (K ++ H) = [⟨0, 1⟩, ⟨0, 0⟩] ∧ (issued (K ++ H)).Nodup ∧
      (b.isAlive ⟨0, 1⟩ = true ↔ Held (K ++ H) ⟨0, 1⟩) ∧
      a.isAlive ⟨0, 0⟩ = false ∧ b.isAlive ⟨0, 0⟩ = false := by
  have hrun : Leads {} _ _ := (Leads.start.issue.release ⟨0, 0⟩).release ⟨0, 0⟩
  have hmore (a : Allocator) : a.Leads _ _ := Leads.start.issue.release .null
  have hapart := (hrun.trans (hmore _)).handles_apart (by decide)
  have hdead := (hrun.handles_apart (by decide)).2.2.2.2.2.1
  exact ⟨_, _, _, _, hrun, hmore _, rfl, hapart.1, hapart.2.2.1 _, rfl,
    hdead _ _ _ (hmore _) (by decide) (by decide) rfl⟩

end EntityStore.Allocator
