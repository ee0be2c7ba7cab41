import EntityStore.Construction
import EntityStore.Proofs.Operations

/-!
# What the steps of construction do to the contents

A step of construction only ever touches the marks of one entity, and a sweep takes one mark from
all entities that carry it.  `Contents.without` is what is left when a component is taken from some
entities.
-/

namespace EntityStore

variable {S : Schema}

namespace Contents

variable {m : Contents S} {e x : Entity} {es : List Entity} {c d : Component S}

/-- Removes the values of one component from some entities. -/
def without (m : Contents S) (c : Component S) (es : List Entity) : Contents S :=
  { m with
    value? := fun x => if x ∈ es then Function.update (m.value? x) c none else m.value? x }

/-- Marks an entity as lacking some of its parts. -/
def beginConstruction (m : Contents S) (e : Entity) : Contents S :=
  (m.assign e (.mark .unfinished) (some ())).assign e (.mark .finished) none

/-- Marks an entity as complete if it lacked some of its parts. -/
def finishConstruction (m : Contents S) (e : Entity) : Bool × Contents S :=
  match m.value? e (.mark .unfinished) with
  | none => (false, m)
  | some _ => (true, (m.assign e (.mark .unfinished) none).assign e (.mark .finished) (some ()))

@[simp] theorem live_without : (m.without c es).live = m.live := rfl

theorem value?_without_of_ne (h : d ≠ c) : (m.without c es).value? x d = m.value? x d := by
  simp only [without]
  split
  · exact Function.update_of_ne h ..
  · rfl

theorem without_nil : m.without c [] = m := by simp [without]

theorem without_assign (es : List Entity) :
    (m.assign e c none).without c es = m.without c (e :: es) := by
  ext1
  · rfl
  · funext x
    simp only [without, assign, List.mem_cons]
    by_cases hx : x = e
    · subst hx
      simp
    · simp [hx]
  · rfl

end Contents

namespace Store

open EntityStore.Action

variable {m : Contents S} {e : Entity} {c : Component S}

theorem settles_beginConstruction : (beginConstruction e).Settles m
    ((m.onLive e (.ok (), m.beginConstruction e)).1.mapError .refused)
    (m.onLive e (.ok (), m.beginConstruction e)).2 := by
  cases he : m.live e with
  | false =>
    have hattach := settles_attachOrReplace (m := m) (e := e) (c := .mark .unfinished) (v := ())
    rw [Contents.onLive_of_dead he] at hattach ⊢
    exact hattach.bind_error
  | true =>
    rw [Contents.onLive_of_live he]
    refine (settles_attachOrReplace_of_live he).bind ?_
    exact Settles.bind (settles_detach?_of_live he) (settles_pure ())

theorem settles_finishConstruction : (finishConstruction e).Settles m
    ((m.onLive e (.ok (m.finishConstruction e).1, (m.finishConstruction e).2)).1.mapError .refused)
    (m.onLive e (.ok (m.finishConstruction e).1, (m.finishConstruction e).2)).2 := by
  cases he : m.live e with
  | false =>
    have hdetach := settles_detach? (m := m) (e := e) (c := .mark .unfinished)
    rw [Contents.onLive_of_dead he] at hdetach ⊢
    exact hdetach.bind_error
  | true =>
    rw [Contents.onLive_of_live he]
    refine (settles_detach?_of_live he).bind ?_
    rw [Contents.finishConstruction]
    cases hv : m.value? e (.mark .unfinished) with
    | none =>
      rw [Contents.assign_eq_self hv]
      exact settles_pure false
    | some u => exact Settles.bind (settles_attachOrReplace_of_live he) (settles_pure true)

/-- A sweep takes a component from each of some entities that carry it. -/
theorem settles_detachEach {es : List Entity} (hn : es.Nodup)
    (he : ∀ e ∈ es, m.live e = true ∧ (m.value? e c).isSome = true) :
    (detachEach c es).Settles m (.ok ()) (m.without c es) := by
  induction es generalizing m with
  | nil =>
    rw [Contents.without_nil]
    exact settles_pure ()
  | cons e es ih =>
    obtain ⟨hnot, hn⟩ := List.nodup_cons.1 hn
    obtain ⟨hlive, hsome⟩ := he e List.mem_cons_self
    obtain ⟨v, hv⟩ := Option.isSome_iff_exists.1 hsome
    refine (settles_detach_of_some hlive hv).bind ?_
    rw [← Contents.without_assign]
    refine ih hn fun x hx => ?_
    have hxe : x ≠ e := fun h => hnot (h ▸ hx)
    rw [Contents.value?_assign_of_ne_entity hxe]
    exact he x (List.mem_cons_of_mem e hx)

/-- The owners of a component in its pool, if it has one, carry it and are listed once. -/
theorem Sound.owners_elim {s : Store S} (h : s.Sound) :
    ((s.pool? c).elim [] (·.entities)).Nodup ∧
      ∀ e, e ∈ (s.pool? c).elim [] (·.entities) ↔ (s.lookup? e c).isSome = true := by
  cases hp : s.pool? c with
  | none => simp [lookup?, hp]
  | some p =>
    refine ⟨(h.packed c p hp).nodup_entities, fun e => ?_⟩
    rw [lookup?_of_pool? hp]
    exact (h.packed c p hp).mem_entities_iff_isSome

/-- A sweep takes the mark `finished` from all entities that carry it, and counts them. -/
theorem Sound.run_clearFinished {s : Store S} (h : s.Sound) :
    ∃ es : List Entity, es.Nodup ∧
      (∀ e, e ∈ es ↔ (s.lookup? e (.mark .finished)).isSome = true) ∧
      (clearFinished.run s).result = .ok es.length ∧ (clearFinished.run s).Sound ∧
      (clearFinished.run s).state.contents = s.contents.without (.mark .finished) es := by
  obtain ⟨hn, hmem⟩ := h.owners_elim (c := .mark .finished)
  refine ⟨_, hn, hmem, ?_⟩
  generalize hes : (s.pool? (.mark .finished)).elim [] (·.entities) = es at hn hmem
  have hsweep : (detachEach (.mark .finished) es).Settles s.contents (.ok ())
      (s.contents.without (.mark .finished) es) :=
    settles_detachEach hn fun e he => by
      have hsome := (hmem e).1 he
      obtain ⟨v, hv⟩ := Option.isSome_iff_exists.1 hsome
      exact ⟨h.valid_of_lookup? hv, hsome⟩
  have hrun : clearFinished.run s =
      ((detachEach (.mark .finished) es >>= fun _ => do
        unless es.isEmpty do Action.report (clearedMarks es.length)
        pure es.length : Action (Store S) Fault Nat)).run s := by
    simp [clearFinished, run_bind, hes]
  rw [hrun]
  refine (hsweep.bind ?_) s h rfl
  split
  · exact settles_pure _
  · refine (settles_report ?_).bind (settles_pure _)
    simp [Report.IsEviction, clearedMarks]

end Store

end EntityStore
