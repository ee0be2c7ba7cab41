import EntityStore.Proofs.Rosters

/-!
# Sweeps

A sweep goes through the owners of the mark `finished` as they stood before it, while each removal
moves the last owner of the pool into the gap.  It uses the removal that fails where there is
nothing to remove.  In a sound store every owner is live and is listed once, so no removal finds
that its entry was taken already, and none fails (`Store.settles_detachEach`).

After a run a sweep counts the entities that carry the mark, empties the pool of the mark, and
changes nothing else (`Run.sweep_empties_one_pool`).
-/

namespace EntityStore

open EntityStore.Action Relation

variable {S : Schema} {s s' s'' : Store S} {c : Component S} {e : Entity} {es : List Entity}
  {rs : List Report}

namespace Store

/-! ## One pool -/

/-- Two stores differ in the pool of one component at most.  Each of them has that pool, in the same
place among the others, or neither has it. -/
structure Within (c : Component S) (s s' : Store S) : Prop where
  allocator : s'.allocator = s.allocator
  catalog : s'.catalog = s.catalog
  context : s'.context = s.context
  keys : s'.pools.keys = s.pools.keys
  other : ∀ d, d ≠ c → s'.pool? d = s.pool? d

namespace Within

theorem refl (s : Store S) : s.Within c s := ⟨rfl, rfl, rfl, rfl, fun _ _ => rfl⟩

theorem trans (h : s.Within c s') (h' : s'.Within c s'') : s.Within c s'' where
  allocator := h'.allocator.trans h.allocator
  catalog := h'.catalog.trans h.catalog
  context := h'.context.trans h.context
  keys := h'.keys.trans h.keys
  other d hd := (h'.other d hd).trans (h.other d hd)

theorem editPool (g : Pool c.Value → Pool c.Value) : s.Within c (s.editPool c g) where
  allocator := rfl
  catalog := rfl
  context := rfl
  keys := Table.keys_modify (t := s.pools) g
  other _ hd := pool?_editPool_of_ne hd.symm

theorem of_steps (h : ReflTransGen (Within c) s s') : s.Within c s' := by
  induction h with
  | refl => exact .refl s
  | tail _ hstep ih => exact ih.trans hstep

/-- A pool is there after the changes if it was there before. -/
theorem isSome_pool? (h : s.Within c s') : (s'.pool? c).isSome = (s.pool? c).isSome := by
  have hiff : (s'.pools.contains c = true) ↔ s.pools.contains c = true := by
    rw [Table.contains_iff_mem_keys, Table.contains_iff_mem_keys, h.keys]
  exact Bool.eq_iff_iff.2 hiff

end Within

theorem within_detach (c : Component S) (e : Entity) : (detach e c).Goes (Within c) :=
  Goes.mapError ((asks_query _).goes.bind fun old =>
    Goes.bind (fun s => .single (Within.editPool (s := s) fun p => p.erase e)) fun _ =>
      (asks_pure old).goes) _

/-- Each removal of a sweep, and so the whole, goes within one pool. -/
theorem within_detachEach (c : Component S) (es : List Entity) :
    (detachEach c es).Goes (Within c) := by
  induction es with
  | nil => exact (asks_pure ()).goes
  | cons e es ih => exact (within_detach c e).bind fun _ => ih

theorem within_clearFinished : (clearFinished (S := S)).Goes (Within (.mark .finished)) := by
  refine asks_state.goes.bind fun s => (within_detachEach _ _).bind fun _ => ?_
  split
  · exact (asks_pure _).goes
  · exact Asks.goes (x := Action.report _) (fun _ => rfl) |>.bind fun _ => (asks_pure _).goes

end Store

/-! ## The pool that is swept -/

/-- Nobody has a component that was taken from all who had it. -/
theorem Contents.value?_without_self {m : Contents S} {x : Entity}
    (h : (m.value? x c).isSome = true → x ∈ es) : (m.without c es).value? x c = none := by
  by_cases hx : x ∈ es
  · simp [without, hx]
  · simpa [without, hx] using mt h hx

namespace Store

/-- A pool is empty if nobody has the component. -/
theorem Sound.toList_eq_nil (h : s.Sound) (hnone : ∀ e, s.lookup? e c = none)
    {p : Pool c.Value} (hp : s.pool? c = some p) : p.toList = [] := by
  have hentities : p.entities = [] := by
    refine List.eq_nil_iff_forall_not_mem.2 fun e he => ?_
    rw [(h.packed c p hp).mem_entities_iff_isSome, ← lookup?_of_pool? hp, hnone] at he
    cases he
  rw [Pool.toList, ← Pool.entities, hentities, List.zip_nil_left]

/-- Where no pool has an entry, there is nothing to sweep. -/
theorem run_clearFinished_of_nil (h : s.roster (.mark .finished) = []) :
    clearFinished.run s = { result := .ok 0, state := s } := by
  rw [roster] at h
  simp [clearFinished, run_bind, h, detachEach]

/-- Distinct entities that carry a component, and no others, are as many as the live entities that
carry it. -/
theorem Sound.length_eq_of_mem_iff (h : s.Sound) (hn : es.Nodup)
    (hes : ∀ e, e ∈ es ↔ (s.lookup? e c).isSome = true) :
    es.length = (s.entities.filter (s.carries · c)).length := by
  refine ((List.perm_ext_iff_of_nodup hn (h.slots.nodup_entities.filter _)).2 fun e => ?_).length_eq
  rw [hes, List.mem_filter, h.slots.mem_entities_iff, h.carries_eq]
  refine ⟨fun hsome => ⟨?_, hsome⟩, And.right⟩
  obtain ⟨v, hv⟩ := Option.isSome_iff_exists.1 hsome
  exact h.valid_of_lookup? hv

/-- A store is swept: the pool of the mark `finished` is empty if it is there, nothing else is
different, and there is nothing left to sweep. -/
structure Swept (s s' : Store S) : Prop where
  /-- Slots, names, context variables and all other pools are the same. -/
  within : s.Within (.mark .finished) s'
  /-- The pool is empty.  None was opened. -/
  emptied : (s'.pool? (.mark .finished)).map Pool.toList =
    (s.pool? (.mark .finished)).map fun _ => []
  /-- A second sweep counts nothing and changes nothing. -/
  again : clearFinished.run s' = { result := .ok 0, state := s' }

/-- A sweep of a sound store counts the entities that carry the mark, and sweeps the store. -/
theorem Sound.swept (h : s.Sound) :
    (clearFinished.run s).result =
        .ok (s.entities.filter (s.carries · (.mark .finished))).length ∧
      s.Swept (clearFinished.run s).state := by
  obtain ⟨es, hn, hes, hresult, hsound, hcontents⟩ := h.run_clearFinished
  have hwithin : s.Within (.mark .finished) (clearFinished.run s).state :=
    .of_steps (within_clearFinished s)
  generalize clearFinished.run s = o at hresult hsound hcontents hwithin ⊢
  have hnone : ∀ e, o.state.lookup? e (.mark .finished) = none := by
    intro e
    rw [← value?_contents, hcontents]
    exact Contents.value?_without_self (hes e).2
  rw [hresult, h.length_eq_of_mem_iff hn hes]
  refine ⟨rfl, hwithin, ?_, run_clearFinished_of_nil ?_⟩
  · have hpool := hwithin.isSome_pool?
    cases hp : o.state.pool? (.mark .finished) with
    | none =>
      rw [hp, Option.isSome_none, eq_comm, Option.isSome_eq_false_iff,
        Option.isNone_iff_eq_none] at hpool
      rw [hpool]
      rfl
    | some p =>
      rw [hp, Option.isSome_some, eq_comm] at hpool
      obtain ⟨q, hq⟩ := Option.isSome_iff_exists.1 hpool
      rw [hq, Option.map_some, Option.map_some, hsound.state.toList_eq_nil hnone hp]
  · refine List.eq_nil_iff_forall_not_mem.2 fun e he => ?_
    rw [hsound.state.mem_roster_iff, hnone] at he
    cases he

end Store

/-- On a store that a run leaves, starting from a new store, a sweep does not fail.  It counts the
entities that carry the mark `finished`, whichever way it was attached, empties the pool of the
mark, and changes nothing else. -/
theorem Run.sweep_empties_one_pool (h : Run ({} : Store S) rs s) :
    (Store.clearFinished.run s).result =
        .ok (s.entities.filter (s.carries · (.mark .finished))).length ∧
      s.Swept (Store.clearFinished.run s).state :=
  (h.sound Store.sound_empty).1.swept

/-- One construction was finished, one was begun, and one entity was given the mark as it is. -/
theorem Run.sweep_empties_one_pool_marked :
    ∃ (rs : List Report) (s : Store Schema.sample), Run {} rs s ∧
      s.roster (.mark .finished) = [⟨2, 0⟩, ⟨0, 0⟩] ∧
      s.roster (.mark .unfinished) = [⟨1, 0⟩] ∧
      (Store.clearFinished.run s).result = .ok 2 ∧
      s.Swept (Store.clearFinished.run s).state := by
  have hnew : Run (S := Schema.sample) {} _ _ :=
    (((Run.refl {}).op (.call .create)).op (.call .create)).op (.call .create)
  have hrun : Run (S := Schema.sample) {} _ _ :=
    ((((hnew.op (.call (.attach ⟨2, 0⟩ (.mark .finished) ()))).op
      (.beginConstruction ⟨0, 0⟩)).op (.finishConstruction ⟨0, 0⟩)).op
      (.beginConstruction ⟨1, 0⟩))
  exact ⟨_, _, hrun, rfl, rfl, hrun.sweep_empties_one_pool⟩

end EntityStore
