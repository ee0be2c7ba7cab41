import EntityStore.Proofs.Settling

/-!
# What the operations do to the contents

Each operation of a store is given by what it does to the contents: its answer and the contents
that it leaves, as a function of the contents that it finds (`Contents.onLive` and the functions
after it).  The handle is checked first, then the presence of the component, and an operation that
refuses leaves the contents alone.
-/

namespace EntityStore

variable {S : Schema} {α : Type}

/-! ## Answers and changes -/

namespace Contents

/-- The answer about an entity that must be live. -/
def onLive (m : Contents S) (e : Entity) (x : Except StoreError α × Contents S) :
    Except StoreError α × Contents S :=
  if m.live e then x else (.error (.stale e), m)

/-- Answers with the value of a component, which must be there, and changes the contents. -/
def withValue (m : Contents S) (e : Entity) (c : Component S) (g : c.Value → Contents S) :
    Except StoreError c.Value × Contents S :=
  m.onLive e <|
    match m.value? e c with
    | some v => (.ok v, g v)
    | none => (.error (.missing e (m.name c)), m)

/-- Gives a value to a component, which must not be there. -/
def attach (m : Contents S) (e : Entity) (c : Component S) (v : c.Value) :
    Except StoreError c.Value × Contents S :=
  m.onLive e <|
    match m.value? e c with
    | some _ => (.error (.duplicate e (m.name c)), m)
    | none => (.ok v, m.assign e c (some v))

/-- Answers with the value of a component, which is made if it is not there. -/
def getOrAttach (m : Contents S) (e : Entity) (c : Component S)
    (make : Unit → Except Fault c.Value) : Except Fault (c.Value × Bool) × Contents S :=
  if m.live e then
    match m.value? e c with
    | some v => (.ok (v, false), m)
    | none =>
      match make () with
      | .ok v => (.ok (v, true), m.assign e c (some v))
      | .error f => (.error f, m)
  else (.error (.refused (.stale e)), m)

variable {m : Contents S} {e : Entity} {c : Component S}

theorem onLive_of_live {x : Except StoreError α × Contents S} (h : m.live e = true) :
    m.onLive e x = x := if_pos h

theorem onLive_of_dead {x : Except StoreError α × Contents S} (h : m.live e = false) :
    m.onLive e x = (.error (.stale e), m) := by simp [onLive, h]

/-- A question leaves the contents alone. -/
@[simp] theorem onLive_self_snd (r : Except StoreError α) : (m.onLive e (r, m)).2 = m := by
  unfold onLive
  split <;> rfl

@[simp] theorem withValue_self_snd : (m.withValue e c fun _ => m).2 = m := by
  unfold withValue
  cases m.value? e c <;> exact onLive_self_snd _

end Contents

namespace Store

open EntityStore.Action

variable {ε : Type} {s : Store S} {m : Contents S} {e : Entity} {c : Component S} {v : c.Value}

/-! ## Reading -/

theorem check_eq : s.check e = (s.contents.onLive e (.ok (), s.contents)).1 := by
  cases he : s.valid e <;> simp [check, Contents.onLive, he]

theorem assertValid_eq :
    s.assertValid e = (s.contents.onLive e (.ok (), s.contents)).1.mapError .refused := by
  rw [assertValid, check_eq]

theorem fetch_eq (g : c.Value → Contents S) :
    s.fetch e c = (s.contents.withValue e c g).1 := by
  rw [fetch, check_eq, Contents.withValue]
  cases he : s.valid e with
  | false => simp only [Contents.onLive, live_contents, he]; rfl
  | true =>
    simp only [Contents.onLive, live_contents, he, value?_contents]
    cases s.lookup? e c <;> rfl

theorem get_eq (g : c.Value → Contents S) :
    s.get e c = (s.contents.withValue e c g).1.mapError .refused := by
  rw [get, fetch_eq g]

theorem get?_eq : s.get? e c =
    (s.contents.onLive e (.ok (s.contents.value? e c), s.contents)).1.mapError .refused := by
  rw [get?, assertValid_eq]
  cases he : s.valid e <;> simp only [Contents.onLive, live_contents, he] <;> rfl

theorem Sound.has_eq (h : s.Sound) : s.has e c =
    (s.contents.onLive e (.ok (s.contents.value? e c).isSome, s.contents)).1.mapError
      .refused := by
  rw [has, assertValid_eq, h.carries_eq]
  cases he : s.valid e <;> simp only [Contents.onLive, live_contents, he] <;> rfl

theorem settles_fetch : (query (·.fetch e c)).Settles m (m.withValue e c fun _ => m).1 m :=
  settles_query fun s _ hm => by rw [← hm]; exact fetch_eq _

theorem settles_get :
    (query (·.get e c)).Settles m ((m.withValue e c fun _ => m).1.mapError .refused) m :=
  settles_query fun s _ hm => by rw [← hm]; exact get_eq _

theorem settles_get? : (query (·.get? e c)).Settles m
    ((m.onLive e (.ok (m.value? e c), m)).1.mapError .refused) m :=
  settles_query fun s _ hm => by rw [← hm]; exact get?_eq

theorem settles_has : (query (·.has e c)).Settles m
    ((m.onLive e (.ok (m.value? e c).isSome, m)).1.mapError .refused) m :=
  settles_query fun s hs hm => by rw [← hm]; exact hs.has_eq

theorem settles_check (e : Entity) :
    (query (·.check e)).Settles m (m.onLive e (.ok (), m)).1 m :=
  settles_query fun s _ hm => by rw [← hm]; exact check_eq

theorem settles_assertValid (e : Entity) :
    (query (·.assertValid e)).Settles m ((m.onLive e (.ok (), m)).1.mapError .refused) m :=
  settles_query fun s _ hm => by rw [← hm]; exact assertValid_eq

/-! ## Putting values into pools -/

theorem not_isEviction_createdPool (info : Info) : ¬ (createdPool info).IsEviction := by
  simp [Report.IsEviction, createdPool]

/-- After its creation a pool is there, and the contents are what they were. -/
theorem Sound.run_ensurePool (h : s.Sound) (c : Component S) :
    ((ensurePool c : Action (Store S) ε Unit).run s).result = .ok () ∧
      ((ensurePool c : Action (Store S) ε Unit).run s).Sound ∧
      ((ensurePool c : Action (Store S) ε Unit).run s).state.contents = s.contents ∧
      ((ensurePool c : Action (Store S) ε Unit).run s).state.pools.contains c = true := by
  cases hc : s.pools.contains c with
  | true =>
    have hrun : (ensurePool c : Action (Store S) ε Unit).run s =
        { result := .ok (), state := s } := by
      simp [ensurePool, run_bind, hc]
    rw [hrun]
    exact ⟨rfl, ⟨h, by simp⟩, rfl, hc⟩
  | false =>
    have hrun : (ensurePool c : Action (Store S) ε Unit).run s =
        { result := .ok (), state := s.withPool c,
          reports := [createdPool (s.catalog.info c)] } := by
      simp [ensurePool, run_bind, hc]
    rw [hrun]
    refine ⟨rfl, ⟨h.withPool hc, ?_⟩, contents_withPool hc, ?_⟩
    · intro r hr
      rw [List.mem_singleton.1 hr]
      exact not_isEviction_createdPool _
    · exact Table.contains_iff_exists.2 ⟨_, pool?_withPool_self⟩

theorem settles_ensurePool : (ensurePool c : Action (Store S) ε Unit).Settles m (.ok ()) m := by
  intro s hs hm
  obtain ⟨hr, hsound, hcont, _⟩ := hs.run_ensurePool (ε := ε) c
  exact ⟨hr, hsound, hcont.trans hm⟩

/-- Nothing is evicted from a live entity. -/
theorem Sound.run_reportEviction (h : s.Sound) (he : s.valid e = true) :
    (reportEviction e c : Action (Store S) ε Unit).run s = { result := .ok (), state := s } := by
  have hnone : (s.pool? c).bind (·.evictee? e) = none := by
    cases hp : s.pool? c with
    | none => rfl
    | some p => exact h.evictee?_eq_none hp he
  simp [reportEviction, run_bind, hnone]

/-- A value that is stored for a live entity is what the entity has. -/
theorem settles_put (he : m.live e = true) (v : c.Value) :
    (put e c v : Action (Store S) ε Unit).Settles m (.ok ()) (m.assign e c (some v)) := by
  intro s hs hm
  obtain ⟨hr, hsound, hcont, hpool⟩ := hs.run_ensurePool (ε := ε) c
  generalize ho : (ensurePool c : Action (Store S) ε Unit).run s = o at hr hsound hcont hpool
  have hvalid : o.state.valid e = true := by
    rw [← live_contents, hcont, hm]
    exact he
  have hrun : (put e c v : Action (Store S) ε Unit).run s =
      { result := .ok (), state := o.state.editPool c (·.insert e v), reports := o.reports } := by
    simp only [put, run_bind, ho, hr, hsound.state.run_reportEviction hvalid]
    simp [editPool]
  rw [hrun]
  refine ⟨rfl, ⟨hsound.state.editPool_insert hvalid v, hsound.no_eviction⟩, ?_⟩
  rw [hsound.state.contents_editPool_insert hpool hvalid v, hcont, hm]

/-! ## Attaching -/

/-- To attach does to the contents what it does to a plain map of values. -/
theorem settles_tryAttach : (tryAttach e c v).Settles m (m.attach e c v).1
    (m.attach e c v).2 := by
  refine settles_state_bind fun s hs hm => ?_
  have hcheck := settles_check (m := m) e
  have hcarries : s.carries e c = (m.value? e c).isSome := by rw [← hm]; exact hs.carries_eq
  have hname : s.catalog.nameOf c = m.name c := by rw [← hm]; rfl
  cases he : m.live e with
  | false =>
    rw [Contents.attach, Contents.onLive_of_dead he]
    rw [Contents.onLive_of_dead he] at hcheck
    exact hcheck.bind_error
  | true =>
    rw [Contents.attach, Contents.onLive_of_live he]
    rw [Contents.onLive_of_live he] at hcheck
    refine hcheck.bind ?_
    cases hv : m.value? e c with
    | some w =>
      rw [hname]
      exact (settles_require_error (by simp [hcarries, hv]) _).bind_error
    | none =>
      refine (settles_require (by simp [hcarries, hv]) _).bind ?_
      exact (settles_put he v).bind (settles_pure v)

theorem settles_attach : (attach e c v).Settles m ((m.attach e c v).1.mapError .refused)
    (m.attach e c v).2 :=
  settles_tryAttach.mapError Fault.refused

theorem settles_attachOrReplace : (attachOrReplace e c v).Settles m
    ((m.onLive e (.ok v, m.assign e c (some v))).1.mapError .refused)
    (m.onLive e (.ok v, m.assign e c (some v))).2 := by
  have hcheck := settles_assertValid (m := m) e
  cases he : m.live e with
  | false =>
    rw [Contents.onLive_of_dead he] at hcheck ⊢
    exact hcheck.bind_error
  | true =>
    rw [Contents.onLive_of_live he] at hcheck ⊢
    exact hcheck.bind ((settles_put he v).bind (settles_pure v))

/-- To get or attach does to the contents what it does to a plain map of values. -/
theorem settles_getOrAttach {make : Unit → Except Fault c.Value} :
    (getOrAttach e c make).Settles m (m.getOrAttach e c make).1 (m.getOrAttach e c make).2 := by
  have hcheck := settles_assertValid (m := m) e
  cases he : m.live e with
  | false =>
    rw [Contents.onLive_of_dead he] at hcheck
    rw [Contents.getOrAttach, if_neg (by simp [he])]
    exact hcheck.bind_error
  | true =>
    rw [Contents.onLive_of_live he] at hcheck
    rw [Contents.getOrAttach, if_pos he]
    refine hcheck.bind (settles_ensurePool.bind (settles_state_bind fun s _ hm => ?_))
    have hlookup : s.lookup? e c = m.value? e c := by rw [← hm]; rfl
    rw [hlookup]
    cases m.value? e c with
    | some w => exact settles_pure _
    | none =>
      have hmake := settles_query (m := m) (q := fun _ => make ()) fun _ _ _ => rfl
      cases hv : make () with
      | error f =>
        rw [hv] at hmake
        exact hmake.bind_error
      | ok w =>
        rw [hv] at hmake
        exact hmake.bind ((settles_put he w).bind (settles_pure _))

/-! ## Changing values -/

theorem settles_overwrite (f : c.Value → c.Value) :
    (overwrite e c f : Action (Store S) ε Unit).Settles m (.ok ())
      (m.assign e c ((m.value? e c).map f)) :=
  settles_modify fun s hs hm => ⟨hs.editPool_modify f, by
    rw [← hm]
    exact hs.contents_editPool_modify f⟩

theorem settles_drop : (drop e c : Action (Store S) ε Unit).Settles m (.ok ())
    (m.assign e c none) :=
  settles_modify fun s hs hm => ⟨hs.editPool_erase, by
    rw [← hm]
    exact hs.contents_editPool_erase⟩

/-- An operation that fetches a value and then makes a change. -/
theorem settles_fetch_then {x : Action (Store S) StoreError Unit} {g : c.Value → Contents S}
    (hx : ∀ v, m.value? e c = some v → x.Settles m (.ok ()) (g v)) :
    (do
      let old ← query (·.fetch e c)
      x
      pure old : Action (Store S) StoreError c.Value).Settles m (m.withValue e c g).1
        (m.withValue e c g).2 := by
  have hfetch := settles_fetch (m := m) (e := e) (c := c)
  cases he : m.live e with
  | false =>
    rw [Contents.withValue, Contents.onLive_of_dead he] at hfetch ⊢
    exact hfetch.bind_error
  | true =>
    rw [Contents.withValue, Contents.onLive_of_live he] at hfetch ⊢
    cases hv : m.value? e c with
    | none =>
      rw [hv] at hfetch
      exact hfetch.bind_error
    | some v =>
      rw [hv] at hfetch
      exact hfetch.bind ((hx v hv).bind (settles_pure v))

/-- An operation that asks for a value and then makes a change. -/
theorem settles_get?_then {x : Action (Store S) Fault Unit} {m' : Contents S}
    (hx : x.Settles m (.ok ()) m') :
    (do
      let old ← query (·.get? e c)
      x
      pure old : Action (Store S) Fault (Option c.Value)).Settles m
        ((m.onLive e (.ok (m.value? e c), m')).1.mapError .refused)
        (m.onLive e (.ok (m.value? e c), m')).2 := by
  have hget := settles_get? (m := m) (e := e) (c := c)
  cases he : m.live e with
  | false =>
    rw [Contents.onLive_of_dead he] at hget ⊢
    exact hget.bind_error
  | true =>
    rw [Contents.onLive_of_live he] at hget ⊢
    exact hget.bind (hx.bind (settles_pure _))

/-- To change a value does to the contents what it does to a plain map of values. -/
theorem settles_tryUpdate (f : c.Value → c.Value) : (tryUpdate e c f).Settles m
    (m.withValue e c fun v => m.assign e c (some (f v))).1
    (m.withValue e c fun v => m.assign e c (some (f v))).2 :=
  settles_fetch_then fun v hv => by
    have h := settles_overwrite (ε := StoreError) (m := m) (e := e) f
    rwa [hv, Option.map_some] at h

theorem settles_update (f : c.Value → c.Value) : (update e c f).Settles m
    ((m.withValue e c fun v => m.assign e c (some (f v))).1.mapError .refused)
    (m.withValue e c fun v => m.assign e c (some (f v))).2 :=
  (settles_tryUpdate f).mapError Fault.refused

theorem settles_update? (f : c.Value → c.Value) : (update? e c f).Settles m
    ((m.onLive e (.ok (m.value? e c), m.assign e c ((m.value? e c).map f))).1.mapError .refused)
    (m.onLive e (.ok (m.value? e c), m.assign e c ((m.value? e c).map f))).2 :=
  settles_get?_then (settles_overwrite f)

/-- To change all values tells the old ones and changes each once. -/
theorem Sound.run_updateAll (h : s.Sound) (f : Entity → c.Value → c.Value) :
    ((updateAll c f : Action (Store S) ε (List (Entity × c.Value))).run s).result =
        .ok (s.view c) ∧
      ((updateAll c f : Action (Store S) ε (List (Entity × c.Value))).run s).Sound ∧
      ((updateAll c f : Action (Store S) ε (List (Entity × c.Value))).run s).state.contents =
        s.contents.revise c f := by
  rw [updateAll, run_modifyGet]
  exact ⟨rfl, ⟨h.editPool_mapValues f, by simp⟩, h.contents_editPool_mapValues f⟩

/-- A view lists each value of a component once. -/
theorem Sound.mem_view_iff (h : s.Sound) : (e, v) ∈ s.view c ↔ s.lookup? e c = some v := by
  cases hp : s.pool? c with
  | none => simp [view, lookup?, hp]
  | some p => rw [view, hp, lookup?_of_pool? hp]; exact (h.packed c p hp).mem_toList_iff

theorem Sound.nodup_view (h : s.Sound) : (s.view c).Nodup := by
  cases hp : s.pool? c with
  | none => simp [view, hp]
  | some p => rw [view, hp]; exact (h.packed c p hp).nodup_toList

/-! ## Detaching -/

/-- To detach does to the contents what it does to a plain map of values. -/
theorem settles_tryDetach : (tryDetach e c).Settles m
    (m.withValue e c fun _ => m.assign e c none).1
    (m.withValue e c fun _ => m.assign e c none).2 :=
  settles_fetch_then fun _ _ => settles_drop

theorem settles_detach : (detach e c).Settles m
    ((m.withValue e c fun _ => m.assign e c none).1.mapError .refused)
    (m.withValue e c fun _ => m.assign e c none).2 :=
  settles_tryDetach.mapError Fault.refused

theorem settles_detach? : (detach? e c).Settles m
    ((m.onLive e (.ok (m.value? e c), m.assign e c none)).1.mapError .refused)
    (m.onLive e (.ok (m.value? e c), m.assign e c none)).2 :=
  settles_get?_then settles_drop

/-! ## Live entities

These are the cases in which an operation succeeds, and one in which it does not. -/

theorem settles_get_of_some (he : m.live e = true) (hv : m.value? e c = some v) :
    (query (·.get e c)).Settles m (.ok v) m := by
  have h := settles_get (m := m) (e := e) (c := c)
  rwa [Contents.withValue, Contents.onLive_of_live he, hv] at h

theorem settles_attach_of_none (he : m.live e = true) (hv : m.value? e c = none) :
    (attach e c v).Settles m (.ok v) (m.assign e c (some v)) := by
  have h := settles_attach (m := m) (e := e) (c := c) (v := v)
  rwa [Contents.attach, Contents.onLive_of_live he, hv] at h

theorem settles_attachOrReplace_of_live (he : m.live e = true) :
    (attachOrReplace e c v).Settles m (.ok v) (m.assign e c (some v)) := by
  have h := settles_attachOrReplace (m := m) (e := e) (c := c) (v := v)
  rwa [Contents.onLive_of_live he] at h

theorem settles_getOrAttach_of_some (he : m.live e = true) (hv : m.value? e c = some v)
    (make : Unit → Except Fault c.Value) :
    (getOrAttach e c make).Settles m (.ok (v, false)) m := by
  have h : (getOrAttach e c make).Settles m _ _ := settles_getOrAttach
  rwa [Contents.getOrAttach, if_pos he, hv] at h

theorem settles_getOrAttach_of_none (he : m.live e = true) (hv : m.value? e c = none)
    (make : Unit → Except Fault c.Value) (hmake : make () = .ok v) :
    (getOrAttach e c make).Settles m (.ok (v, true)) (m.assign e c (some v)) := by
  have h : (getOrAttach e c make).Settles m _ _ := settles_getOrAttach
  rwa [Contents.getOrAttach, if_pos he, hv, hmake] at h

theorem settles_update_of_some (he : m.live e = true) (hv : m.value? e c = some v)
    (f : c.Value → c.Value) : (update e c f).Settles m (.ok v) (m.assign e c (some (f v))) := by
  have h := settles_update (m := m) (e := e) f
  rwa [Contents.withValue, Contents.onLive_of_live he, hv] at h

theorem settles_update_of_dead (he : m.live e = false) (f : c.Value → c.Value) :
    (update e c f).Settles m (.error (.refused (.stale e))) m := by
  have h := settles_update (m := m) (e := e) f
  rwa [Contents.withValue, Contents.onLive_of_dead he] at h

theorem settles_detach_of_some (he : m.live e = true) (hv : m.value? e c = some v) :
    (detach e c).Settles m (.ok v) (m.assign e c none) := by
  have h := settles_detach (m := m) (e := e) (c := c)
  rwa [Contents.withValue, Contents.onLive_of_live he, hv] at h

/-- A component that is not there cannot be detached. -/
theorem exists_settles_detach (hv : m.value? e c = none) :
    ∃ f, (detach e c).Settles m (.error (.refused f)) m := by
  have h := settles_detach (m := m) (e := e) (c := c)
  cases he : m.live e with
  | false =>
    rw [Contents.withValue, Contents.onLive_of_dead he] at h
    exact ⟨_, h⟩
  | true =>
    rw [Contents.withValue, Contents.onLive_of_live he, hv] at h
    exact ⟨_, h⟩

theorem settles_detach?_of_live (he : m.live e = true) :
    (detach? e c).Settles m (.ok (m.value? e c)) (m.assign e c none) := by
  have h := settles_detach? (m := m) (e := e) (c := c)
  rwa [Contents.onLive_of_live he] at h

/-! ## Issue and release -/

/-- A creation issues a handle that is not live, unless every slot there can be is in use. -/
theorem Sound.run_create (h : s.Sound) :
    (∃ e, (create.run s).result = .ok e ∧ s.valid e = false ∧ (create.run s).Sound ∧
      (create.run s).state.contents = s.contents.issue e) ∨
    ((create.run s).result = .error .exhausted ∧ (create.run s).Sound ∧
      (create.run s).state = s ∧
      ∀ i : UInt32, i.toNat < Allocator.slotLimit → ∃ g, s.valid ⟨i, g⟩ = true) := by
  rcases h.slots.allocate_cases with ⟨e, a, hrun, ha, hfresh, halive⟩ | ⟨hrun, hfull⟩
  · have heq : create.run s = { result := .ok e, state := { s with allocator := a } } := by
      simp only [create, Action.run, hrun]
    left
    refine ⟨e, by rw [heq], hfresh, ?_, ?_⟩
    · rw [heq]
      exact ⟨h.withAllocator ha fun c p hp x hx =>
        (halive x).2 (.inr (h.owner_valid c p hp x hx)), by simp⟩
    · rw [heq]
      exact contents_withAllocator_of_issue halive
  · have heq : create.run s = { result := .error .exhausted, state := s } := by
      simp only [create, Action.run, hrun]
    right
    rw [heq]
    exact ⟨rfl, ⟨h, by simp⟩, rfl, hfull⟩

theorem not_isEviction_destroyed (e : Entity) (n : Nat) : ¬ (destroyed e n).IsEviction := by
  simp [Report.IsEviction, destroyed]

/-- To destroy an entity releases it in the contents. -/
theorem settles_tryDestroy : (tryDestroy e).Settles m (m.onLive e (.ok (), m.release e)).1
    (m.onLive e (.ok (), m.release e)).2 := by
  have hcheck := settles_check (m := m) e
  cases he : m.live e with
  | false =>
    rw [Contents.onLive_of_dead he] at hcheck ⊢
    exact hcheck.bind_error
  | true =>
    rw [Contents.onLive_of_live he] at hcheck ⊢
    refine hcheck.bind fun s hs hm => ?_
    have hv : s.valid e = true := by rw [← live_contents, hm]; exact he
    obtain ⟨a, hrun, ha, halive⟩ := hs.slots.deallocate_cases hv
    rw [run_bind, run_modifyGet]
    simp only [hrun, run_report]
    refine ⟨trivial, ⟨hs.release ha halive, ?_⟩, ?_⟩
    · simpa using not_isEviction_destroyed e _
    · rw [← hm]
      exact hs.contents_release halive

theorem settles_destroy : (destroy e).Settles m
    ((m.onLive e (.ok (), m.release e)).1.mapError .refused)
    (m.onLive e (.ok (), m.release e)).2 :=
  settles_tryDestroy.mapError Fault.refused

theorem settles_destroy_of_live (he : m.live e = true) :
    (destroy e).Settles m (.ok ()) (m.release e) := by
  have hdestroy := settles_destroy (m := m) (e := e)
  rwa [Contents.onLive_of_live he] at hdestroy

end Store

end EntityStore
