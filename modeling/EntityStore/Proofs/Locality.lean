import EntityStore.Proofs.Agreement

/-!
# Actions that are local to some components

Two actions are *alike* (`Action.Alike`) if, on stores that agree on some components, they fail
alike or end with related values, and leave stores that agree again.  An action *spares* some
components (`Action.Spares`) if it leaves them, and the slots, as they were.  An action is *local*
to some components (`Action.Local`) if its result and what it does to them depend on nothing else,
and it spares all others.  It is *idle* (`Action.Idle`) if it spares some components and does not
fail.

The rules of this module follow an action step by step.  An action that is local is alike to itself
on any components that include its own (`Local.alike_of_le`).  An idle action may be left out, as
far as the components that it spares are concerned (`Alike.skip`).
-/

namespace EntityStore

variable {S : Schema} {ε ε' α α' β β' : Type}

/-- The results are the same failure, or related values. -/
inductive Matches (R : α → α' → Prop) : Except ε α → Except ε α' → Prop where
  /-- The values are related. -/
  | ok {a : α} {a' : α'} (h : R a a') : Matches R (.ok a) (.ok a')
  /-- The failures are the same. -/
  | error (e : ε) : Matches R (.error e) (.error e)

theorem matches_eq {r r' : Except ε α} (h : r = r') : Matches Eq r r' := by
  subst h
  cases r with
  | ok a => exact .ok rfl
  | error e => exact .error e

theorem Matches.imp {R R' : α → α' → Prop} {r : Except ε α} {r' : Except ε α'}
    (h : Matches R r r') (hR : ∀ a a', R a a' → R' a a') : Matches R' r r' := by
  cases h with
  | ok h => exact .ok (hR _ _ h)
  | error e => exact .error e

theorem Matches.eq {r r' : Except ε α} (h : Matches Eq r r') : r = r' := by
  cases h with
  | ok h => rw [h]
  | error e => rfl

namespace Action

/-- On stores that agree on some components, the actions fail alike or end with related values, and
leave stores that agree on these components. -/
def Alike (K : Component S → Prop) (R : α → α' → Prop) (x : Action (Store S) ε α)
    (x' : Action (Store S) ε α') : Prop :=
  ∀ s s' : Store S, s.Agree K s' →
    Matches R (x.run s).result (x'.run s').result ∧ (x.run s).state.Agree K (x'.run s').state

/-- The action leaves the slots and some components as they were. -/
def Spares (K : Component S → Prop) (x : Action (Store S) ε α) : Prop :=
  ∀ s : Store S, s.Agree K (x.run s).state

/-- The action depends on some components only, and leaves all others as they were. -/
structure Local (L : Component S → Prop) (x : Action (Store S) ε α) : Prop where
  /-- It does the same wherever these components are the same. -/
  alike : Alike L Eq x x
  /-- It leaves the others as they were. -/
  spares : Spares (fun c => ¬ L c) x

/-- The action ends with a value of some kind, and leaves the slots and some components as they
were. -/
def Idle (K : Component S → Prop) (P : α → Prop) (x : Action (Store S) ε α) : Prop :=
  ∀ s : Store S, ∃ a, (x.run s).result = .ok a ∧ P a ∧ s.Agree K (x.run s).state

variable {K L : Component S → Prop} {R : α → α' → Prop} {Q : β → β' → Prop}
  {x : Action (Store S) ε α} {x' : Action (Store S) ε α'}
  {f : α → Action (Store S) ε β} {f' : α' → Action (Store S) ε β'}

theorem Alike.imp {R' : α → α' → Prop} (hx : Alike K R x x') (hR : ∀ a a', R a a' → R' a a') :
    Alike K R' x x' :=
  fun s s' hs => ⟨(hx s s' hs).1.imp hR, (hx s s' hs).2⟩

theorem Spares.mono (hx : Spares K x) (hLK : ∀ c, L c → K c) : Spares L x :=
  fun s => (hx s).mono hLK

/-! ## Sequences -/

theorem Alike.bind (hx : Alike K R x x') (hf : ∀ a a', R a a' → Alike K Q (f a) (f' a')) :
    Alike K Q (x >>= f) (x' >>= f') := by
  intro s s' h
  obtain ⟨hresult, hstate⟩ := hx s s' h
  generalize hr : (x.run s).result = r at hresult
  generalize hr' : (x'.run s').result = r' at hresult
  cases hresult with
  | ok hab =>
    rw [(run_bind_of_ok f hr).1, (run_bind_of_ok f hr).2, (run_bind_of_ok f' hr').1,
      (run_bind_of_ok f' hr').2]
    exact hf _ _ hab _ _ hstate
  | error e =>
    rw [(run_bind_of_error f hr).1, (run_bind_of_error f hr).2, (run_bind_of_error f' hr').1,
      (run_bind_of_error f' hr').2]
    exact ⟨.error e, hstate⟩

theorem Spares.bind (hx : Spares K x) (hf : ∀ a, Spares K (f a)) : Spares K (x >>= f) := by
  intro s
  cases hr : (x.run s).result with
  | ok a =>
    rw [(run_bind_of_ok f hr).2]
    exact (hx s).trans (hf a _)
  | error e =>
    rw [(run_bind_of_error f hr).2]
    exact hx s

theorem Idle.bind {P : α → Prop} {Q : β → Prop} (hx : Idle K P x)
    (hf : ∀ a, P a → Idle K Q (f a)) : Idle K Q (x >>= f) := by
  intro s
  obtain ⟨a, ha, hPa, hstate⟩ := hx s
  obtain ⟨b, hb, hQb, hstate'⟩ := hf a hPa (x.run s).state
  rw [(run_bind_of_ok f ha).1, (run_bind_of_ok f ha).2]
  exact ⟨b, hb, hQb, hstate.trans hstate'⟩

/-- A first step that leaves the components of interest alone can be left out. -/
theorem Alike.skip {P : α → Prop} {Q : β → α' → Prop} (hx : Idle K P x)
    (hf : ∀ a, P a → Alike K Q (f a) x') : Alike K Q (x >>= f) x' := by
  intro s s' h
  obtain ⟨a, ha, hPa, hstate⟩ := hx s
  rw [(run_bind_of_ok f ha).1, (run_bind_of_ok f ha).2]
  exact hf a hPa _ _ (hstate.symm.trans h)

theorem Local.bind (hx : Local L x) (hf : ∀ a, Local L (f a)) : Local L (x >>= f) where
  alike := hx.alike.bind fun a _ haa => haa ▸ (hf a).alike
  spares := hx.spares.bind fun a => (hf a).spares

/-! ## Single steps -/

theorem alike_pure {a : α} {a' : α'} (h : R a a') :
    Alike K R (pure a : Action (Store S) ε α) (pure a') :=
  fun _ _ hs => ⟨.ok h, hs⟩

theorem alike_query {q q' : Store S → Except ε α} (h : ∀ s s', s.Agree K s' → q s = q' s') :
    Alike K Eq (query q) (query q') :=
  fun _ _ hs => ⟨matches_eq (h _ _ hs), hs⟩

theorem Alike.mapError {y y' : Action (Store S) ε α} (hy : Alike K Eq y y') (g : ε → ε') :
    Alike K Eq (y.mapError g) (y'.mapError g) := by
  intro s s' hs
  obtain ⟨hresult, hstate⟩ := hy s s' hs
  exact ⟨matches_eq (congrArg (·.mapError g) hresult.eq), hstate⟩

theorem alike_state : Alike K (Store.Agree K) (state : Action (Store S) ε (Store S)) state :=
  fun _ _ hs => ⟨.ok hs, hs⟩

theorem Alike.attempt (hx : Alike K R x x') :
    Alike K (Matches R) (x.attempt : Action (Store S) ε' (Except ε α)) x'.attempt :=
  fun s s' hs => ⟨.ok (hx s s' hs).1, (hx s s' hs).2⟩

theorem spares_pure (a : α) : Spares K (pure a : Action (Store S) ε α) := fun s => .refl s

theorem spares_query (q : Store S → Except ε α) : Spares K (query q) := fun s => .refl s

theorem spares_state : Spares K (state : Action (Store S) ε (Store S)) := fun s => .refl s

theorem spares_fail (e : ε) : Spares K (fail e : Action (Store S) ε α) := fun s => .refl s

theorem spares_modify {g : Store S → Store S} (h : ∀ s : Store S, s.Agree K (g s)) :
    Spares K (modify g : Action (Store S) ε Unit) := h

theorem spares_modifyGet {g : Store S → α × Store S} (h : ∀ s : Store S, s.Agree K (g s).2) :
    Spares K (modifyGet g : Action (Store S) ε α) := h

theorem spares_reportAll (rs : List Report) :
    Spares K (reportAll rs : Action (Store S) ε Unit) := fun s => .refl s

theorem idle_pure {P : α → Prop} {a : α} (h : P a) :
    Idle K P (pure a : Action (Store S) ε α) := fun s => ⟨a, rfl, h, .refl s⟩

theorem Spares.attempt (hx : Spares K x) :
    Idle K (fun _ => True) (x.attempt : Action (Store S) ε' (Except ε α)) :=
  fun s => ⟨(x.run s).result, rfl, trivial, hx s⟩

theorem Idle.attempt {P : α → Prop} (hx : Idle K P x) :
    Idle K (fun r => ∃ a, r = .ok a ∧ P a) (x.attempt : Action (Store S) ε' (Except ε α)) := by
  intro s
  obtain ⟨a, ha, hPa, hstate⟩ := hx s
  exact ⟨(x.run s).result, rfl, ⟨a, ha, hPa⟩, hstate⟩

theorem local_pure (a : α) : Local L (pure a : Action (Store S) ε α) :=
  ⟨alike_pure rfl, spares_pure a⟩

theorem local_fail (e : ε) : Local L (fail e : Action (Store S) ε α) :=
  ⟨fun _ _ hs => ⟨.error e, hs⟩, fun s => .refl s⟩

theorem local_query {q : Store S → Except ε α} (h : ∀ s s', s.Agree L s' → q s = q s') :
    Local L (query q) :=
  ⟨alike_query h, spares_query q⟩

theorem local_require (b : Bool) (e : ε) :
    Local L (require b e : Action (Store S) ε Unit) := by
  unfold require
  split
  · exact local_pure ()
  · exact local_fail e

theorem local_report (r : Report) : Local L (report r : Action (Store S) ε Unit) :=
  ⟨fun _ _ hs => ⟨.ok rfl, hs⟩, fun s => .refl s⟩

theorem Local.mapError (hx : Local L x) (g : ε → ε') : Local L (x.mapError g) :=
  ⟨hx.alike.mapError g, hx.spares⟩

/-- An action that looks at the state first is local if what it goes on with is, and depends on
nothing but the components. -/
theorem local_state_bind {g : Store S → Action (Store S) ε β}
    (h : ∀ s s', s.Agree L s' → g s = g s') (hg : ∀ s, Local L (g s)) :
    Local L (Action.state >>= g) := by
  have hrun : ∀ s, ((Action.state >>= g).run s).result = ((g s).run s).result ∧
      ((Action.state >>= g).run s).state = ((g s).run s).state :=
    fun s => run_bind_of_ok g rfl
  constructor
  · intro s s' hs
    rw [(hrun s).1, (hrun s).2, (hrun s').1, (hrun s').2, h s s' hs]
    exact (hg s').alike s s' hs
  · intro s
    rw [(hrun s).2]
    exact (hg s).spares s

/-- What is local to some components is alike to itself on any that include them. -/
theorem Local.alike_of_le (hx : Local L x) (hLK : ∀ c, L c → K c) : Alike K Eq x x := by
  intro s s' hs
  obtain ⟨hresult, hstate⟩ := hx.alike s s' (hs.mono hLK)
  refine ⟨hresult, .of_split hstate ?_⟩
  have hother : s.Agree (fun c => K c ∧ ¬ L c) s' := hs.mono fun c hc => hc.1
  exact (((hx.spares s).mono fun c hc => hc.2).symm.trans hother).trans
    ((hx.spares s').mono fun c hc => hc.2)

end Action

/-! ## Attaching and detaching -/

namespace Store

open EntityStore.Action

variable {L : Component S → Prop} {s s' : Store S} {e : Entity} {c d : Component S}

theorem ne_of_not_mem (hc : ¬ L c) (hd : L d) : c ≠ d := by
  rintro rfl
  exact hc hd

theorem agree_editPool (hc : ¬ L c) (g : Pool c.Value → Pool c.Value) :
    s.Agree L (s.editPool c g) where
  allocator := rfl
  pool _ hd := (pool?_editPool_of_ne (ne_of_not_mem hc hd)).symm
  name _ _ := rfl

theorem Agree.editPool (h : s.Agree L s') (g : Pool c.Value → Pool c.Value) :
    (s.editPool c g).Agree L (s'.editPool c g) where
  allocator := h.allocator
  pool d hd := by
    by_cases hcd : c = d
    · subst hcd
      rw [pool?_editPool_self, pool?_editPool_self, h.pool c hd]
    · rw [pool?_editPool_of_ne hcd, pool?_editPool_of_ne hcd, h.pool d hd]
  name := h.name

theorem agree_withPool (hc : ¬ L c) : s.Agree L (s.withPool c) where
  allocator := rfl
  pool _ hd := (pool?_withPool_of_ne (ne_of_not_mem hc hd)).symm
  name _ _ := (nameOf_ensure s.catalog).symm

theorem Agree.withPool (h : s.Agree L s') : (s.withPool c).Agree L (s'.withPool c) where
  allocator := h.allocator
  pool d hd := by
    by_cases hcd : c = d
    · subst hcd
      rw [pool?_withPool_self, pool?_withPool_self]
    · rw [pool?_withPool_of_ne hcd, pool?_withPool_of_ne hcd, h.pool d hd]
  name d hd := by
    show (s.catalog.ensure c).nameOf d = (s'.catalog.ensure c).nameOf d
    rw [nameOf_ensure, nameOf_ensure, h.name d hd]

theorem local_editPool (hc : L c) (g : Pool c.Value → Pool c.Value) :
    Local L (modify (·.editPool c g) : Action (Store S) ε Unit) :=
  ⟨fun _ _ h => ⟨.ok rfl, h.editPool g⟩, fun _ => agree_editPool (fun hn => hn hc) g⟩

theorem run_ensurePool (s : Store S) (c : Component S) :
    ((ensurePool c : Action (Store S) ε Unit).run s).result = .ok () ∧
      ((ensurePool c : Action (Store S) ε Unit).run s).state =
        if s.pools.contains c then s else s.withPool c := by
  by_cases hc : s.pools.contains c = true
  · simp [ensurePool, run_bind, hc]
  · simp [ensurePool, run_bind, hc]

theorem local_ensurePool (hc : L c) : Local L (ensurePool c : Action (Store S) ε Unit) where
  alike s s' h := by
    obtain ⟨hresult, hstate⟩ := run_ensurePool (ε := ε) s c
    obtain ⟨hresult', hstate'⟩ := run_ensurePool (ε := ε) s' c
    rw [hresult, hresult', hstate, hstate', h.contains hc]
    refine ⟨.ok rfl, ?_⟩
    split
    · exact h
    · exact h.withPool
  spares s := by
    rw [(run_ensurePool (ε := ε) s c).2]
    split
    · exact .refl s
    · exact agree_withPool fun hn => hn hc

theorem local_reportEviction (hc : L c) (e : Entity) :
    Local L (reportEviction e c : Action (Store S) ε Unit) := by
  refine local_state_bind (fun _ _ h => by rw [h.pool c hc]) fun s => ?_
  split
  · exact local_report _
  · exact local_pure ()

theorem local_put (hc : L c) (e : Entity) (v : c.Value) :
    Local L (put e c v : Action (Store S) ε Unit) :=
  (local_ensurePool hc).bind fun _ => (local_reportEviction hc e).bind fun _ =>
    local_editPool hc (·.insert e v)

theorem local_tryAttach (hc : L c) (e : Entity) (v : c.Value) : Local L (tryAttach e c v) := by
  refine local_state_bind (fun _ _ h => by rw [h.carries hc, h.name c hc]) fun s => ?_
  exact (local_query fun _ _ h => h.check e).bind fun _ => (local_require _ _).bind fun _ =>
    (local_put hc e v).bind fun _ => local_pure v

theorem local_attach (hc : L c) (e : Entity) (v : c.Value) : Local L (attach e c v) :=
  (local_tryAttach hc e v).mapError Fault.refused

theorem local_attachOrReplace (hc : L c) (e : Entity) (v : c.Value) :
    Local L (attachOrReplace e c v) :=
  (local_query fun _ _ h => h.assertValid e).bind fun _ =>
    (local_put hc e v).bind fun _ => local_pure v

theorem local_getOrAttach (hc : L c) (e : Entity) (make : Unit → Except Fault c.Value) :
    Local L (getOrAttach e c make) := by
  refine (local_query fun _ _ h => h.assertValid e).bind fun _ =>
    (local_ensurePool hc).bind fun _ => ?_
  refine local_state_bind (fun _ _ h => by rw [h.lookup? hc]) fun s => ?_
  split
  · exact local_pure _
  · exact (local_query fun _ _ _ => rfl).bind fun v => (local_put hc e v).bind fun _ =>
      local_pure _

theorem local_tryUpdate (hc : L c) (e : Entity) (f : c.Value → c.Value) :
    Local L (tryUpdate e c f) :=
  (local_query fun _ _ h => h.fetch hc e).bind fun old =>
    (local_editPool hc (·.modify e f)).bind fun _ => local_pure old

theorem local_update (hc : L c) (e : Entity) (f : c.Value → c.Value) : Local L (update e c f) :=
  (local_tryUpdate hc e f).mapError Fault.refused

theorem local_tryDetach (hc : L c) (e : Entity) : Local L (tryDetach e c) :=
  (local_query fun _ _ h => h.fetch hc e).bind fun old =>
    (local_editPool hc (·.erase e)).bind fun _ => local_pure old

theorem local_detach (hc : L c) (e : Entity) : Local L (detach e c) :=
  (local_tryDetach hc e).mapError Fault.refused

/-! ## Creation and destruction -/

theorem Agree.withAllocator (h : s.Agree L s') (a : Allocator) :
    ({ s with allocator := a } : Store S).Agree L { s' with allocator := a } :=
  ⟨rfl, h.pool, h.name⟩

theorem Agree.strip (h : s.Agree L s') (e : Entity) : (s.strip e).Agree L (s'.strip e) where
  allocator := h.allocator
  pool c hc := by rw [pool?_strip, pool?_strip, h.pool c hc]
  name := h.name

theorem run_create (s : Store S) :
    create.run s =
      { result := s.allocator.allocate.1.elim (.error .exhausted) .ok
        state := { s with allocator := s.allocator.allocate.2 } } := by
  simp only [create, Action.run]
  rcases s.allocator.allocate with ⟨_ | e, a⟩
  · rfl
  · rfl

theorem alike_create : Alike L Eq (create : Action (Store S) Fault Entity) create := by
  intro s s' h
  rw [run_create, run_create, h.allocator]
  exact ⟨matches_eq rfl, h.withAllocator _⟩

/-- A destruction reports how many components there were, but its result does not tell. -/
theorem alike_tryDestroy (e : Entity) :
    Alike L Eq (tryDestroy e : Action (Store S) StoreError Unit) (tryDestroy e) := by
  refine (alike_query fun _ _ h => h.check e).bind fun _ _ _ => ?_
  refine Alike.bind (R := fun _ _ => True) (fun s s' h => ⟨.ok trivial, ?_⟩) fun _ _ _ =>
    fun _ _ h => ⟨.ok rfl, h⟩
  show Agree L { s.strip e with allocator := (s.allocator.deallocate e).2 }
    { s'.strip e with allocator := (s'.allocator.deallocate e).2 }
  rw [h.allocator]
  exact (h.strip e).withAllocator _

theorem alike_destroy (e : Entity) :
    Alike L Eq (destroy e : Action (Store S) Fault Unit) (destroy e) :=
  (alike_tryDestroy e).mapError Fault.refused

end Store

end EntityStore
