import EntityStore.Proofs.Moves

/-!
# Refusals leave no trace

A *use* (`Use`) of a store is an operation or one of the questions that may fail.  A use is
*refused* if it fails, if its checked form answers with an error, or if it is to finish a
construction that was not begun.  On a store that a run leaves, a use that is refused leaves the
store as it was, in all its parts (`Run.refusals_leave_no_trace`).  Edits of hierarchies are left
out, since they may fail half-way.

One failure is no refusal.  A closure that makes a value may fail itself, and `getOrAttach` creates
the pool before it runs the closure (`Use.FailsToMake`).  Then the pool stays, and the entry of its
component in the catalog, and nothing else is new.  So not every use that fails leaves the store as
it was (`Run.not_every_failure_leaves_no_trace`).

Most operations ask all their questions before they make a change.  So two notions carry the proof:
an action that is *certain* never fails, and an action that is *steady* leaves the state as it was
where it fails.  Questions followed by certain steps are steady.  Only the operations that are made
of other operations need an argument of their own: their later parts could fail, but not after the
first part went well.
-/

namespace EntityStore

/-! ## Steady actions -/

namespace Action

variable {σ ε ε' α β : Type} {x : Action σ ε α} {f : α → Action σ ε β}

/-- The action leaves every state as it is. -/
def Asks (x : Action σ ε α) : Prop := ∀ s, (x.run s).state = s

/-- The action never fails. -/
def Certain (x : Action σ ε α) : Prop := ∀ s, ∃ a, (x.run s).result = .ok a

/-- Where the action fails, it leaves the state as it was. -/
def Steady (x : Action σ ε α) : Prop :=
  ∀ s e, (x.run s).result = .error e → (x.run s).state = s

theorem asks_state : (state : Action σ ε σ).Asks := fun _ => rfl

theorem asks_query (q : σ → Except ε α) : (query q).Asks := fun _ => rfl

theorem asks_pure (a : α) : (pure a : Action σ ε α).Asks := fun _ => rfl

theorem asks_reportAll (rs : List Report) : (reportAll rs : Action σ ε Unit).Asks := fun _ => rfl

theorem asks_require (b : Bool) (e : ε) : (require b e : Action σ ε Unit).Asks := by
  intro s
  cases b <;> rfl

theorem certain_pure (a : α) : (pure a : Action σ ε α).Certain := fun _ => ⟨a, rfl⟩

theorem certain_state : (state : Action σ ε σ).Certain := fun s => ⟨s, rfl⟩

theorem certain_report (r : Report) : (report r : Action σ ε Unit).Certain := fun _ => ⟨(), rfl⟩

theorem certain_modify (g : σ → σ) : (modify g : Action σ ε Unit).Certain := fun _ => ⟨(), rfl⟩

theorem certain_modifyGet (g : σ → α × σ) : (modifyGet g : Action σ ε α).Certain :=
  fun s => ⟨(g s).1, rfl⟩

theorem certain_attempt (x : Action σ ε α) : (x.attempt : Action σ ε' (Except ε α)).Certain :=
  fun s => ⟨(x.run s).result, rfl⟩

theorem Certain.bind (hx : x.Certain) (hf : ∀ a, (f a).Certain) : (x >>= f).Certain := by
  intro s
  obtain ⟨a, ha⟩ := hx s
  obtain ⟨b, hb⟩ := hf a (x.run s).state
  exact ⟨b, (run_bind_of_ok f ha).1.trans hb⟩

/-- An action that never fails is steady. -/
theorem Certain.steady (hx : x.Certain) : x.Steady := by
  intro s e he
  obtain ⟨a, ha⟩ := hx s
  cases ha.symm.trans he

/-- An action that changes nothing is steady. -/
theorem Asks.steady (hx : x.Asks) : x.Steady := fun s _ _ => hx s

theorem Asks.bind (hx : x.Asks) (hf : ∀ a, (f a).Asks) : (x >>= f).Asks := by
  intro s
  cases hr : (x.run s).result with
  | ok a => exact (run_bind_of_ok f hr).2.trans ((hf a _).trans (hx s))
  | error e => exact (run_bind_of_error f hr).2.trans (hx s)

/-- Questions may come before a steady action. -/
theorem Asks.bind_steady (hx : x.Asks) (hf : ∀ a, (f a).Steady) : (x >>= f).Steady := by
  intro s e he
  cases hr : (x.run s).result with
  | ok a =>
    obtain ⟨hresult, hstate⟩ := run_bind_of_ok f hr
    rw [hx s] at hresult hstate
    exact hstate.trans (hf a s e (hresult.symm.trans he))
  | error e' => exact (run_bind_of_error f hr).2.trans (hx s)

theorem Steady.mapError (hx : x.Steady) (g : ε → ε') : (x.mapError g).Steady := by
  intro s e he
  rw [run_mapError] at he
  cases hr : (x.run s).result with
  | ok a =>
    rw [hr] at he
    cases he
  | error e' => exact hx s e' hr

end Action

variable {S : Schema}

/-! ## The operations on a single component -/

namespace Store

open EntityStore.Action

variable {ε : Type} {s : Store S} {e : Entity} {c : Component S}

theorem certain_ensurePool (c : Component S) :
    (ensurePool c : Action (Store S) ε Unit).Certain := by
  refine certain_state.bind fun s => ?_
  split
  · exact certain_pure _
  · exact (certain_modify _).bind fun _ => certain_report _

theorem certain_reportEviction (e : Entity) (c : Component S) :
    (reportEviction e c : Action (Store S) ε Unit).Certain := by
  refine certain_state.bind fun s => ?_
  split
  · exact certain_report _
  · exact certain_pure _

/-- A value can always be stored. -/
theorem certain_put (e : Entity) (c : Component S) (v : c.Value) :
    (put e c v : Action (Store S) ε Unit).Certain :=
  (certain_ensurePool c).bind fun _ => (certain_reportEviction e c).bind fun _ => certain_modify _

/-- To destroy an entity asks whether it is live, and cannot fail after that. -/
theorem steady_tryDestroy (e : Entity) : (tryDestroy (S := S) e).Steady :=
  (asks_query _).bind_steady fun _ =>
    ((certain_modifyGet _).bind fun _ => certain_report _).steady

/-- To attach asks whether the entity is live and has no such value, and cannot fail after that. -/
theorem steady_tryAttach (e : Entity) (c : Component S) (v : c.Value) :
    (tryAttach e c v).Steady :=
  asks_state.bind_steady fun _ => (asks_query _).bind_steady fun _ =>
    (asks_require _ _).bind_steady fun _ =>
      ((certain_put e c v).bind fun _ => certain_pure v).steady

theorem steady_attachOrReplace (e : Entity) (c : Component S) (v : c.Value) :
    (attachOrReplace e c v).Steady :=
  (asks_query _).bind_steady fun _ => ((certain_put e c v).bind fun _ => certain_pure v).steady

/-- A change of one component that comes after a question. -/
theorem steady_query_modify {α : Type} (q : Store S → Except ε α) (g : Store S → Store S) :
    (do
      let old ← query q
      modify g
      pure old : Action (Store S) ε α).Steady :=
  (asks_query q).bind_steady fun old => ((certain_modify g).bind fun _ => certain_pure old).steady

theorem steady_tryUpdate (e : Entity) (c : Component S) (f : c.Value → c.Value) :
    (tryUpdate e c f).Steady := steady_query_modify _ _

theorem steady_update? (e : Entity) (c : Component S) (f : c.Value → c.Value) :
    (update? e c f).Steady := steady_query_modify _ _

theorem steady_tryDetach (e : Entity) (c : Component S) : (tryDetach e c).Steady :=
  steady_query_modify _ _

theorem steady_detach? (e : Entity) (c : Component S) : (detach? e c).Steady :=
  steady_query_modify _ _

/-- The check of a whitelist only reports. -/
theorem asks_checkWhitelist (e : Entity) (w : Whitelist S) : (checkWhitelist e w).Asks := by
  refine (asks_query _).bind fun names => (asks_reportAll _).bind fun _ => ?_
  split
  · exact asks_pure _
  · exact asks_pure _

theorem certain_setContext (c : Component S) (name : String) (v : c.Value) :
    (setContext c name v : Action (Store S) ε c.Value).Certain := by
  refine certain_state.bind fun s => ?_
  split
  · exact (certain_report _).bind fun _ => (certain_modify _).bind fun _ => certain_pure v
  · exact (certain_modify _).bind fun _ => certain_pure v

/-- The closure runs before anything changes. -/
theorem steady_getOrSetContext (c : Component S) (name : String)
    (make : Unit → Except Fault c.Value) : (getOrSetContext c name make).Steady := by
  refine asks_state.bind_steady fun s => ?_
  cases s.contextValue? c with
  | some old => exact (certain_pure _).steady
  | none =>
    exact (asks_query _).bind_steady fun v =>
      ((certain_modify _).bind fun _ => certain_pure _).steady

/-! ## The operations that are made of others -/

/-- The handle of a dead entity is refused as stale. -/
theorem assertValid_of_dead (he : s.valid e = false) :
    s.assertValid e = .error (.refused (.stale e)) := by
  simp [assertValid, check, he, Except.mapError]

/-- The closure is not run for an entity that is not live. -/
theorem run_getOrAttach_of_dead (he : s.valid e = false)
    (make : Unit → Except Fault c.Value) :
    (getOrAttach e c make).run s = { result := .error (.refused (.stale e)), state := s } := by
  rw [getOrAttach, run_bind, run_query, assertValid_of_dead he]

/-- On a live entity only the closure can fail. -/
theorem Sound.make_of_getOrAttach (h : s.Sound) {make : Unit → Except Fault c.Value} {f : Fault}
    (hf : ((getOrAttach e c make).run s).result = .error f) (he : s.valid e = true) :
    s.lookup? e c = none ∧ make () = .error f := by
  rw [(settles_getOrAttach s h rfl).1, Contents.getOrAttach, live_contents, if_pos he,
    value?_contents] at hf
  cases hv : s.lookup? e c with
  | some v =>
    rw [hv] at hf
    cases hf
  | none =>
    rw [hv] at hf
    cases hmake : make () with
    | ok v =>
      rw [hmake] at hf
      cases hf
    | error f' =>
      rw [hmake] at hf
      cases hf
      exact ⟨rfl, rfl⟩

/-- Where the closure fails, the pool of the component is all that may be new. -/
theorem Sound.run_getOrAttach_of_make_error (h : s.Sound) (he : s.valid e = true)
    (hn : s.lookup? e c = none) {make : Unit → Except Fault c.Value} {f : Fault}
    (hmake : make () = .error f) :
    ((getOrAttach e c make).run s).result = .error f ∧
      ((getOrAttach e c make).run s).state =
        if s.pools.contains c then s else s.withPool c := by
  have hvalid : ((query (·.assertValid e) : Action (Store S) Fault Unit).run s).result = .ok () :=
    assertValid_of_valid he
  obtain ⟨hensured, hstate⟩ := Store.run_ensurePool (ε := Fault) s c
  obtain ⟨-, -, hcontents, -⟩ := h.run_ensurePool (ε := Fault) c
  have hnone : ((ensurePool c : Action (Store S) Fault Unit).run s).state.lookup? e c = none := by
    rw [← value?_contents, hcontents, value?_contents, hn]
  rw [getOrAttach, (run_bind_of_ok _ hvalid).1, (run_bind_of_ok _ hvalid).2]
  change ((ensurePool c >>= _ : Action (Store S) Fault _).run s).result = _ ∧
    ((ensurePool c >>= _ : Action (Store S) Fault _).run s).state = _
  rw [(run_bind_of_ok _ hensured).1, (run_bind_of_ok _ hensured).2, ← hstate]
  simp [run_bind, hnone, hmake]

/-- Where the closure fails, a pool may have been created, but no entity and no value changes. -/
theorem Sound.contents_getOrAttach_of_error (h : s.Sound) {make : Unit → Except Fault c.Value}
    {f : Fault} (hf : ((getOrAttach e c make).run s).result = .error f) :
    ((getOrAttach e c make).run s).state.contents = s.contents := by
  cases he : s.valid e with
  | false => rw [run_getOrAttach_of_dead he]
  | true =>
    obtain ⟨hn, hm⟩ := h.make_of_getOrAttach hf he
    rw [(settles_getOrAttach s h rfl).2.2, Contents.getOrAttach, live_contents, if_pos he,
      value?_contents, hn, hm]

/-- A step of construction fails only for an entity that is not live. -/
theorem valid_eq_false_of_onLive {α : Type} {a : α} {m : Contents S} {f : Fault}
    (hf : (s.contents.onLive e (.ok a, m)).1.mapError Fault.refused = .error f) :
    s.valid e = false := by
  cases he : s.valid e with
  | false => rfl
  | true =>
    rw [Contents.onLive_of_live he] at hf
    cases hf

/-- A construction that cannot begin changes nothing. -/
theorem Sound.state_beginConstruction (h : s.Sound) {f : Fault}
    (hf : ((beginConstruction e).run s).result = .error f) :
    ((beginConstruction e).run s).state = s := by
  have he := valid_eq_false_of_onLive ((settles_beginConstruction s h rfl).1.symm.trans hf)
  have hattach : ((attachOrReplace e (.mark .unfinished) ()).run s).result =
      .error (.refused (.stale e)) := by
    rw [attachOrReplace, run_bind, run_query, assertValid_of_dead he]
  exact (run_bind_of_error _ hattach).2.trans (steady_attachOrReplace _ _ _ s _ hattach)

/-- A construction that cannot end changes nothing. -/
theorem Sound.state_finishConstruction (h : s.Sound) {f : Fault}
    (hf : ((finishConstruction e).run s).result = .error f) :
    ((finishConstruction e).run s).state = s := by
  have he := valid_eq_false_of_onLive ((settles_finishConstruction s h rfl).1.symm.trans hf)
  have hdetach : ((detach? e (.mark .unfinished)).run s).result =
      .error (.refused (.stale e)) := by
    rw [detach?, run_bind, run_query, get?, assertValid_of_dead he]
    rfl
  exact (run_bind_of_error _ hdetach).2.trans (steady_detach? _ _ s _ hdetach)

end Store

/-- A change that gives back what it finds changes no table. -/
theorem Table.modify_eq_self {K : Type} {F : K → Type} [DecidableEq K] {t : Table K F} {k : K}
    {f : F k → F k} (hf : ∀ v, t.get? k = some v → f v = v) : t.modify k f = t := by
  obtain ⟨l⟩ := t
  refine congrArg Table.mk ?_
  change ∀ v, find? l k = some v → f v = v at hf
  induction l with
  | nil => rfl
  | cons x rest ih =>
    obtain ⟨j, w⟩ := x
    by_cases hj : j = k
    · subst hj
      simp [update, hf w (by simp [find?])]
    · have hrest : update k f rest = rest := ih fun v hv => hf v (by simpa [find?, hj] using hv)
      simp [update, hj, hrest]

namespace Store

open EntityStore.Action

variable {s : Store S} {e : Entity} {c : Component S}

/-- To drop what is not there changes nothing. -/
theorem Sound.run_drop_of_none {ε : Type} (h : s.Sound) (hn : s.lookup? e c = none) :
    (drop e c : Action (Store S) ε Unit).run s = { result := .ok (), state := s } := by
  have hpools : s.pools.modify c (·.erase e) = s.pools := by
    refine Table.modify_eq_self fun p hp => Pool.erase_of_position?_eq_none ?_
    have hget := (h.packed c p hp).isSome_get? (e := e)
    rw [← lookup?_of_pool? hp, hn] at hget
    exact Option.isNone_iff_eq_none.1 (by simpa [Pool.contains] using hget.symm)
  rw [drop, run_modify, hpools]

/-- A construction that was not begun is not finished, and nothing changes. -/
theorem Sound.state_finishConstruction_of_false (h : s.Sound)
    (hf : ((finishConstruction e).run s).result = .ok false) :
    ((finishConstruction e).run s).state = s := by
  have hr := (settles_finishConstruction s h rfl).1.symm.trans hf
  cases he : s.valid e with
  | false =>
    rw [Contents.onLive_of_dead he] at hr
    cases hr
  | true =>
    rw [Contents.onLive_of_live he, Contents.finishConstruction, value?_contents] at hr
    cases hn : s.lookup? e (.mark .unfinished) with
    | some u =>
      rw [hn] at hr
      cases hr
    | none =>
      have hdetach : (detach? e (.mark .unfinished)).run s =
          { result := .ok none, state := s } := by
        rw [detach?, run_bind, run_query, get?_of_valid he, hn]
        simp only [run_bind, h.run_drop_of_none hn, run_pure, List.append_nil]
      simp [finishConstruction, run_bind, hdetach]

/-- A context variable that was not set is not changed. -/
theorem steady_updateContext (c : Component S) (f : c.Value → c.Value) :
    (updateContext c f).Steady := by
  intro s e he
  cases hv : s.contextValue? c with
  | some v => simp [updateContext, updateContext?, run_bind, hv] at he
  | none =>
    have hget : s.context.get? c = none := by simpa [contextValue?] using hv
    have hcontext : (s.context.modify c fun x => { x with value := f x.value }) = s.context :=
      Table.modify_eq_self fun v hv => by simp [hget] at hv
    simp [updateContext, updateContext?, run_bind, hv, hcontext]

end Store

/-! ## Uses of a store -/

/-- A use of anything on a store that may fail: an operation, or a question that is not a call. -/
inductive Use (S : Schema) where
  /-- Use an operation. -/
  | op (k : Op S)
  /-- Ask whether an entity carries no component. -/
  | isOrphan (e : Entity)
  /-- Ask for the components of an entity. -/
  | visit (e : Entity)
  /-- Ask for a context variable that must be set. -/
  | contextValue (c : Component S)

/-- Whether a call answers that it has done nothing. -/
def Call.Declines : (k : Call S) → k.Answer → Prop
  | .tryDestroy _, r => ∃ err : StoreError, r = Except.error err
  | .tryAttach _ _ _, r => ∃ err : StoreError, r = Except.error err
  | .fetch _ _, r => ∃ err : StoreError, r = Except.error err
  | .tryUpdate _ _ _, r => ∃ err : StoreError, r = Except.error err
  | .tryDetach _ _, r => ∃ err : StoreError, r = Except.error err
  | _, _ => False

/-- Whether an operation answers that it has done nothing. -/
def Op.Declines : (k : Op S) → k.Answer → Prop
  | .call k, r => k.Declines r
  | .finishConstruction _, r => r = false
  | .checkWhitelist _ _, r => ∃ err : StoreError, r = Except.error err
  | _, _ => False

namespace Use

/-- What a use answers when it does not fail. -/
def Answer : Use S → Type
  | op k => k.Answer
  | isOrphan _ => Bool
  | visit _ => List (Component S × Info)
  | contextValue c => c.Value

/-- What a use does. -/
def run : (u : Use S) → Action (Store S) Fault u.Answer
  | op k => k.run
  | isOrphan e => Action.query (·.isOrphan e)
  | visit e => Action.query (·.visit e)
  | contextValue c => Action.query (·.contextValue c)

/-- Whether the use is no edit of a hierarchy. -/
def Plain : Use S → Prop
  | op k => k.tag? = none
  | isOrphan _ | visit _ | contextValue _ => True

/-- Whether a use answers that it has done nothing. -/
def Declines : (u : Use S) → u.Answer → Prop
  | op k, r => k.Declines r
  | isOrphan _, _ | visit _, _ | contextValue _, _ => False

/-- The closure fails that a use runs after it has made room for the value. -/
def FailsToMake : Use S → Store S → Prop
  | op (.call (.getOrAttach e c make)), s =>
    s.valid e = true ∧ s.lookup? e c = none ∧ ∃ f, make () = .error f
  | _, _ => False

/-- The store refuses a use: it fails, but not because of a closure that comes too late, or it has
done nothing. -/
def Refused (u : Use S) (s : Store S) : Prop :=
  ((∃ f, (u.run.run s).result = .error f) ∧ ¬ u.FailsToMake s) ∨
    ∃ a, (u.run.run s).result = .ok a ∧ u.Declines a

end Use

namespace Store

open EntityStore.Action

variable {s : Store S}

/-- A checked form that declines leaves the store as it was. -/
theorem state_of_declines {α : Type} {x : Action (Store S) StoreError α} {a : Except StoreError α}
    (hx : x.Steady) (ha : ((x.attempt : Action (Store S) Fault _).run s).result = .ok a)
    (hd : ∃ err, a = .error err) :
    ((x.attempt : Action (Store S) Fault _).run s).state = s := by
  obtain ⟨err, rfl⟩ := hd
  rw [run_attempt] at ha ⊢
  exact hx s err (Except.ok.inj ha)

/-- A call that declines leaves the store as it was. -/
theorem state_of_call_declines {k : Call S} {a : k.Answer} (ha : (k.run.run s).result = .ok a)
    (hd : k.Declines a) : (k.run.run s).state = s := by
  cases k with
  | tryDestroy e => exact state_of_declines (steady_tryDestroy e) ha hd
  | tryAttach e c v => exact state_of_declines (steady_tryAttach e c v) ha hd
  | fetch e c => exact state_of_declines (asks_query _).steady ha hd
  | tryUpdate e c f => exact state_of_declines (steady_tryUpdate e c f) ha hd
  | tryDetach e c => exact state_of_declines (steady_tryDetach e c) ha hd
  | _ => exact hd.elim

/-- A call that fails leaves the store as it was, unless a closure fails. -/
theorem Sound.state_of_call_fails (h : s.Sound) {k : Call S} {f : Fault}
    (hf : (k.run.run s).result = .error f) (hmake : ¬ (Use.op (.call k)).FailsToMake s) :
    (k.run.run s).state = s := by
  cases k with
  | create =>
    rcases h.run_create with ⟨e, hr, -⟩ | ⟨-, -, hstate, -⟩
    · cases hr.symm.trans hf
    · exact hstate
  | getOrAttach e c make =>
    cases he : s.valid e with
    | false => exact congrArg Outcome.state (run_getOrAttach_of_dead he make)
    | true =>
      obtain ⟨hn, hm⟩ := h.make_of_getOrAttach hf he
      exact (hmake ⟨he, hn, f, hm⟩).elim
  | destroy e => exact (steady_tryDestroy e).mapError _ s f hf
  | attach e c v => exact (steady_tryAttach e c v).mapError _ s f hf
  | attachOrReplace e c v => exact steady_attachOrReplace e c v s f hf
  | update e c g => exact (steady_tryUpdate e c g).mapError _ s f hf
  | update? e c g => exact steady_update? e c g s f hf
  | detach e c => exact (steady_tryDetach e c).mapError _ s f hf
  | detach? e c => exact steady_detach? e c s f hf
  | tryDestroy e => exact (certain_attempt _).steady s f hf
  | tryAttach e c v => exact (certain_attempt _).steady s f hf
  | fetch e c => exact (certain_attempt _).steady s f hf
  | tryUpdate e c g => exact (certain_attempt _).steady s f hf
  | tryDetach e c => exact (certain_attempt _).steady s f hf
  | updateAll c g => exact (certain_modifyGet _).steady s f hf
  | has e c => rfl
  | get e c => rfl
  | get? e c => rfl
  | view c => rfl

/-- A use that is refused leaves the store as it was. -/
theorem Sound.state_of_refused (h : s.Sound) {u : Use S} (hplain : u.Plain)
    (hu : u.Refused s) : (u.run.run s).state = s := by
  cases u with
  | isOrphan e => rfl
  | visit e => rfl
  | contextValue c => rfl
  | op k =>
    rcases hu with ⟨⟨f, hf⟩, hmake⟩ | ⟨a, ha, hd⟩
    · cases k with
      | call k => exact h.state_of_call_fails hf hmake
      | beginConstruction e => exact h.state_beginConstruction hf
      | finishConstruction e => exact h.state_finishConstruction hf
      | clearFinished =>
        obtain ⟨es, -, -, hr, -⟩ := h.run_clearFinished
        cases hr.symm.trans hf
      | checkWhitelist e w => exact asks_checkWhitelist e w s
      | setName c name => exact (certain_modify _).steady s f hf
      | setContext c name v => exact (certain_setContext c name v).steady s f hf
      | updateContext? c g => exact (certain_modifyGet _).steady s f hf
      | updateContext c g => exact steady_updateContext c g s f hf
      | getOrSetContext c name make => exact steady_getOrSetContext c name make s f hf
      | removeContext c => exact (certain_modifyGet _).steady s f hf
      | prependChild t p c => cases hplain
      | removeChild t p c => cases hplain
      | detachChild t c => cases hplain
      | clearSelection t sel => cases hplain
    · cases k with
      | call k => exact state_of_call_declines ha hd
      | finishConstruction e =>
        obtain rfl : a = false := hd
        exact h.state_finishConstruction_of_false ha
      | checkWhitelist e w => exact asks_checkWhitelist e w s
      | _ => exact hd.elim

end Store

/-! ## The two forms of an operation -/

/-- The first operation fails exactly where the second one refuses, and in the same words. -/
def Echoes {α : Type} (r : Except Fault α) (r' : Except StoreError α) : Prop :=
  ∀ text, (∃ f, r = .error f ∧ f.message = text) ↔ ∃ err, r' = .error err ∧ err.message = text

/-- The twin that fails with the error as a panic says the same. -/
theorem echoes_mapError {α : Type} (r : Except StoreError α) :
    Echoes (r.mapError .refused) r := by
  intro text
  cases r with
  | ok a =>
    refine ⟨?_, ?_⟩
    · rintro ⟨f, hf, -⟩
      cases hf
    · rintro ⟨err, herr, -⟩
      cases herr
  | error err =>
    refine ⟨?_, ?_⟩
    · rintro ⟨f, hf, htext⟩
      cases hf
      exact ⟨err, rfl, htext⟩
    · rintro ⟨err', herr, htext⟩
      cases herr
      exact ⟨.refused err, rfl, htext⟩

namespace Run

variable {s : Store S} {rs : List Report}

/-- On a store that a run leaves, starting from a new store:

* a use that is refused leaves the store as it was;
* where the store itself makes `getOrAttach` fail, it does not run the closure, and so every other
  closure would have done;
* where the closure fails instead, that is the failure, the pool of the component and its entry in
  the catalog are there, and the entities, the values and the names are as they were;
* each short form fails exactly where its checked form refuses, and in the same words. -/
theorem refusals_leave_no_trace (h : Run ({} : Store S) rs s) :
    (∀ u : Use S, u.Plain → u.Refused s → (u.run.run s).state = s) ∧
    (∀ e c make, (Use.op (.call (.getOrAttach e c make))).Refused s → ∀ make',
      (Store.getOrAttach e c make').run s = (Store.getOrAttach e c make).run s) ∧
    (∀ e c make f, (Use.op (.call (.getOrAttach e c make))).FailsToMake s → make () = .error f →
      ((Store.getOrAttach e c make).run s).result = .error f ∧
        ((Store.getOrAttach e c make).run s).state =
          (if s.pools.contains c then s else s.withPool c) ∧
        ((Store.getOrAttach e c make).run s).state.contents = s.contents) ∧
    (∀ e, Echoes ((Store.destroy e).run s).result ((Store.tryDestroy e).run s).result) ∧
    (∀ e c v, Echoes ((Store.attach e c v).run s).result ((Store.tryAttach e c v).run s).result) ∧
    (∀ e c, Echoes (s.get e c) (s.fetch e c)) ∧
    (∀ e c f, Echoes ((Store.update e c f).run s).result ((Store.tryUpdate e c f).run s).result) ∧
    ∀ e c, Echoes ((Store.detach e c).run s).result ((Store.tryDetach e c).run s).result := by
  obtain ⟨hs, -⟩ := h.sound Store.sound_empty
  refine ⟨fun u hplain hu => hs.state_of_refused hplain hu, fun e c make hu make' => ?_,
    fun e c make f hu hmake => ?_, fun e => echoes_mapError _, fun e c v => echoes_mapError _,
    fun e c => echoes_mapError _, fun e c f => echoes_mapError _, fun e c => echoes_mapError _⟩
  · rcases hu with ⟨⟨f, hf⟩, hmake⟩ | ⟨a, -, hd⟩
    · cases he : s.valid e with
      | false =>
        rw [Store.run_getOrAttach_of_dead he, Store.run_getOrAttach_of_dead he]
      | true =>
        obtain ⟨hn, hm⟩ := hs.make_of_getOrAttach hf he
        exact (hmake ⟨he, hn, f, hm⟩).elim
    · exact hd.elim
  · obtain ⟨he, hn, -⟩ := hu
    obtain ⟨hresult, hstate⟩ := hs.run_getOrAttach_of_make_error he hn hmake
    exact ⟨hresult, hstate, hs.contents_getOrAttach_of_error hresult⟩

/-- A handle whose slot another entity has taken over is refused, and the store stays. -/
theorem refusals_leave_no_trace_stale :
    ∃ (rs : List Report) (s : Store Schema.sample), Run {} rs s ∧
      (Use.op (.call (.attach ⟨0, 0⟩ (.data ()) (7 : Nat)))).Refused s ∧
      ((Store.attach ⟨0, 0⟩ (.data ()) (7 : Nat)).run s).state = s := by
  obtain ⟨rs, s, hrun, hresult⟩ : ∃ (rs : List Report) (s : Store Schema.sample), Run {} rs s ∧
      ((Store.attach ⟨0, 0⟩ (.data ()) (7 : Nat)).run s).result =
        .error (.refused (.stale ⟨0, 0⟩)) :=
    ⟨_, _, (((Run.refl {}).op (.call .create)).op (.call (.destroy ⟨0, 0⟩))).op (.call .create),
      rfl⟩
  have hrefused : (Use.op (.call (.attach ⟨0, 0⟩ (.data ()) (7 : Nat)))).Refused s :=
    .inl ⟨⟨_, hresult⟩, not_false⟩
  exact ⟨rs, s, hrun, hrefused, hrun.refusals_leave_no_trace.1 (.op (.call _)) rfl hrefused⟩

/-- Not every use that fails leaves the pools as they were: a closure fails on a new entity, and the
pool for the value that it did not make is there. -/
theorem not_every_failure_leaves_no_trace :
    ¬ ∀ (rs : List Report) (s : Store Schema.sample), Run {} rs s →
      ∀ u : Use Schema.sample, u.Plain → (∃ f, (u.run.run s).result = .error f) →
        ∀ c, (u.run.run s).state.pools.contains c = s.pools.contains c := by
  intro hclaim
  let make : Unit → Except Fault Nat := fun _ => .error .exhausted
  have hrun : Run ({} : Store Schema.sample) _ _ := (Run.refl {}).op (.call .create)
  have hpool := hclaim _ _ hrun (.op (.call (.getOrAttach ⟨0, 0⟩ (.data ()) make))) rfl ⟨_, rfl⟩
    (.data ())
  cases hpool

end Run

end EntityStore
