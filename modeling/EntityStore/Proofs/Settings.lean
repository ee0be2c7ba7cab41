import EntityStore.Proofs.Courses
import Mathlib.Data.Set.Card

/-!
# The context stands alone

The context of a store is a map from types to values with names.  What it holds can be told from
the events of a run alone: the value of a variable is the one last written (`Routine.lastValue`),
and its name is the one with which the value was last stored (`Routine.lastContextName`).  A removal
forgets both, and a change keeps the name.

One step: the event of a deed accounts for what the deed makes of the context (`Routine.accounts`).
A run: whatever was done, the context is the map that the events make it, and every deed on the
context was answered as that map calls for (`Routine.Remembers`).  Deeds on the context and all
other deeds leave each other alone (`Routine.Course.context_stands_alone`).
-/

namespace EntityStore

open EntityStore.Action

variable {S : Schema}

namespace Routine

/-! ## What events tell of a variable -/

/-- What was written for one component, as another one sees it: it is for that one only if both are
the same. -/
def written {d : Component S} (x : Option d.Value) (c : Component S) : Option (Option c.Value) :=
  if h : d = c then some (h ▸ x) else none

/-- What an event writes to a context variable: a value, or that there is none any more. -/
def Event.value? (c : Component S) : Event S → Option (Option c.Value)
  | .deed (.use (.op (.setContext _ _ v))) _ => written (some v) c
  | .deed (.use (.op (.updateContext? _ f))) (.ok (some old)) => written (some (f old)) c
  | .deed (.use (.op (.updateContext _ f))) (.ok old) => written (some (f old)) c
  | .deed (.use (.op (.getOrSetContext _ _ _))) (.ok (v, true)) => written (some v) c
  | .deed (.use (.op (.removeContext d))) _ => written (none : Option d.Value) c
  | _ => none

/-- What an event makes of the name of a context variable.  A name comes with a value that is
stored, and stays while that value is changed. -/
def Event.name? (c : Component S) : Event S → Option (Option String)
  | .deed (.use (.op (.setContext d name _))) _ => if d = c then some (some name) else none
  | .deed (.use (.op (.getOrSetContext d name _))) (.ok (_, true)) =>
    if d = c then some (some name) else none
  | .deed (.use (.op (.removeContext d))) _ => if d = c then some none else none
  | _ => none

/-- The value last written to a context variable, unless the variable was removed since. -/
def lastValue (es : List (Event S)) (c : Component S) : Option c.Value :=
  (es.filterMap (Event.value? c)).getLast?.join

/-- The name with which a context variable was last stored, unless it was removed since. -/
def lastContextName (es : List (Event S)) (c : Component S) : Option String :=
  (es.filterMap (Event.name? c)).getLast?.join

/-- What a deed on the context answers where the variables have given values and names. -/
def Tells (value : (c : Component S) → Option c.Value) (name : Component S → Option String) :
    (k : Deed S) → Except Fault k.Answer → Prop
  | .use (.op (.setContext _ _ v)), r => r = .ok v
  | .use (.op (.updateContext? c _)), r => r = .ok (value c)
  | .use (.op (.updateContext c _)), r =>
    r = (value c).elim (.error (.refused (Store.unset c))) .ok
  | .use (.op (.getOrSetContext c _ make)), r =>
    r = (value c).elim ((make ()).map (·, true)) fun old => .ok (old, false)
  | .use (.op (.removeContext c)), r => r = .ok (value c)
  | .use (.contextValue c), r => r = (value c).elim (.error (.refused (Store.unset c))) .ok
  | .see (.contextValue? c), r => r = .ok (value c)
  | .see (.contextName? c), r => r = .ok (name c)
  | _, _ => True

variable {s u : Store S} {es : List (Event S)} {c d : Component S}

@[simp]
theorem written_self (x : Option d.Value) : written x d = some x := by
  simp [written]

theorem written_of_ne (h : d ≠ c) (x : Option d.Value) : written x c = none := by
  simp [written, h]

end Routine

/-! ## The table of the context -/

/-- A table has as many entries as there are keys with an entry. -/
theorem Table.encard_contains {K : Type} {F : K → Type} [DecidableEq K] {t : Table K F}
    (hn : t.keys.Nodup) : {k | t.contains k = true}.encard = t.size := by
  have hkeys : {k | t.contains k = true} = (t.keys.toFinset : Set K) := by
    ext k
    simp [Table.contains_iff_mem_keys]
  rw [hkeys, Set.encard_coe_eq_coe_finsetCard, List.toFinset_card_of_nodup hn, Table.keys,
    List.length_map, Table.size]

namespace Store

open Routine

variable {ε : Type} {s : Store S} {c d : Component S}

/-- After a variable was stored it has the new value, and the others have theirs. -/
theorem contextValue?_insert (x : Variable d.Value) :
    ({ s with context := s.context.insert d x } : Store S).contextValue? c =
      (written (some x.value) c).getD (s.contextValue? c) := by
  rcases eq_or_ne d c with rfl | hne
  · simp [contextValue?]
  · simp [contextValue?, written_of_ne hne, Table.get?_insert_of_ne _ hne]

/-- After a variable was stored it has the new name, and the others have theirs. -/
theorem contextName?_insert (x : Variable d.Value) :
    ({ s with context := s.context.insert d x } : Store S).contextName? c =
      (if d = c then some (some x.name) else none).getD (s.contextName? c) := by
  rcases eq_or_ne d c with rfl | hne
  · simp [contextName?]
  · simp [contextName?, hne, Table.get?_insert_of_ne _ hne]

/-- A variable that is not set is not changed. -/
theorem contextValue?_modify (f : d.Value → d.Value) :
    ({ s with context := s.context.modify d fun x => { x with value := f x.value } } :
      Store S).contextValue? c =
      ((s.contextValue? d).bind fun old => written (some (f old)) c).getD (s.contextValue? c) := by
  rcases eq_or_ne d c with rfl | hne
  · rw [contextValue?, Table.get?_modify_self, contextValue?]
    cases s.context.get? d with
    | none => rfl
    | some x => simp
  · rw [contextValue?, Table.get?_modify_of_ne _ hne, ← contextValue?]
    cases s.contextValue? d with
    | none => rfl
    | some old => rw [Option.bind_some, written_of_ne hne, Option.getD_none]

/-- A change of a value leaves all names. -/
theorem contextName?_modify (f : d.Value → d.Value) :
    ({ s with context := s.context.modify d fun x => { x with value := f x.value } } :
      Store S).contextName? c = s.contextName? c := by
  rcases eq_or_ne d c with rfl | hne
  · simp [contextName?, Function.comp_def]
  · simp [contextName?, Table.get?_modify_of_ne _ hne]

/-- A variable that was taken out has no value, and the others have theirs. -/
theorem contextValue?_erase :
    ({ s with context := s.context.erase d } : Store S).contextValue? c =
      (written (none : Option d.Value) c).getD (s.contextValue? c) := by
  rcases eq_or_ne d c with rfl | hne
  · simp [contextValue?]
  · simp [contextValue?, written_of_ne hne, Table.get?_erase_of_ne _ hne]

theorem contextName?_erase :
    ({ s with context := s.context.erase d } : Store S).contextName? c =
      (if d = c then some none else none).getD (s.contextName? c) := by
  rcases eq_or_ne d c with rfl | hne
  · simp [contextName?]
  · simp [contextName?, hne, Table.get?_erase_of_ne _ hne]

/-! ## Operations on the context -/

/-- To store a variable always works, and writes both its name and its value. -/
theorem run_setContext (c : Component S) (name : String) (v : c.Value) (s : Store S) :
    ((setContext c name v : Action (Store S) ε c.Value).run s).result = .ok v ∧
      ((setContext c name v : Action (Store S) ε c.Value).run s).state =
        { s with context := s.context.insert c ⟨name, v⟩ } := by
  rw [setContext, run_bind, run_state]
  dsimp only
  split
  · exact ⟨rfl, rfl⟩
  · exact ⟨rfl, rfl⟩

/-- A variable that is not there cannot be changed, and one that is there keeps its name. -/
theorem run_updateContext (c : Component S) (f : c.Value → c.Value) (s : Store S) :
    ((updateContext c f).run s).result =
        (s.contextValue? c).elim (.error (.refused (unset c))) .ok ∧
      ((updateContext c f).run s).state =
        { s with context := s.context.modify c fun x => { x with value := f x.value } } := by
  cases hv : s.contextValue? c with
  | some v => simp [updateContext, updateContext?, run_bind, hv]
  | none => simp [updateContext, updateContext?, run_bind, hv]

/-- Where a variable is set, it is answered and nothing else happens: whatever would have been made
is not made. -/
theorem run_getOrSetContext_of_some {old : c.Value} (hv : s.contextValue? c = some old)
    (name : String) (make : Unit → Except Fault c.Value) :
    (getOrSetContext c name make).run s = { result := .ok (old, false), state := s } := by
  simp [getOrSetContext, run_bind, hv]

theorem run_getOrSetContext_of_ok (hv : s.contextValue? c = none)
    {make : Unit → Except Fault c.Value} {v : c.Value} (hmake : make () = .ok v) (name : String) :
    (getOrSetContext c name make).run s =
      { result := .ok (v, true)
        state := { s with context := s.context.insert c ⟨name, v⟩ } } := by
  rw [getOrSetContext, run_bind, run_state]
  simp only [hv]
  rw [run_bind, run_query, hmake]
  rfl

/-- Where the making fails, nothing is set. -/
theorem run_getOrSetContext_of_error (hv : s.contextValue? c = none)
    {make : Unit → Except Fault c.Value} {f : Fault} (hmake : make () = .error f)
    (name : String) :
    (getOrSetContext c name make).run s = { result := .error f, state := s } := by
  simp [getOrSetContext, run_bind, hv, hmake]

end Store

/-! ## What a deed makes of the variables -/

namespace Routine

variable {s u : Store S} {es : List (Event S)} {c d : Component S}

/-- The event of a deed that ends with `r` and leaves `u` accounts for what comes of the context. -/
structure Accounts (s : Store S) (k : Deed S) (r : Except Fault k.Answer) (u : Store S) :
    Prop where
  /-- The values are those that the event tells, or else those before. -/
  value : ∀ c, u.contextValue? c = ((Event.deed k r).value? c).getD (s.contextValue? c)
  /-- So are the names. -/
  name : ∀ c, u.contextName? c = ((Event.deed k r).name? c).getD (s.contextName? c)
  /-- No type is entered twice. -/
  keys : s.context.keys.Nodup → u.context.keys.Nodup
  /-- The answer is the one that the values and names before call for. -/
  tells : Tells s.contextValue? s.contextName? k r

variable {k : Deed S} {r : Except Fault k.Answer}

theorem Accounts.congr {r' : Except Fault k.Answer} {u' : Store S}
    (h : Accounts s k r u) (hr : r' = r) (hu : u' = u) : Accounts s k r' u' := by
  subst hr hu
  exact h

/-- A deed that leaves the context alone and writes nothing of it. -/
theorem accounts_of_context (hu : u.context = s.context)
    (hvalue : ∀ c, (Event.deed k r).value? c = none)
    (hname : ∀ c, (Event.deed k r).name? c = none)
    (htells : Tells s.contextValue? s.contextName? k r) : Accounts s k r u where
  value c := by
    rw [hvalue, Store.contextValue?, hu]
    rfl
  name c := by
    rw [hname, Store.contextName?, hu]
    rfl
  keys h := by rwa [hu]
  tells := htells

/-- A deed that stores a value with a name. -/
theorem accounts_insert (x : Variable d.Value)
    (hvalue : ∀ c, (Event.deed k r).value? c = written (some x.value) c)
    (hname : ∀ c, (Event.deed k r).name? c = if d = c then some (some x.name) else none)
    (htells : Tells s.contextValue? s.contextName? k r) :
    Accounts s k r { s with context := s.context.insert d x } where
  value c := by rw [hvalue, Store.contextValue?_insert]
  name c := by rw [hname, Store.contextName?_insert]
  keys := Table.nodup_keys_insert_any
  tells := htells

/-- A deed that changes a value where there is one. -/
theorem accounts_modify (f : d.Value → d.Value)
    (hvalue : ∀ c, (Event.deed k r).value? c =
      (s.contextValue? d).bind fun old => written (some (f old)) c)
    (hname : ∀ c, (Event.deed k r).name? c = none)
    (htells : Tells s.contextValue? s.contextName? k r) :
    Accounts s k r
      { s with context := s.context.modify d fun x => { x with value := f x.value } } where
  value c := by rw [hvalue, Store.contextValue?_modify]
  name c := by
    rw [hname, Store.contextName?_modify]
    rfl
  keys h := by rwa [Table.keys_modify]
  tells := htells

theorem accounts_setContext (d : Component S) (name : String) (v : d.Value) :
    Accounts s (.use (.op (.setContext d name v))) (.ok v)
      { s with context := s.context.insert d ⟨name, v⟩ } :=
  accounts_insert ⟨name, v⟩ (fun _ => rfl) (fun _ => rfl) rfl

theorem accounts_updateContext? (d : Component S) (f : d.Value → d.Value) :
    Accounts s (.use (.op (.updateContext? d f))) (.ok (s.contextValue? d))
      { s with context := s.context.modify d fun x => { x with value := f x.value } } := by
  refine accounts_modify f (fun c => ?_) (fun _ => rfl) rfl
  cases s.contextValue? d with
  | some old => rfl
  | none => rfl

theorem accounts_updateContext (d : Component S) (f : d.Value → d.Value) :
    Accounts s (.use (.op (.updateContext d f)))
      ((s.contextValue? d).elim (.error (.refused (Store.unset d))) .ok)
      { s with context := s.context.modify d fun x => { x with value := f x.value } } := by
  refine accounts_modify f (fun c => ?_) (fun _ => rfl) rfl
  cases s.contextValue? d with
  | some old => rfl
  | none => rfl

theorem accounts_getOrSetContext_of_some {old : d.Value} (hv : s.contextValue? d = some old)
    (name : String) (make : Unit → Except Fault d.Value) :
    Accounts s (.use (.op (.getOrSetContext d name make))) (.ok (old, false)) s := by
  refine accounts_of_context rfl (fun _ => rfl) (fun _ => rfl) ?_
  rw [Tells, hv]
  rfl

theorem accounts_getOrSetContext_of_ok (hv : s.contextValue? d = none)
    {make : Unit → Except Fault d.Value} {v : d.Value} (hmake : make () = .ok v) (name : String) :
    Accounts s (.use (.op (.getOrSetContext d name make))) (.ok (v, true))
      { s with context := s.context.insert d ⟨name, v⟩ } := by
  refine accounts_insert ⟨name, v⟩ (fun _ => rfl) (fun _ => rfl) ?_
  rw [Tells, hv, hmake]
  rfl

theorem accounts_getOrSetContext_of_error (hv : s.contextValue? d = none)
    {make : Unit → Except Fault d.Value} {f : Fault} (hmake : make () = .error f)
    (name : String) : Accounts s (.use (.op (.getOrSetContext d name make))) (.error f) s := by
  refine accounts_of_context rfl (fun _ => rfl) (fun _ => rfl) ?_
  rw [Tells, hv, hmake]
  rfl

theorem accounts_removeContext (d : Component S) :
    Accounts s (.use (.op (.removeContext d))) (.ok (s.contextValue? d))
      { s with context := s.context.erase d } where
  value _ := Store.contextValue?_erase
  name _ := Store.contextName?_erase
  keys := Table.nodup_keys_erase
  tells := rfl

/-- The event of a deed accounts for what the deed makes of the context. -/
theorem accounts (k : Deed S) (s : Store S) :
    Accounts s k (k.run.run s).result (k.run.run s).state := by
  -- Five operations write to the context.  The others leave it alone, and questions leave all.
  cases k with
  | use u =>
    cases u with
    | op k =>
      cases k with
      | setContext d name v =>
        obtain ⟨hr, hu⟩ := Store.run_setContext (ε := Fault) d name v s
        exact (accounts_setContext d name v).congr hr hu
      | updateContext? d f => exact accounts_updateContext? d f
      | updateContext d f =>
        obtain ⟨hr, hu⟩ := Store.run_updateContext d f s
        exact (accounts_updateContext d f).congr hr hu
      | getOrSetContext d name make =>
        cases hv : s.contextValue? d with
        | some old =>
          have hrun := Store.run_getOrSetContext_of_some hv name make
          exact (accounts_getOrSetContext_of_some hv name make).congr (congrArg (·.result) hrun)
            (congrArg (·.state) hrun)
        | none =>
          cases hmake : make () with
          | ok v =>
            have hrun := Store.run_getOrSetContext_of_ok hv hmake name
            exact (accounts_getOrSetContext_of_ok hv hmake name).congr (congrArg (·.result) hrun)
              (congrArg (·.state) hrun)
          | error f =>
            have hrun := Store.run_getOrSetContext_of_error hv hmake name
            exact (accounts_getOrSetContext_of_error hv hmake name).congr
              (congrArg (·.result) hrun) (congrArg (·.state) hrun)
      | removeContext d => exact accounts_removeContext d
      | _ =>
        refine accounts_of_context (Deed.context_of_not_onContext ?_ s) (fun _ => rfl)
          (fun _ => rfl) trivial
        exact not_false
    | contextValue c =>
      refine accounts_of_context rfl (fun _ => rfl) (fun _ => rfl) ?_
      show s.contextValue c = _
      rw [Store.contextValue]
      cases s.contextValue? c with
      | some v => rfl
      | none => rfl
    | _ => exact accounts_of_context rfl (fun _ => rfl) (fun _ => rfl) trivial
  | see q =>
    refine accounts_of_context rfl (fun _ => rfl) (fun _ => rfl) ?_
    cases q with
    | contextValue? c => rfl
    | contextName? c => rfl
    | _ => trivial
  | _ => exact accounts_of_context rfl (fun _ => rfl) (fun _ => rfl) trivial

/-! ## Courses -/

/-- The last event counts, if it says something of the variable. -/
theorem lastValue_concat (es : List (Event S)) (v : Event S) (c : Component S) :
    lastValue (es ++ [v]) c = (v.value? c).getD (lastValue es c) := by
  rw [lastValue, List.filterMap_append]
  cases hv : v.value? c with
  | none => simp [hv, lastValue]
  | some o => simp [hv]

/-- The last event counts, if it says something of the name. -/
theorem lastContextName_concat (es : List (Event S)) (v : Event S) (c : Component S) :
    lastContextName (es ++ [v]) c = (v.name? c).getD (lastContextName es c) := by
  rw [lastContextName, List.filterMap_append]
  cases hv : v.name? c with
  | none => simp [hv, lastContextName]
  | some o => simp [hv]

/-- A run from a new store shows the values that were last written. -/
theorem Course.contextValue?_eq (h : Course {} es s) (c : Component S) :
    s.contextValue? c = lastValue es c := by
  induction h with
  | start => rfl
  | @deed es u before k ih => rw [lastValue_concat, (accounts k u).value, ih]
  | walk before t parent children failure ih =>
    rw [lastValue_concat, ih]
    rfl

/-- It shows the names with which they were stored. -/
theorem Course.contextName?_eq (h : Course {} es s) (c : Component S) :
    s.contextName? c = lastContextName es c := by
  induction h with
  | start => rfl
  | @deed es u before k ih => rw [lastContextName_concat, (accounts k u).name, ih]
  | walk before t parent children failure ih =>
    rw [lastContextName_concat, ih]
    rfl

theorem Course.nodup_keys (h : Course {} es s) : s.context.keys.Nodup := by
  induction h with
  | start => exact List.nodup_nil
  | @deed es u before k ih => exact (accounts k u).keys ih
  | walk before t parent children failure ih => exact ih

/-- Every deed on the context was answered as the values and names at the time call for. -/
theorem Course.tells (h : Course {} es s) {es₁ : List (Event S)} {k : Deed S}
    {r : Except Fault k.Answer} (hpre : es₁ ++ [.deed k r] <+: es) :
    Tells (lastValue es₁) (lastContextName es₁) k r := by
  induction h with
  | start => simp at hpre
  | @deed es u before k' ih =>
    rcases List.prefix_concat_iff.1 hpre with heq | hpre
    · obtain ⟨rfl, hlast⟩ := List.append_inj' heq rfl
      cases hlast
      have htells := (accounts k u).tells
      rwa [funext before.contextValue?_eq, funext before.contextName?_eq] at htells
    · exact ih hpre
  | walk before t parent children failure ih =>
    rcases List.prefix_concat_iff.1 hpre with heq | hpre
    · obtain ⟨-, hlast⟩ := List.append_inj' heq rfl
      cases hlast
    · exact ih hpre

/-- The context is the map that some events make it. -/
structure Remembers (es : List (Event S)) (s : Store S) : Prop where
  /-- Each variable has the value that was last written. -/
  value : ∀ c, s.contextValue? c = lastValue es c
  /-- Its name is the one with which it was last stored. -/
  name : ∀ c, s.contextName? c = lastContextName es c
  /-- The context has as many entries as there are variables that were set and not removed since. -/
  size : {c | (lastValue es c).isSome = true}.encard = s.context.size
  /-- Each deed on the context was answered as the values and names at the time call for. -/
  answers : ∀ es₁ k r, es₁ ++ [.deed k r] <+: es → Tells (lastValue es₁) (lastContextName es₁) k r
  /-- Where a variable is set, a request to set it if it is not answers its value and does nothing
  else, whatever the making would come to. -/
  kept : ∀ c old, lastValue es c = some old → ∀ name make,
    (Store.getOrSetContext c name make).run s = { result := .ok (old, false), state := s }
  /-- Where it is not set, the value is made and stored. -/
  made : ∀ c, lastValue es c = none → ∀ name make v, make () = .ok v →
    (Store.getOrSetContext c name make).run s =
      { result := .ok (v, true)
        state := { s with context := s.context.insert c ⟨name, v⟩ } }
  /-- Where it is not set and the making fails, that is the answer, and nothing is set. -/
  unmade : ∀ c, lastValue es c = none → ∀ name make f, make () = .error f →
    (Store.getOrSetContext c name make).run s = { result := .error f, state := s }

/-- After any course the variables are what its events tell. -/
theorem Course.remembers (h : Course {} es s) : Remembers es s where
  value := h.contextValue?_eq
  name := h.contextName?_eq
  size := by
    have hset : {c | (lastValue es c).isSome = true} = {c | s.context.contains c = true} := by
      ext c
      rw [Set.mem_ofPred_eq, ← h.contextValue?_eq, Store.contextValue?, Option.isSome_map]
      rfl
    rw [hset, Table.encard_contains h.nodup_keys]
  answers _ _ _ := h.tells
  kept c old hold name make :=
    Store.run_getOrSetContext_of_some ((h.contextValue?_eq c).trans hold) name make
  made c hnone name _ _ hmake :=
    Store.run_getOrSetContext_of_ok ((h.contextValue?_eq c).trans hnone) hmake name
  unmade c hnone name _ _ hmake :=
    Store.run_getOrSetContext_of_error ((h.contextValue?_eq c).trans hnone) hmake name

/-- A run from a new store leaves a context that is the map that its events make it, and whatever
routine comes next goes on with that map.

* While the routine does deeds on the context only, the entities, the pools and the catalog stay.
* While it does none, the context stays. -/
theorem Course.context_stands_alone (h : Course {} es s) :
    Remembers es s ∧
    ∀ p : Routine S,
      Course {} (es ++ p.events s) (p.after s) ∧
      Remembers (es ++ p.events s) (p.after s) ∧
      ((∀ k r, .deed k r ∈ p.events s → k.OnContext) →
        (p.after s).allocator = s.allocator ∧ (p.after s).pools = s.pools ∧
          (p.after s).catalog = s.catalog) ∧
      ((∀ k r, .deed k r ∈ p.events s → ¬ k.OnContext) → (p.after s).context = s.context) := by
  refine ⟨h.remembers, fun p => ?_⟩
  have hp := p.course s
  refine ⟨h.trans hp, (h.trans hp).remembers, fun hon => ?_, fun hoff => ?_⟩
  · have hbare := hp.fixes fun k r hk => Deed.bare_of_onContext (hon k r hk)
    exact ⟨congrArg (·.allocator) hbare, congrArg (·.pools) hbare, congrArg (·.catalog) hbare⟩
  · exact hp.fixes fun k r hk => Deed.context_of_not_onContext (hoff k r hk)

/-- A component and a context variable of the same type: the entity is destroyed, the variable
stays.  It is asked for with another name and another value while it is set, changed, and still has
its first name.  Another variable is set and removed. -/
theorem Course.context_stands_alone_same_type :
    ∃ (es : List (Event Schema.sample)) (s : Store Schema.sample), Course {} es s ∧
      Remembers es s ∧ s.contextValue? (.data ()) = some (2 : Nat) ∧
      s.contextName? (.data ()) = some "first" ∧ s.context.size = 1 ∧
      s.contextValue? (.mark .doomed) = none := by
  have h : Course ({} : Store Schema.sample) _ _ :=
    ((((((((Course.start.deed (.use (.op (.call .create)))).deed
      (.use (.op (.setContext (.data ()) "first" (1 : Nat))))).deed
      (.use (.op (.call (.attach ⟨0, 0⟩ (.data ()) (5 : Nat)))))).deed
      (.use (.op (.getOrSetContext (.data ()) "second" fun _ => .ok (9 : Nat))))).deed
      (.use (.op (.updateContext (.data ()) fun n : Nat => n + 1)))).deed
      (.use (.op (.setContext (.mark .doomed) "mark" ())))).deed
      (.use (.op (.call (.destroy ⟨0, 0⟩))))).deed
      (.use (.op (.removeContext (.mark .doomed)))))
  exact ⟨_, _, h, h.context_stands_alone.1, rfl, rfl, rfl, rfl⟩

end Routine

end EntityStore
