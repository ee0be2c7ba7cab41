import EntityStore.Proofs.Custody
import EntityStore.Proofs.Runs

/-!
# Reuse of a place and attachment

To put a value in the place of a component, a guarded store asks first whether the entity has the
component.  If so, it changes the value where it is, and if not, it attaches the value as one that
must not be there yet.  A store can do the same in one step (`Store.attachOrReplace`), which looks
for a place only once.

The two agree on every sound store.  The pool of a component that is there exists already, and an
insertion that finds its own handle is a change of the value in its place
(`Pool.Coherent.modify_const`).  Where the component is not there, the second question for it finds
nothing either.  `Guard.Reached` gives the guarded stores that can come about, and
`Guard.Reached.resets` says of all of them that the check of the sequence comes first and that
behind it nothing differs but the journal.
-/

namespace EntityStore

open EntityStore.Action

variable {S : Schema}

/-! ## Edits that agree -/

namespace Table

variable {K : Type} {F : K → Type} [DecidableEq K] {t : Table K F} {k : K}

theorem update_congr {f g : F k → F k} {l : List (Sigma F)}
    (h : ∀ v, find? l k = some v → f v = g v) : update k f l = update k g l := by
  induction l with
  | nil => rfl
  | cons x rest ih =>
    simp only [find?] at h
    unfold update
    split
    · next hk =>
      subst hk
      rw [h x.snd (by simp)]
    · next hk => rw [ih (by simpa [hk] using h)]

/-- Two changes that agree on an entry change it alike. -/
theorem modify_congr {f g : F k → F k} (h : ∀ v, t.get? k = some v → f v = g v) :
    t.modify k f = t.modify k g :=
  congrArg Table.mk (update_congr h)

end Table

/-- To insert a value for an owner is to change its value. -/
theorem Pool.Coherent.modify_const {α : Type} {p : Pool α} {e : Entity} (h : p.Coherent)
    (he : p.contains e = true) (v : α) : p.modify e (fun _ => v) = p.insert e v := by
  obtain ⟨i, hi⟩ := Option.isSome_iff_exists.1 he
  have hown := h.position?_eq_some_iff.1 hi
  have howners : p.owners.setIfInBounds i e = p.owners := by
    obtain ⟨hlt, rfl⟩ := Array.getElem?_eq_some_iff.1 hown
    rw [Array.setIfInBounds_def, dif_pos hlt, Array.set_getElem_self]
  have hvalues : p.values.modify i (fun _ => v) = p.values.setIfInBounds i v := by
    refine Array.ext_getElem? fun j => ?_
    rw [Array.getElem?_modify, Array.getElem?_setIfInBounds]
    split
    · next hj =>
      subst hj
      by_cases hlt : i < p.values.size <;> simp [hlt]
    · rfl
  rw [modify_of_position? hi, insert_of_held (h.held?_iff.2 ⟨e, hown, rfl⟩), howners, hvalues]

/-! ## Stores -/

/-- Errors may be renamed step by step. -/
theorem Action.mapError_bind {σ ε ε' α β : Type} (x : Action σ ε α) (f : α → Action σ ε β)
    (g : ε → ε') : (x >>= f).mapError g = x.mapError g >>= fun a => (f a).mapError g := by
  ext1 s
  simp only [run_mapError, run_bind]
  cases (x.run s).result <;> rfl

theorem Action.run_query_bind {σ ε α β : Type} {q : σ → Except ε α} {f : α → Action σ ε β} {s : σ}
    {a : α} (h : q s = .ok a) : (query q >>= f).run s = (f a).run s := by
  simp [run_bind, h]

namespace Store

variable {s : Store S} {e : Entity} {c : Component S} {v : c.Value} {name : String} {ε ε' : Type}

/-- To put a value into a pool never fails. -/
theorem mapError_put (g : ε → ε') :
    (put e c v : Action (Store S) ε Unit).mapError g = put e c v := by
  have hensure : (ensurePool c : Action (Store S) ε Unit).mapError g = ensurePool c := by
    ext1 s
    cases hc : s.pools.contains c <;> simp [ensurePool, run_bind, hc, Except.mapError]
  have hreport :
      (reportEviction e c : Action (Store S) ε Unit).mapError g = reportEviction e c := by
    ext1 s
    cases ho : (s.pool? c).bind (·.evictee? e) <;>
      simp [reportEviction, run_bind, ho, Except.mapError]
  rw [put, mapError_bind, hensure]
  simp only [mapError_bind, hreport]
  rfl

/-- Where the component is there, to put a value changes that value only. -/
theorem Sound.run_put_of_carries (h : s.Sound) (he : s.carries e c = true) :
    (put e c v : Action (Store S) ε Unit).run s =
      { result := .ok (), state := s.editPool c (·.insert e v) } := by
  obtain ⟨w, hw⟩ := Option.isSome_iff_exists.1 (h.carries_eq ▸ he)
  have hpool : s.pools.contains c = true := by
    obtain ⟨p, hp, -⟩ := Option.bind_eq_some_iff.1 hw
    exact Table.contains_iff_exists.2 ⟨p, hp⟩
  have hensure :
      (ensurePool c : Action (Store S) ε Unit).run s = { result := .ok (), state := s } := by
    simp [ensurePool, run_bind, hpool]
  simp only [put, run_bind, hensure, h.run_reportEviction (h.valid_of_lookup? hw), run_modify]
  rfl

theorem check_of_valid (he : s.valid e = true) : s.check e = .ok () := by rw [check, if_pos he]

theorem run_attachOrReplace_of_valid (he : s.valid e = true) :
    (attachOrReplace e c v).run s = ((put e c v : Action _ Fault _) >>= fun _ => pure v).run s :=
  run_query_bind (by rw [assertValid, check_of_valid he, Except.mapError])

theorem run_attachOrReplace_of_dead (he : s.valid e = false) :
    (attachOrReplace e c v).run s = { result := .error (.refused (.stale e)), state := s } := by
  have hrefused : s.assertValid e = .error (.refused (.stale e)) := by
    simp [assertValid, check, he, Except.mapError]
  rw [attachOrReplace, run_bind, run_query, hrefused]

/-- Where the component is not there, to attach it is the same whatever could be there. -/
theorem run_attach_of_not_carries (he : s.valid e = true) (hc : s.carries e c = false) :
    (attach e c v).run s = (attachOrReplace e c v).run s := by
  have htry : (tryAttach e c v).run s =
      ((put e c v : Action _ StoreError _) >>= fun _ => pure v).run s := by
    show (query (·.check e) >>= _).run s = _
    rw [run_query_bind (q := fun s : Store S => s.check e) (check_of_valid he)]
    simp only [require, hc]
    rfl
  rw [run_attachOrReplace_of_valid he, attach, run_mapError, htry, ← run_mapError, mapError_bind,
    mapError_put]
  rfl

/-- Where the component is there, to change its value is to put one in its place. -/
theorem Sound.run_update_of_carries (h : s.Sound) (hc : s.carries e c = true) :
    (update e c (fun _ => v) >>= fun _ => pure v).run s = (attachOrReplace e c v).run s := by
  obtain ⟨w, hw⟩ := Option.isSome_iff_exists.1 (h.carries_eq ▸ hc)
  have hvalid := h.valid_of_lookup? hw
  have hfetch : s.fetch e c = .ok w := by simp [fetch, check_of_valid hvalid, hw]
  have hpools : s.pools.modify c (·.modify e fun _ => v) = s.pools.modify c (·.insert e v) := by
    refine Table.modify_congr fun p hp => (h.packed c p hp).modify_const ?_ v
    have hp' : s.pool? c = some p := hp
    rwa [carries, hp', Option.any_some] at hc
  rw [run_attachOrReplace_of_valid hvalid]
  simp only [update, tryUpdate, overwrite, run_bind, run_mapError, run_query, hfetch, run_modify,
    run_pure, hpools, h.run_put_of_carries hc]
  rfl

/-- What is entered in the journal about the place of a value. -/
def placement (s : Store S) (name : String) (e : Entity) (c : Component S) : List Report :=
  if s.valid e then [if s.carries e c then Guard.reused name e else Guard.allocated name e] else []

/-- To reuse the place of a value or to attach it is the same as to attach it in the place of any
value there. -/
theorem Sound.run_resetOrCreate (h : s.Sound) (name : String) (e : Entity) (c : Component S)
    (v : c.Value) : (Store.resetOrCreate name e c v).run s =
      { (attachOrReplace e c v).run s with
        reports := s.placement name e c ++ ((attachOrReplace e c v).run s).reports } := by
  -- for a dead entity the first question fails, as the check of an attachment does
  cases hvalid : s.valid e with
  | false =>
    have hhas : s.has e c = .error (.refused (.stale e)) := by
      simp [has, assertValid, check, hvalid, Except.mapError, bind, Except.bind]
    rw [run_attachOrReplace_of_dead hvalid, placement, hvalid, Store.resetOrCreate, run_bind,
      run_query, hhas]
    rfl
  | true =>
    have hhas : s.has e c = .ok (s.carries e c) := by
      rw [has, assertValid, check_of_valid hvalid]
      rfl
    rw [Store.resetOrCreate, run_query_bind (q := fun s : Store S => s.has e c) hhas, placement,
      if_pos hvalid]
    cases hcarries : s.carries e c with
    | true => rw [if_pos rfl, if_pos rfl, ← h.run_update_of_carries hcarries]; rfl
    | false => rw [← run_attach_of_not_carries hvalid hcarries]; rfl

end Store

/-! ## Guarded stores -/

namespace Guard

variable {G : Guard S} {current : Option SequenceId} {name : String} {e : Entity} {c : Component S}
  {v : c.Value}

/-- What is entered in the journal when work is let through. -/
def binding (G : Guard S) : List Report :=
  if G.bound.isNone then [boundReport G.expected] else []

/-- The sequence that the guard expects passes, and an unbound guard is bound to it. -/
theorem run_check_of_eq (h : current = some G.expected) :
    (check current : Action (Guard S) SequenceError Unit).run G =
      { result := .ok (), state := { G with bound := some G.expected }, reports := G.binding } := by
  subst h
  obtain ⟨home, bound, store⟩ := G
  cases bound with
  | none => simp [check, run_bind, require, expected, binding]
  | some b => simp [check, run_bind, require, expected, binding]

/-- Work that the check lets through acts on the store inside. -/
theorem run_resetOrCreate_of_eq (h : current = some G.expected) :
    (resetOrCreate current name e c v).run G =
      { result := ((Store.resetOrCreate name e c v).run G.store).result.mapError .store
        state := { G with
          bound := some G.expected
          store := ((Store.resetOrCreate name e c v).run G.store).state }
        reports := G.binding ++ ((Store.resetOrCreate name e c v).run G.store).reports } := by
  rw [resetOrCreate, run_bind, run_mapError, run_check_of_eq h]
  rfl

/-- Work that the check does not let through does nothing. -/
theorem run_resetOrCreate_of_ne (h : current ≠ some G.expected) :
    (resetOrCreate current name e c v).run G =
      { result := .error (.refused (.wrongSequence G.expected current)), state := G } := by
  rw [resetOrCreate, run_bind, run_mapError, run_check_of_ne h]
  rfl

/-- A guarded store can come about: a store was put under guard, and since then it was used by work
that the check let through, values were put in their places, and it was handed over. -/
inductive Reached : Guard S → Prop where
  /-- A store is put under guard. -/
  | new {rs : List Report} {s : Store S} (before : Run {} rs s) (home : Home) :
      Reached { home, store := s }
  /-- Work that the check lets through uses the store. -/
  | access {G : Guard S} {rs : List Report} {s : Store S} (before : Reached G)
      (current : Option SequenceId)
      (passes : ((check current : Action (Guard S) SequenceError Unit).run G).result = .ok ())
      (uses : Run G.store rs s) :
      Reached
        { ((check current : Action (Guard S) SequenceError Unit).run G).state with store := s }
  /-- A value is put in its place, or that is refused. -/
  | reset {G : Guard S} (before : Reached G) (current : Option SequenceId) (name : String)
      (e : Entity) (c : Component S) (v : c.Value) :
      Reached ((resetOrCreate current name e c v).run G).state
  /-- The store is handed over. -/
  | transfer {G : Guard S} (before : Reached G) (home : Home) : Reached (G.transfer home)

/-- The check expects the sequence of the owner. -/
def Homed (G : Guard S) : Prop := G.bound = none ∨ G.bound = some G.home.sequence

theorem Homed.expected_eq (h : G.Homed) : G.expected = G.home.sequence := by
  rcases h with h | h <;> rw [expected, h] <;> rfl

/-- What comes of putting a value in its place. -/
structure Resets (G : Guard S) (current : Option SequenceId) (name : String) (e : Entity)
    (c : Component S) (v : c.Value) : Prop where
  /-- On the sequence of the owner, the answer and the store are those of an attachment in the place
  of any value there.  The journal also tells of the binding and, for a live entity, of the place,
  under the name. -/
  on_owner : current = some G.home.sequence →
    (resetOrCreate current name e c v).run G =
      { result := ((Store.attachOrReplace e c v).run G.store).result.mapError .store
        state := { G with
          bound := some G.home.sequence
          store := ((Store.attachOrReplace e c v).run G.store).state }
        reports := G.binding ++ G.store.placement name e c ++
          ((Store.attachOrReplace e c v).run G.store).reports }
  /-- There, a handle that is not live is refused, and the store stays as it is. -/
  stale : current = some G.home.sequence → G.store.valid e = false →
    ((resetOrCreate current name e c v).run G).result = .error (.store (.refused (.stale e))) ∧
      ((resetOrCreate current name e c v).run G).state.store = G.store
  /-- Elsewhere it is refused for the sequence, whatever the handle, and nothing changes. -/
  elsewhere : current ≠ some G.home.sequence →
    (resetOrCreate current name e c v).run G =
      { result := .error (.refused (.wrongSequence G.home.sequence current)), state := G }
  /-- The name matters to the journal only. -/
  any_name : ∀ other,
    ((resetOrCreate current other e c v).run G).result =
        ((resetOrCreate current name e c v).run G).result ∧
      ((resetOrCreate current other e c v).run G).state =
        ((resetOrCreate current name e c v).run G).state

/-- On a sound store of a guard that is at home, a reset is an attach or a replacement. -/
theorem resets_of_sound (hs : G.store.Sound) (hG : G.Homed) (current : Option SequenceId)
    (name : String) (e : Entity) (c : Component S) (v : c.Value) :
    G.Resets current name e c v := by
  have howner (name : String) (h : current = some G.home.sequence) := by
    rw [← hG.expected_eq] at h
    have hrun := @run_resetOrCreate_of_eq S G current name e c v h
    rw [hs.run_resetOrCreate, hG.expected_eq] at hrun
    exact hrun
  have helsewhere (name : String) (h : current ≠ some G.home.sequence) := by
    rw [← hG.expected_eq] at h
    have hrun := @run_resetOrCreate_of_ne S G current name e c v h
    rw [hG.expected_eq] at hrun
    exact hrun
  refine ⟨fun h => ?_, fun h he => ?_, helsewhere name, fun other => ?_⟩
  · rw [howner name h, List.append_assoc]
  · rw [howner name h, Store.run_attachOrReplace_of_dead he]
    exact ⟨rfl, rfl⟩
  · by_cases h : current = some G.home.sequence
    · rw [howner name h, howner other h]
      exact ⟨rfl, rfl⟩
    · rw [helsewhere name h, helsewhere other h]
      exact ⟨rfl, rfl⟩

/-- A guarded store that can come about is sound inside and bound to its owner, if at all. -/
theorem Reached.sound (h : Reached G) : G.store.Sound ∧ G.Homed := by
  induction h with
  | new before home => exact ⟨(before.sound Store.sound_empty).1, .inl rfl⟩
  | @access G rs s before current passes uses ih =>
    have hcurrent : current = some G.expected := by
      by_contra hne
      rw [run_check_of_ne hne] at passes
      simp at passes
    rw [run_check_of_eq hcurrent]
    exact ⟨(uses.sound ih.1).1, .inr (congrArg some ih.2.expected_eq)⟩
  | @reset G before current name e c v ih =>
    have hresets := resets_of_sound ih.1 ih.2 current name e c v
    by_cases h : current = some G.home.sequence
    · rw [hresets.on_owner h]
      exact ⟨(Store.safe_attachOrReplace e c v _ ih.1).state, .inr rfl⟩
    · rw [hresets.elsewhere h]
      exact ih
  | transfer before home ih => exact ⟨ih.1, .inl rfl⟩

/-- Whatever became of a guarded store, on the sequence of its owner a value is put in its place as
it is attached in the place of any value there, and elsewhere it is refused. -/
theorem Reached.resets (h : Reached G) (current : Option SequenceId) (name : String) (e : Entity)
    (c : Component S) (v : c.Value) : G.Resets current name e c v :=
  resets_of_sound h.sound.1 h.sound.2 current name e c v

/-- The value of an entity is put in its place, and another entity gets one, before another owner
tries. -/
theorem Reached.resets_sample :
    ∃ G : Guard Schema.sample, Reached G ∧ G.home = ⟨0, ⟨1⟩⟩ ∧
      G.store.view (.data ()) = [(⟨0, 0⟩, (7 : Nat))] ∧
      G.Resets (some ⟨1⟩) "reading" ⟨0, 0⟩ (.data ()) (8 : Nat) ∧
      G.Resets (some ⟨1⟩) "reading" ⟨1, 0⟩ (.data ()) (9 : Nat) ∧
      G.Resets (some ⟨2⟩) "reading" ⟨5, 0⟩ (.data ()) (9 : Nat) := by
  have hstore : Run ({} : Store Schema.sample) _ _ :=
    ((Run.refl {}).op (.call .create)).op (.call .create)
  have hG : Reached (S := Schema.sample) _ :=
    (Reached.new hstore ⟨0, ⟨1⟩⟩).reset (some ⟨1⟩) "reading" ⟨0, 0⟩ (.data ()) (7 : Nat)
  exact ⟨_, hG, rfl, rfl, hG.resets _ _ _ _ _, hG.resets _ _ _ _ _, hG.resets _ _ _ _ _⟩

end Guard

end EntityStore
