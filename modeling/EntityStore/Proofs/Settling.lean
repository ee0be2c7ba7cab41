import EntityStore.Proofs.Soundness

/-!
# How an action settles

`x.Settles m r m'` says what an action does to the contents of a store: on every sound store that
holds `m` it ends with `r` and leaves a sound store that holds `m'`.  How the store keeps its
contents, in which order and in which slots, is left open.  The rules of this module let an action
be followed step by step: a step that succeeds hands its contents on, and a step that fails ends
the action.

`x.Safe` is the weaker statement that asks nothing of the result: whatever the action does to a
sound store, it leaves a sound store.  `x.Quiet` says also that the action touches no entity and no
value, so that it can only have changed names and context variables.

All three statements also say that no step reports an eviction, so that no attachment ever puts out
an owner of another generation.

`x.Ends s Q` is about one state: where the action ends, its result and the state that it leaves are
as `Q` says.  It is for actions whose first steps only ask, with a result that depends on more than
the contents of the store.
-/

namespace EntityStore

variable {S : Schema} {ε ε' α β : Type}

/-- The report of an owner that was put out by another generation of its slot. -/
def Report.IsEviction (r : Report) : Prop := r.message = "evicted stale pool entry"

/-- The state that is left is sound, and no eviction was reported. -/
structure Outcome.Sound (o : Outcome (Store S) ε α) : Prop where
  /-- The state is sound. -/
  state : o.state.Sound
  /-- There was no eviction. -/
  no_eviction : ∀ r ∈ o.reports, ¬ r.IsEviction

namespace Action

/-- Whatever the action does to a sound store, it leaves a sound store. -/
def Safe (x : Action (Store S) ε α) : Prop := ∀ s : Store S, s.Sound → (x.run s).Sound

/-- The action leaves a sound store with the same live entities and the same values. -/
def Quiet (x : Action (Store S) ε α) : Prop :=
  ∀ s : Store S, s.Sound → (x.run s).Sound ∧
    (x.run s).state.contents.live = s.contents.live ∧
    (x.run s).state.contents.value? = s.contents.value?

/-- On every sound store that holds `m`, the action ends with `r` and leaves a sound store that
holds `m'`. -/
def Settles (x : Action (Store S) ε α) (m : Contents S) (r : Except ε α) (m' : Contents S) :
    Prop :=
  ∀ s : Store S, s.Sound → s.contents = m →
    (x.run s).result = r ∧ (x.run s).Sound ∧ (x.run s).state.contents = m'

variable {x : Action (Store S) ε α} {f : α → Action (Store S) ε β} {m m' m'' : Contents S}

/-! ## Sequences -/

theorem sound_bind_of_ok {s : Store S} {a : α} (h : (x.run s).result = .ok a)
    (hx : (x.run s).Sound) (hf : ((f a).run (x.run s).state).Sound) : ((x >>= f).run s).Sound := by
  rw [run_bind, h]
  refine ⟨hf.state, fun r hr => ?_⟩
  rcases List.mem_append.1 hr with hr | hr
  · exact hx.no_eviction r hr
  · exact hf.no_eviction r hr

theorem sound_bind_of_error {s : Store S} {e : ε} (h : (x.run s).result = .error e)
    (hx : (x.run s).Sound) : ((x >>= f).run s).Sound := by
  rw [run_bind, h]
  exact ⟨hx.state, hx.no_eviction⟩

/-- The second part starts from what the first one settled at. -/
theorem Settles.bind {a : α} {r : Except ε β} (hx : x.Settles m (.ok a) m')
    (hf : (f a).Settles m' r m'') : (x >>= f).Settles m r m'' := by
  intro s hs hm
  obtain ⟨hr, hsound, hm'⟩ := hx s hs hm
  obtain ⟨hr', hsound', hm''⟩ := hf _ hsound.state hm'
  obtain ⟨hres, hstate⟩ := run_bind_of_ok f hr
  exact ⟨hres.trans hr', sound_bind_of_ok hr hsound hsound', by rw [hstate, hm'']⟩

/-- Where the first part fails, the second one does not come. -/
theorem Settles.bind_error {e : ε} (hx : x.Settles m (.error e) m') :
    (x >>= f).Settles m (.error e) m' := by
  intro s hs hm
  obtain ⟨hr, hsound, hm'⟩ := hx s hs hm
  obtain ⟨hres, hstate⟩ := run_bind_of_error f hr
  exact ⟨hres, sound_bind_of_error hr hsound, by rw [hstate, hm']⟩

/-- An action that looks at the state first is followed for each state that it may find. -/
theorem settles_state_bind {f : Store S → Action (Store S) ε β} {r : Except ε β}
    (h : ∀ s : Store S, s.Sound → s.contents = m → (f s).Settles m r m') :
    (Action.state >>= f).Settles m r m' := by
  intro s hs hm
  have hrun : (Action.state >>= f).run s = (f s).run s := by
    simp [run_bind]
  rw [hrun]
  exact h s hs hm s hs hm

/-- An action is safe if its parts are. -/
theorem Safe.bind (hx : x.Safe) (hf : ∀ a, (f a).Safe) : (x >>= f).Safe := by
  intro s hs
  have hsound := hx s hs
  cases hr : (x.run s).result with
  | ok a => exact sound_bind_of_ok hr hsound (hf a _ hsound.state)
  | error e => exact sound_bind_of_error hr hsound

theorem Quiet.safe (hx : x.Quiet) : x.Safe := fun s hs => (hx s hs).1

/-- An action is quiet if its parts are. -/
theorem Quiet.bind (hx : x.Quiet) (hf : ∀ a, (f a).Quiet) : (x >>= f).Quiet := by
  intro s hs
  obtain ⟨hsound, hlive, hvalue⟩ := hx s hs
  cases hr : (x.run s).result with
  | ok a =>
    obtain ⟨hsound', hlive', hvalue'⟩ := hf a _ hsound.state
    rw [(run_bind_of_ok f hr).2]
    exact ⟨sound_bind_of_ok hr hsound hsound', hlive'.trans hlive, hvalue'.trans hvalue⟩
  | error e =>
    rw [(run_bind_of_error f hr).2]
    exact ⟨sound_bind_of_error hr hsound, hlive, hvalue⟩

/-- What settles from any contents is safe. -/
theorem safe_of_settles (h : ∀ m, ∃ r m', x.Settles m r m') : x.Safe := by
  intro s hs
  obtain ⟨r, m', hx⟩ := h s.contents
  exact (hx s hs rfl).2.1

/-! ## Single steps -/

theorem settles_pure (a : α) : (pure a : Action (Store S) ε α).Settles m (.ok a) m :=
  fun _ hs hm => ⟨rfl, ⟨hs, by simp⟩, hm⟩

theorem settles_fail (e : ε) : (fail e : Action (Store S) ε α).Settles m (.error e) m :=
  fun _ hs hm => ⟨rfl, ⟨hs, by simp⟩, hm⟩

/-- A question has the answer that the contents give, and changes nothing. -/
theorem settles_query {q : Store S → Except ε α} {r : Except ε α}
    (h : ∀ s : Store S, s.Sound → s.contents = m → q s = r) : (query q).Settles m r m :=
  fun s hs hm => ⟨h s hs hm, ⟨hs, by simp⟩, hm⟩

/-- A condition that holds lets the action go on. -/
theorem settles_require {b : Bool} (hb : b = true) (e : ε) :
    (require b e : Action (Store S) ε Unit).Settles m (.ok ()) m := by
  rw [require, if_pos hb]
  exact settles_pure ()

/-- A condition that does not hold ends the action. -/
theorem settles_require_error {b : Bool} (hb : b = false) (e : ε) :
    (require b e : Action (Store S) ε Unit).Settles m (.error e) m := by
  rw [require, if_neg (by simp [hb])]
  exact settles_fail e

/-- A change settles at what it makes of the contents. -/
theorem settles_modify {g : Store S → Store S}
    (h : ∀ s : Store S, s.Sound → s.contents = m → (g s).Sound ∧ (g s).contents = m') :
    (modify g : Action (Store S) ε Unit).Settles m (.ok ()) m' :=
  fun s hs hm => ⟨rfl, ⟨(h s hs hm).1, by simp⟩, (h s hs hm).2⟩

theorem settles_report {r : Report} (hr : ¬ r.IsEviction) :
    (report r : Action (Store S) ε Unit).Settles m (.ok ()) m :=
  fun _ hs hm => ⟨rfl, ⟨hs, by simpa using hr⟩, hm⟩

theorem Settles.mapError {r : Except ε α} (hx : x.Settles m r m') (g : ε → ε') :
    (x.mapError g).Settles m (r.mapError g) m' := by
  intro s hs hm
  obtain ⟨hr, hsound, hm'⟩ := hx s hs hm
  exact ⟨congrArg (·.mapError g) hr, ⟨hsound.state, hsound.no_eviction⟩, hm'⟩

theorem Settles.attempt {r : Except ε α} (hx : x.Settles m r m') :
    (x.attempt : Action (Store S) ε' (Except ε α)).Settles m (.ok r) m' := by
  intro s hs hm
  obtain ⟨hr, hsound, hm'⟩ := hx s hs hm
  exact ⟨congrArg Except.ok hr, ⟨hsound.state, hsound.no_eviction⟩, hm'⟩

/-! ### Steps that ask nothing of the contents -/

theorem quiet_pure (a : α) : (pure a : Action (Store S) ε α).Quiet :=
  fun _ hs => ⟨⟨hs, by simp⟩, rfl, rfl⟩

theorem quiet_fail (e : ε) : (fail e : Action (Store S) ε α).Quiet :=
  fun _ hs => ⟨⟨hs, by simp⟩, rfl, rfl⟩

theorem quiet_state : (Action.state : Action (Store S) ε (Store S)).Quiet :=
  fun _ hs => ⟨⟨hs, by simp⟩, rfl, rfl⟩

theorem quiet_query (q : Store S → Except ε α) : (query q).Quiet :=
  fun _ hs => ⟨⟨hs, by simp⟩, rfl, rfl⟩

theorem quiet_report {r : Report} (hr : ¬ r.IsEviction) :
    (report r : Action (Store S) ε Unit).Quiet :=
  fun _ hs => ⟨⟨hs, by simpa using hr⟩, rfl, rfl⟩

theorem quiet_reportAll {rs : List Report} (hr : ∀ r ∈ rs, ¬ r.IsEviction) :
    (reportAll rs : Action (Store S) ε Unit).Quiet :=
  fun _ hs => ⟨⟨hs, hr⟩, rfl, rfl⟩

theorem quiet_modify {g : Store S → Store S}
    (h : ∀ s : Store S, s.Sound → (g s).Sound ∧ (g s).contents.live = s.contents.live ∧
      (g s).contents.value? = s.contents.value?) :
    (modify g : Action (Store S) ε Unit).Quiet :=
  fun s hs => ⟨⟨(h s hs).1, by simp⟩, (h s hs).2⟩

theorem quiet_modifyGet {g : Store S → α × Store S}
    (h : ∀ s : Store S, s.Sound → (g s).2.Sound ∧ (g s).2.contents.live = s.contents.live ∧
      (g s).2.contents.value? = s.contents.value?) :
    (modifyGet g : Action (Store S) ε α).Quiet :=
  fun s hs => ⟨⟨(h s hs).1, by simp⟩, (h s hs).2⟩

theorem safe_pure (a : α) : (pure a : Action (Store S) ε α).Safe := (quiet_pure a).safe

theorem safe_fail (e : ε) : (fail e : Action (Store S) ε α).Safe := (quiet_fail e).safe

theorem safe_state : (Action.state : Action (Store S) ε (Store S)).Safe := quiet_state.safe

theorem safe_query (q : Store S → Except ε α) : (query q).Safe := (quiet_query q).safe

theorem safe_report {r : Report} (hr : ¬ r.IsEviction) :
    (report r : Action (Store S) ε Unit).Safe := (quiet_report hr).safe

theorem Safe.attempt (hx : x.Safe) : (x.attempt : Action (Store S) ε' (Except ε α)).Safe :=
  fun s hs => ⟨(hx s hs).state, (hx s hs).no_eviction⟩

/-! ## Ends -/

section Ends

variable {σ : Type} {y : Action σ ε α} {g : α → Action σ ε β} {s : σ}

/-- The result of the action and the state that it leaves are as stated. -/
def Ends (y : Action σ ε α) (s : σ) (Q : Except ε α → σ → Prop) : Prop :=
  Q (y.run s).result (y.run s).state

/-- What an action ends with may be told more weakly. -/
theorem Ends.imp {Q Q' : Except ε α → σ → Prop} (hy : y.Ends s Q)
    (h : ∀ r s', Q r s' → Q' r s') : y.Ends s Q' := h _ _ hy

variable {Q : Except ε β → σ → Prop}

/-- The second action goes on where the first one ends, unless that failed. -/
theorem ends_bind (h : y.Ends s fun r s' =>
    match r with
    | .ok a => (g a).Ends s' Q
    | .error e => Q (.error e) s') : (y >>= g).Ends s Q := by
  unfold Ends at h ⊢
  cases hr : (y.run s).result with
  | ok a =>
    rw [hr] at h
    rw [(run_bind_of_ok g hr).1, (run_bind_of_ok g hr).2]
    exact h
  | error e =>
    rw [hr] at h
    rw [(run_bind_of_error g hr).1, (run_bind_of_error g hr).2]
    exact h

/-- A question is asked first: its answer goes on, or its failure ends all. -/
theorem ends_query_bind {q : σ → Except ε α} (herror : ∀ e, q s = .error e → Q (.error e) s)
    (hok : ∀ a, q s = .ok a → (g a).Ends s Q) : (query q >>= g).Ends s Q := by
  refine ends_bind ?_
  change match q s with
    | .ok a => (g a).Ends s Q
    | .error e => Q (.error e) s
  cases hr : q s with
  | ok a => exact hok a hr
  | error e => exact herror e hr

/-- A condition is checked first. -/
theorem ends_require_bind {b : Bool} {e : ε} {g : Unit → Action σ ε β}
    (herror : b = false → Q (.error e) s) (hok : b = true → (g ()).Ends s Q) :
    (require b e >>= g).Ends s Q := by
  refine ends_bind ?_
  cases b with
  | true => exact hok rfl
  | false => exact herror rfl

theorem ends_state_bind {g : σ → Action σ ε β} (h : (g s).Ends s Q) :
    (Action.state >>= g).Ends s Q := ends_bind h

theorem ends_modify_bind {f : σ → σ} {g : Unit → Action σ ε β} (h : (g ()).Ends (f s) Q) :
    (modify f >>= g).Ends s Q := ends_bind h

theorem ends_modifyGet_bind {f : σ → α × σ} (h : (g (f s).1).Ends (f s).2 Q) :
    (modifyGet f >>= g).Ends s Q := ends_bind h

/-- The second action is told how the first one ended. -/
theorem ends_attempt_bind {y : Action σ ε' α} {g : Except ε' α → Action σ ε β}
    (h : y.Ends s fun r s' => (g r).Ends s' Q) : (attempt y >>= g).Ends s Q := ends_bind h

/-- A safe action ends at a sound store. -/
theorem Ends.and_sound {y : Action (Store S) ε α} {s : Store S} {Q : Except ε α → Store S → Prop}
    (hy : y.Ends s Q) (hsafe : y.Safe) (hs : s.Sound) : y.Ends s fun r s' => s'.Sound ∧ Q r s' :=
  ⟨(hsafe s hs).state, hy⟩

/-- From a sound store with the contents, the action ends as it settles. -/
theorem Settles.ends {r : Except ε α} {s : Store S} {Q : Except ε α → Store S → Prop}
    (hx : x.Settles m r m') (hs : s.Sound) (hm : s.contents = m)
    (h : ∀ s', s'.Sound → s'.contents = m' → Q r s') : x.Ends s Q := by
  obtain ⟨hr, hsound, hm'⟩ := hx s hs hm
  unfold Ends
  rw [hr]
  exact h _ hsound.state hm'

end Ends

end Action

end EntityStore
