import EntityStore.Proofs.Deeds

/-!
# Names do not matter

A *routine* does deeds one after another, and walks over the children of a parent with a visitor
that is a routine too.  What it does next may depend on the answers.  Failures are caught, and each
deed leaves an event with its answer.

A routine *renames* another one (`Routine.Renames`) if it does the same deeds, but names components
in between, as often and wherever it likes, and if what both do next does not depend on how
components are called.  Then both leave the same events, up to these namings and up to the names
that answers show (`Routine.Echo`), and the same store up to its catalog.  The names that an answer
shows are the last ones that were set in the same routine (`Renames.names_do_not_matter`).
-/

namespace EntityStore

variable {S : Schema}

/-! ## Routines -/

/-- Deeds and walks one after another. -/
inductive Routine (S : Schema) where
  /-- Nothing is left to be done. -/
  | done
  /-- A deed comes first. -/
  | deed (k : Deed S) (rest : Except Fault k.Answer → Routine S)
  /-- A walk over the children of a parent comes first.  The rest may depend on the children that
  were visited and on the failure, if any, that ended the walk. -/
  | walk (limit : Nat) (t : S.Tag) (parent : Entity) (visitor : Entity → Entity → Routine S)
      (rest : List Entity → Option Fault → Routine S)

namespace Routine

/-- How a deed or a walk of a routine ended. -/
inductive Event (S : Schema) where
  /-- A deed gave an answer or failed. -/
  | deed (k : Deed S) (r : Except Fault k.Answer)
  /-- A walk visited some children, and may have failed then. -/
  | walk (t : S.Tag) (parent : Entity) (children : List Entity) (failure : Option Fault)

/-- What a routine does.  It ends with its events: those of the visits of a walk come before the
event of the walk itself. -/
def run : Routine S → (ε : Type) → Action (Store S) ε (List (Event S))
  | done, _ => pure []
  | deed k rest, ε => do
    let r ← k.run.attempt
    let later ← (rest r).run ε
    pure (.deed k r :: later)
  | walk limit t parent visitor rest, ε => do
    let v ← Store.visitChildren limit t parent fun p c => (visitor p c).run Fault
    let children := v.visited.map Prod.fst
    let later ← (rest children v.failure).run ε
    pure (v.visited.flatMap Prod.snd ++ .walk t parent children v.failure :: later)

/-- The events of a routine on a store.  A routine never fails. -/
def events (p : Routine S) (s : Store S) : List (Event S) :=
  match ((p.run Empty).run s).result with
  | .ok es => es
  | .error e => e.elim

/-- The store that a routine leaves. -/
def after (p : Routine S) (s : Store S) : Store S := ((p.run Empty).run s).state

/-- The names after an event. -/
def Event.naming (N : Names S) : Event S → Names S
  | deed k _ => k.naming N
  | walk _ _ _ _ => N

/-- The names after some events. -/
def namesAfter (N : Names S) (es : List (Event S)) : Names S := es.foldl Event.naming N

/-- The name that an event gives to a component, if it is a naming of it. -/
def Event.nameFor? (c : Component S) : Event S → Option String
  | deed (.use (.op (.setName d name))) _ => if d = c then some name else none
  | _ => none

theorem Event.naming_apply (N : Names S) (v : Event S) (c : Component S) :
    v.naming N c = (v.nameFor? c).getD (N c) := by
  rcases v with ⟨k, r⟩ | _
  · cases k with
    | use u =>
      cases u with
      | op k =>
        cases k with
        | setName d name =>
          by_cases hdc : d = c
          · subst hdc
            simp [naming, Deed.naming, nameFor?]
          · simp [naming, Deed.naming, nameFor?, hdc, Function.update_of_ne (Ne.symm hdc)]
        | _ => rfl
      | _ => rfl
    | _ => rfl
  · rfl

/-- After some events a component has the last name that was given to it, if one was. -/
theorem namesAfter_apply (N : Names S) (es : List (Event S)) (c : Component S) :
    namesAfter N es c = (es.filterMap (Event.nameFor? c)).getLast?.getD (N c) := by
  induction es using List.reverseRecOn with
  | nil => rfl
  | append_singleton es v ih =>
    have hlast : namesAfter N (es ++ [v]) = v.naming (namesAfter N es) := List.foldl_concat ..
    rw [hlast, Event.naming_apply, List.filterMap_append, ih]
    cases hv : v.nameFor? c with
    | none => simp [hv]
    | some name => simp [hv]

theorem namesAfter_append (N : Names S) (es fs : List (Event S)) :
    namesAfter N (es ++ fs) = namesAfter (namesAfter N es) fs := List.foldl_append

/-! ## Namings in between -/

/-- The second list of events has namings in between, and is the same as the first one otherwise,
up to the names that answers show.  Each side shows the names that are valid there at the time, and
starts with given names. -/
inductive Echo : Names S → Names S → List (Event S) → List (Event S) → Prop where
  /-- Nothing happened. -/
  | nil (N N' : Names S) : Echo N N' [] []
  /-- The second side names a component. -/
  | named {N N' : Names S} {es es' : List (Event S)} (c : Component S) (name : String)
      (h : Echo N (Function.update N' c name) es es') :
      Echo N N' es (.deed (.setName c name) (.ok ()) :: es')
  /-- The same deed ends alike on both sides. -/
  | deed {N N' : Names S} {es es' : List (Event S)} (k : Deed S) {r r' : Except Fault k.Answer}
      (hr : k.EndsAlike N N' r r') (h : Echo (k.naming N) (k.naming N') es es') :
      Echo N N' (.deed k r :: es) (.deed k r' :: es')
  /-- The same walk visits the same children, and fails for the same reason if it does. -/
  | walk {N N' : Names S} {es es' : List (Event S)} (t : S.Tag) (parent : Entity)
      (children : List Entity) {o o' : Option Fault}
      (ho : Option.Rel (Fault.Renamed (OfTag t) N N') o o') (h : Echo N N' es es') :
      Echo N N' (.walk t parent children o :: es) (.walk t parent children o' :: es')

/-- The second routine does what the first one does and names components in between, in the
visitors of walks too.  Where they go on after a deed, they may depend on how it ended, but not on
names. -/
inductive Renames : Routine S → Routine S → Prop where
  /-- Both are done. -/
  | done : Renames .done .done
  /-- The second routine names a component first. -/
  | named (c : Component S) (name : String) {p : Routine S} {rest' : Except Fault Unit → Routine S}
      (h : Renames p (rest' (.ok ()))) : Renames p (.deed (.setName c name) rest')
  /-- Both do the same deed first. -/
  | deed (k : Deed S) {rest rest' : Except Fault k.Answer → Routine S}
      (h : ∀ N N' r r', k.EndsAlike N N' r r' → Renames (rest r) (rest' r')) :
      Renames (.deed k rest) (.deed k rest')
  /-- Both do the same walk first. -/
  | walk (limit : Nat) (t : S.Tag) (parent : Entity)
      {visitor visitor' : Entity → Entity → Routine S}
      {rest rest' : List Entity → Option Fault → Routine S}
      (hvisitor : ∀ p c, Renames (visitor p c) (visitor' p c))
      (h : ∀ N N' children o o', Option.Rel (Fault.Renamed (OfTag t) N N') o o' →
        Renames (rest children o) (rest' children o')) :
      Renames (.walk limit t parent visitor rest) (.walk limit t parent visitor' rest')

/-- Two histories that echo each other go on from the names that the first parts left. -/
theorem Echo.append {N N' : Names S} {es es' fs fs' : List (Event S)} (h : Echo N N' es es')
    (hf : Echo (namesAfter N es) (namesAfter N' es') fs fs') :
    Echo N N' (es ++ fs) (es' ++ fs') := by
  induction h with
  | nil N N' => exact hf
  | named c name _ ih => exact .named c name (ih hf)
  | deed k hr _ ih => exact .deed k hr (ih hf)
  | walk t parent children ho _ ih => exact .walk t parent children ho (ih hf)

end Routine

/-! ## Two runs -/

section Both

open EntityStore.Action

variable {σ ε ε' α α' β β' : Type} {s s' : σ} {x : Action σ ε α} {x' : Action σ ε' α'}

/-- Both actions end with values, which are related together with the states that are left. -/
def Action.Both (x : Action σ ε α) (x' : Action σ ε' α') (s s' : σ)
    (P : α → σ → α' → σ → Prop) : Prop :=
  ∃ a a', (x.run s).result = .ok a ∧ (x'.run s').result = .ok a' ∧
    P a (x.run s).state a' (x'.run s').state

/-- Two runs that keep in step do so through a sequence of actions. -/
theorem Action.Both.bind {P : α → σ → α' → σ → Prop} {Q : β → σ → β' → σ → Prop}
    {f : α → Action σ ε β} {f' : α' → Action σ ε' β'} (hx : Both x x' s s' P)
    (hf : ∀ a u a' u', P a u a' u' → Both (f a) (f' a') u u' Q) :
    Both (x >>= f) (x' >>= f') s s' Q := by
  obtain ⟨a, a', ha, ha', hP⟩ := hx
  obtain ⟨b, b', hb, hb', hQ⟩ := hf _ _ _ _ hP
  refine ⟨b, b', ?_, ?_, ?_⟩
  · rw [(run_bind_of_ok f ha).1, hb]
  · rw [(run_bind_of_ok f' ha').1, hb']
  · rw [(run_bind_of_ok f ha).2, (run_bind_of_ok f' ha').2]
    exact hQ

theorem Action.both_pure {P : α → σ → α' → σ → Prop} {a : α} {a' : α'} (h : P a s a' s') :
    Both (pure a : Action σ ε α) (pure a' : Action σ ε' α') s s' P := ⟨a, a', rfl, rfl, h⟩

/-- The second side makes a step first. -/
theorem Action.Both.after {φ : Type} {P : α → σ → α' → σ → Prop} {y : Action σ ε' φ}
    {f' : φ → Action σ ε' α'} {b : φ} (hy : (y.run s').result = .ok b)
    (h : Both x (f' b) s (y.run s').state P) : Both x (y >>= f') s s' P := by
  obtain ⟨a, a', ha, ha', hP⟩ := h
  refine ⟨a, a', ha, (run_bind_of_ok f' hy).1.trans ha', ?_⟩
  rw [(run_bind_of_ok f' hy).2]
  exact hP

/-- The second side changes its value last. -/
theorem Action.Both.map_right {P : α → σ → α' → σ → Prop} {Q : α → σ → β' → σ → Prop}
    {g : α' → β'} (h : Both x x' s s' P) (hg : ∀ a u a' u', P a u a' u' → Q a u (g a') u') :
    Both x (do
      let a' ← x'
      pure (g a')) s s' Q := by
  obtain ⟨a, a', ha, ha', hP⟩ := h
  refine ⟨a, g a', ha, (run_bind_of_ok _ ha').1, ?_⟩
  rw [(run_bind_of_ok _ ha').2]
  exact hg _ _ _ _ hP

/-- An action that is caught. -/
theorem Action.both_attempt {φ φ' : Type} {P : Except ε α → σ → Except ε' α' → σ → Prop}
    (h : P (x.run s).result (x.run s).state (x'.run s').result (x'.run s').state) :
    Both (x.attempt : Action σ φ _) (x'.attempt : Action σ φ' _) s s' P := ⟨_, _, rfl, rfl, h⟩

/-- An action that ends well stays so if it is caught. -/
theorem Action.Both.attempt {φ φ' : Type} {P : α → σ → α' → σ → Prop} (h : Both x x' s s' P) :
    Both (x.attempt : Action σ φ _) (x'.attempt : Action σ φ' _) s s' fun r u r' u' =>
      ∃ a a', r = .ok a ∧ r' = .ok a' ∧ P a u a' u' := by
  obtain ⟨a, a', ha, ha', hP⟩ := h
  exact ⟨_, _, rfl, rfl, a, a', ha, ha', hP⟩

end Both

namespace Routine

open EntityStore.Action

variable {N N' : Names S} {s s' : Store S} {t : S.Tag}

/-- Events on two sides echo each other, and so do the stores that are left: they are the same but
for names, which are the last ones that were set. -/
structure Tracks (N N' : Names S) (es : List (Event S)) (u : Store S) (es' : List (Event S))
    (u' : Store S) : Prop where
  /-- The events are the same up to namings and names. -/
  echo : Echo N N' es es'
  /-- The stores are the same up to names. -/
  stores : Store.Alias (namesAfter N es) (namesAfter N' es') u u'

/-- A walk on two sides: the same children were visited, and the visits left events that echo each
other. -/
structure TracksVisits (t : S.Tag) (N N' : Names S) (v : Store.Visits (List (Event S)))
    (u : Store S) (v' : Store.Visits (List (Event S))) (u' : Store S) : Prop where
  /-- The children are the same. -/
  children : v.visited.map Prod.fst = v'.visited.map Prod.fst
  /-- The events of the visits, and the stores that are left. -/
  tracks : Tracks N N' (v.visited.flatMap Prod.snd) u (v'.visited.flatMap Prod.snd) u'
  /-- The failure, if any, is the same up to names. -/
  failure : Option.Rel
    (Fault.Renamed (OfTag t) (namesAfter N (v.visited.flatMap Prod.snd))
      (namesAfter N' (v'.visited.flatMap Prod.snd))) v.failure v'.failure

section Walks

variable {visitor visitor' : Entity → Entity → Action (Store S) Fault (List (Event S))}

/-- A walk ends before it visits a child. -/
theorem tracksVisits_nil (h : Store.Alias N N' s s') {o o' : Option Fault}
    (ho : Option.Rel (Fault.Renamed (OfTag t) N N') o o') :
    TracksVisits t N N' { failure := o } s { failure := o' } s' :=
  ⟨rfl, ⟨.nil N N', h⟩, ho⟩

/-- One more child, and the visitor's histories before those of the rest. -/
theorem TracksVisits.cons {es es' : List (Event S)} {u u' r r' : Store S}
    {v v' : Store.Visits (List (Event S))} (child : Entity) (hes : Tracks N N' es u es' u')
    (hv : TracksVisits t (namesAfter N es) (namesAfter N' es') v r v' r') :
    TracksVisits t N N' { v with visited := (child, es) :: v.visited } r
      { v' with visited := (child, es') :: v'.visited } r' := by
  refine ⟨congrArg (child :: ·) hv.children, ⟨hes.echo.append hv.tracks.echo, ?_⟩, ?_⟩
  · show Store.Alias (namesAfter N (es ++ _)) (namesAfter N' (es' ++ _)) r r'
    rw [namesAfter_append, namesAfter_append]
    exact hv.tracks.stores
  · show Option.Rel
      (Fault.Renamed (OfTag t) (namesAfter N (es ++ _)) (namesAfter N' (es' ++ _))) _ _
    rw [namesAfter_append, namesAfter_append]
    exact hv.failure

/-- Two walks keep in step if their visitors do, child by child. -/
theorem both_visitFrom
    (hvisitor : ∀ p c N N' s s', Store.Alias N N' s s' →
      Both (visitor p c) (visitor' p c) s s' (Tracks N N'))
    (parent : Entity) (ε : Type) (n : Nat) (o : Option Entity) (h : Store.Alias N N' s s') :
    Both (Store.visitFrom t parent visitor n o : Action (Store S) ε _)
      (Store.visitFrom t parent visitor' n o : Action (Store S) ε _) s s'
      (TracksVisits t N N') := by
  have hquery (child : Entity) {N N' : Names S} {s s' : Store S} (h : Store.Alias N N' s s') :
      Both ((query fun s => s.successor t parent child).attempt : Action (Store S) ε _)
        ((query fun s => s.successor t parent child).attempt : Action (Store S) ε _) s s'
        fun r u r' u' => Corresponds (Fault.Renamed (OfTag t) N N') Eq r r' ∧
          Store.Alias N N' u u' :=
    both_attempt ⟨h.successor parent child, h⟩
  -- The names are generalized with the stores, since a visitor may change them.
  induction n generalizing o N N' s s' with
  | zero =>
    cases o with
    | none => exact both_pure (tracksVisits_nil h .none)
    | some child =>
      unfold Store.visitFrom
      refine (hquery child h).bind fun r u r' u' hr => ?_
      obtain ⟨hr, hu⟩ := hr
      cases hr with
      | error hf => exact both_pure (tracksVisits_nil hu (.some hf))
      | ok _ => exact both_pure (tracksVisits_nil hu (.some (.plain trivial)))
  | succ n ih =>
    cases o with
    | none => exact both_pure (tracksVisits_nil h .none)
    | some child =>
      unfold Store.visitFrom
      refine (hquery child h).bind fun r u r' u' hr => ?_
      obtain ⟨hr, hu⟩ := hr
      cases hr with
      | error hf => exact both_pure (tracksVisits_nil hu (.some hf))
      | ok hnext =>
        subst hnext
        refine (hvisitor parent child _ _ _ _ hu).attempt.bind fun r u r' u' hr => ?_
        obtain ⟨es, es', rfl, rfl, hes⟩ := hr
        exact (ih _ hes.stores).bind fun v w v' w' hv => both_pure (hv.cons child hes)

/-- Walks on two sides, if the visitors track each other. -/
theorem both_visitChildren
    (hvisitor : ∀ p c N N' s s', Store.Alias N N' s s' →
      Both (visitor p c) (visitor' p c) s s' (Tracks N N'))
    (limit : Nat) (parent : Entity) (ε : Type) (h : Store.Alias N N' s s') :
    Both (Store.visitChildren limit t parent visitor : Action (Store S) ε _)
      (Store.visitChildren limit t parent visitor' : Action (Store S) ε _) s s'
      (TracksVisits t N N') := by
  have hquery : Both ((query fun s => s.firstChildOf? t parent).attempt : Action (Store S) ε _)
      ((query fun s => s.firstChildOf? t parent).attempt : Action (Store S) ε _) s s'
      fun r u r' u' => Corresponds (Fault.Renamed (OfTag t) N N') Eq r r' ∧
        Store.Alias N N' u u' :=
    both_attempt ⟨h.firstChildOf? parent, h⟩
  refine hquery.bind fun r u r' u' hr => ?_
  obtain ⟨hr, hu⟩ := hr
  cases hr with
  | error hf => exact both_pure (tracksVisits_nil hu (.some hf))
  | ok hfirst =>
    subst hfirst
    exact both_visitFrom hvisitor parent ε limit _ hu

end Walks

/-- A routine and one that names components in between, from stores that are the same but for
names. -/
theorem Renames.both {p p' : Routine S} (hp : Renames p p') (ε : Type)
    (h : Store.Alias N N' s s') : Both (p.run ε) (p'.run ε) s s' (Tracks N N') := by
  -- By induction on how the second routine comes from the first one.  What both do next is given
  -- by the induction hypothesis only for answers that are alike, which `Deed.endsAlike` says.
  induction hp generalizing ε N N' s s' with
  | done => exact both_pure ⟨.nil N N', h⟩
  | named c name _ ih =>
    -- The first side stands still.
    have hset : Store.Alias N (Function.update N' c name) s
        ((Deed.setName c name).run.run s').state :=
      ⟨h.allocator, h.pools, h.context, h.named, h.named'.setName c name⟩
    refine Both.after rfl ((ih ε hset).map_right fun es u es' u' hes => ?_)
    exact ⟨.named c name hes.echo, hes.stores⟩
  | deed k _ ih =>
    obtain ⟨hr, hu⟩ := k.endsAlike h
    refine Both.bind (both_attempt (P := fun r u r' u' => k.EndsAlike N N' r r' ∧
      Store.Alias (k.naming N) (k.naming N') u u') ⟨hr, hu⟩) fun r u r' u' hr => ?_
    obtain ⟨hr, hu⟩ := hr
    refine (ih N N' r r' hr ε hu).bind fun es v es' v' hes => both_pure ?_
    exact ⟨.deed k hr hes.echo, hes.stores⟩
  | walk limit t parent _ _ ihvisitor ih =>
    refine (both_visitChildren (fun p c N N' s s' h => ihvisitor p c Fault h) limit parent ε
      h).bind fun v u v' u' hv => ?_
    dsimp only
    rw [← hv.children]
    refine (ih _ _ _ _ _ hv.failure ε hv.tracks.stores).bind fun es w es' w' hes => both_pure ?_
    refine ⟨hv.tracks.echo.append (.walk t parent _ hv.failure hes.echo), ?_⟩
    rw [namesAfter_append, namesAfter_append]
    exact hes.stores

/-! ## Names do not matter -/

/-- The last name that some events give to a component, or its path if they give it none. -/
def lastName (es : List (Event S)) (c : Component S) : String :=
  (es.filterMap (Event.nameFor? c)).getLast?.getD (S.describe c).path

/-- Whenever a name was asked for it was the last one that was set before, and so are the names that
are left. -/
structure ShowsLastNames (es : List (Event S)) (s : Store S) : Prop where
  /-- The names in answers. -/
  asked : ∀ es₁ c r es₂, es = es₁ ++ .deed (.nameOf c) r :: es₂ → r = .ok (lastName es₁ c)
  /-- The names that are left. -/
  left : ∀ c, s.catalog.nameOf c = lastName es c

/-- An event that answers with the name of a component answers with its name in `N`. -/
def Event.Says (N : Names S) : Event S → Prop
  | deed (.nameOf c) r => r = .ok (N c)
  | _ => True

/-- All events that answer with the name of a component answer with its name at the time. -/
def Says (N : Names S) : List (Event S) → Prop
  | [] => True
  | v :: es => v.Says N ∧ Says (v.naming N) es

theorem says_of_endsAlike {k : Deed S} {r r' : Except Fault k.Answer}
    (h : k.EndsAlike N N' r r') :
    (Event.deed k r).Says N ∧ (Event.deed k r').Says N' := by
  cases k with
  | nameOf c =>
    cases h with
    | ok ha => exact ⟨congrArg Except.ok ha.1, congrArg Except.ok ha.2⟩
    | error hf => exact hf.elim
  | _ => exact ⟨trivial, trivial⟩

/-- Each of two histories that echo each other shows the names that it set itself. -/
theorem Echo.says {es es' : List (Event S)} (h : Echo N N' es es') : Says N es ∧ Says N' es' := by
  induction h with
  | nil => exact ⟨trivial, trivial⟩
  | named c name _ ih => exact ⟨ih.1, trivial, ih.2⟩
  | deed k hr _ ih =>
    exact ⟨⟨(says_of_endsAlike hr).1, ih.1⟩, (says_of_endsAlike hr).2, ih.2⟩
  | walk t parent children _ _ ih => exact ⟨⟨trivial, ih.1⟩, trivial, ih.2⟩

/-- The name that is shown is the last one set before the question. -/
theorem Says.nameOf {es₁ es₂ : List (Event S)} {c : Component S}
    {r : Except Fault (Deed.nameOf c).Answer}
    (h : Says N (es₁ ++ .deed (.nameOf c) r :: es₂)) : r = .ok (namesAfter N es₁ c) := by
  induction es₁ generalizing N with
  | nil => exact h.1
  | cons v es₁ ih => exact ih h.2

theorem lastName_eq (es : List (Event S)) : lastName es = namesAfter .paths es :=
  funext fun c => (namesAfter_apply .paths es c).symm

/-- From a new store on, every name that is shown is the last one set, or else the path of the type.
-/
theorem Says.showsLastNames {es : List (Event S)} (h : Says .paths es)
    (hs : s.Named (namesAfter .paths es)) : ShowsLastNames es s where
  asked es₁ c r es₂ he := by
    subst he
    rw [h.nameOf, lastName_eq]
  left c := by rw [hs.nameOf, lastName_eq]

/-- A routine and one that names components in between, both on a new store.

* They leave the same events, up to the namings and up to names.
* They leave the same entities, pools and context.
* Each of them shows the last names that it has set. -/
theorem Renames.names_do_not_matter {p p' : Routine S} (h : Renames p p') :
    Echo .paths .paths (p.events {}) (p'.events {}) ∧
    ((p.after {}).allocator = (p'.after {}).allocator ∧
      (p.after {}).pools = (p'.after {}).pools ∧ (p.after {}).context = (p'.after {}).context) ∧
    ShowsLastNames (p.events {}) (p.after {}) ∧ ShowsLastNames (p'.events {}) (p'.after {}) := by
  obtain ⟨es, es', hes, hes', hecho, hstores⟩ := h.both Empty Store.Alias.empty
  have hp : p.events {} = es := by rw [events, hes]
  have hp' : p'.events {} = es' := by rw [events, hes']
  rw [hp, hp']
  exact ⟨hecho, ⟨hstores.allocator, hstores.pools, hstores.context⟩,
    hecho.says.1.showsLastNames hstores.named, hecho.says.2.showsLastNames hstores.named'⟩

/-- A component is named before its pool is created and once more before a refusal shows it. -/
theorem Renames.names_do_not_matter_two_names :
    ∃ p p' : Routine Schema.sample, Renames p p' ∧
      Echo .paths .paths (p.events {}) (p'.events {}) ∧
      (p.events {}).length = 4 ∧ (p'.events {}).length = 6 ∧
      (p'.after {}).catalog.nameOf (.data ()) = "hp" := by
  let attach (v : Nat) : Deed Schema.sample := .use (.op (.call (.tryAttach ⟨0, 0⟩ (.data ()) v)))
  let visit : Deed Schema.sample := .use (.visit ⟨0, 0⟩)
  let p : Routine Schema.sample :=
    .deed (.use (.op (.call .create))) fun _ => .deed (attach 7) fun _ =>
      .deed (attach 8) fun _ => .deed visit fun _ => .done
  let p' : Routine Schema.sample :=
    .deed (.use (.op (.call .create))) fun _ => .deed (.setName (.data ()) "health") fun _ =>
      .deed (attach 7) fun _ => .deed (.setName (.data ()) "hp") fun _ =>
      .deed (attach 8) fun _ => .deed visit fun _ => .done
  have h : Renames p p' :=
    .deed _ fun _ _ _ _ _ => .named _ _ <| .deed _ fun _ _ _ _ _ => .named _ _ <|
      .deed _ fun _ _ _ _ _ => .deed _ fun _ _ _ _ _ => .done
  obtain ⟨hecho, -, -, hlast⟩ := h.names_do_not_matter
  exact ⟨p, p', h, hecho, rfl, rfl, hlast.left (.data ())⟩

end Routine

end EntityStore
