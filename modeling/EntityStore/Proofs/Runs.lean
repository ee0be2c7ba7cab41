import EntityStore.Hierarchy.Visit
import EntityStore.Proofs.Calls
import EntityStore.Proofs.Clearing
import EntityStore.Proofs.Editing
import EntityStore.Proofs.Marks
import EntityStore.Store.Context
import EntityStore.Whitelist

/-!
# Runs

An *operation* (`Op`) is one use of anything that can change a store: a call, the naming of a
component, a change of the context, a step of construction, the check of a whitelist, an edit of a
hierarchy.  Its handles, components and tags are arbitrary, and it may fail.  Questions change
nothing and are left out.

A *run* (`Run`) makes operations one after another.  A walk over the children of a parent is part
of a run too: its visitor may do to the store whatever a run may do.  Failures are caught, so what
an operation did before it failed stays part of the run.

Every operation keeps a sound store sound (`Op.safe`), and so does every run (`Run.sound`).  The
main theorem, `Run.clean`, says what this means for a store that started out new.
-/

namespace EntityStore

variable {S : Schema}

/-- A use of an operation that may change a store. -/
inductive Op (S : Schema) where
  /-- Make a call. -/
  | call (k : Call S)
  /-- Name a component. -/
  | setName (c : Component S) (name : String)
  /-- Set a context variable. -/
  | setContext (c : Component S) (name : String) (v : c.Value)
  /-- Change a context variable that may be set. -/
  | updateContext? (c : Component S) (f : c.Value → c.Value)
  /-- Change a context variable that must be set. -/
  | updateContext (c : Component S) (f : c.Value → c.Value)
  /-- Ask for a context variable that is set if it is not. -/
  | getOrSetContext (c : Component S) (name : String) (make : Unit → Except Fault c.Value)
  /-- Remove a context variable. -/
  | removeContext (c : Component S)
  /-- Mark an entity as unfinished. -/
  | beginConstruction (e : Entity)
  /-- Mark an entity as finished. -/
  | finishConstruction (e : Entity)
  /-- Remove the marks of finished entities. -/
  | clearFinished
  /-- Check an entity against a whitelist. -/
  | checkWhitelist (e : Entity) (w : Whitelist S)
  /-- Link a child. -/
  | prependChild (t : S.Tag) (parent child : Entity)
  /-- Unlink a child from a parent. -/
  | removeChild (t : S.Tag) (parent child : Entity)
  /-- Unlink a child. -/
  | detachChild (t : S.Tag) (child : Entity)
  /-- Unlink all children of a selection. -/
  | clearSelection (t : S.Tag) (sel : Selector S)

namespace Op

/-- What an operation answers when it does not fail. -/
def Answer : Op S → Type
  | call k => k.Answer
  | setName _ _ | beginConstruction _ | prependChild _ _ _ => Unit
  | setContext c _ _ | updateContext c _ => c.Value
  | updateContext? c _ | removeContext c => Option c.Value
  | getOrSetContext c _ _ => c.Value × Bool
  | finishConstruction _ | removeChild _ _ _ | detachChild _ _ => Bool
  | clearFinished | clearSelection _ _ => Nat
  | checkWhitelist _ _ => Except StoreError Unit

/-- What an operation does. -/
def run : (k : Op S) → Action (Store S) Fault k.Answer
  | call k => k.run
  | setName c name => Store.setName c name
  | setContext c name v => Store.setContext c name v
  | updateContext? c f => Store.updateContext? c f
  | updateContext c f => Store.updateContext c f
  | getOrSetContext c name make => Store.getOrSetContext c name make
  | removeContext c => Store.removeContext c
  | beginConstruction e => Store.beginConstruction e
  | finishConstruction e => Store.finishConstruction e
  | clearFinished => Store.clearFinished
  | checkWhitelist e w => Store.checkWhitelist e w
  | prependChild t parent child => Store.prependChild t parent child
  | removeChild t parent child => Store.removeChild t parent child
  | detachChild t child => Store.detachChild t child
  | clearSelection t sel => Store.clearSelection t sel

end Op

/-! ## Operations keep stores sound -/

namespace Store

open EntityStore.Action

variable {ε α : Type} {e : Entity} {c : Component S} {t : S.Tag}

/-! ### Single components -/

theorem safe_attach (e : Entity) (c : Component S) (v : c.Value) : (attach e c v).Safe :=
  safe_of_settles fun _ => ⟨_, _, settles_attach⟩

theorem safe_attachOrReplace (e : Entity) (c : Component S) (v : c.Value) :
    (attachOrReplace e c v).Safe :=
  safe_of_settles fun _ => ⟨_, _, settles_attachOrReplace⟩

theorem safe_getOrAttach (e : Entity) (c : Component S) (make : Unit → Except Fault c.Value) :
    (getOrAttach e c make).Safe :=
  safe_of_settles fun _ => ⟨_, _, settles_getOrAttach⟩

theorem safe_update (e : Entity) (c : Component S) (f : c.Value → c.Value) :
    (update e c f).Safe :=
  safe_of_settles fun _ => ⟨_, _, settles_update f⟩

theorem safe_detach (e : Entity) (c : Component S) : (detach e c).Safe :=
  safe_of_settles fun _ => ⟨_, _, settles_detach⟩

/-! ### Names, the context and whitelists -/

theorem quiet_setName (c : Component S) (name : String) :
    (setName c name : Action (Store S) ε Unit).Quiet :=
  quiet_modify fun _ hs => ⟨hs.setName name, rfl, rfl⟩

theorem quiet_setContext (c : Component S) (name : String) (v : c.Value) :
    (setContext c name v : Action (Store S) ε c.Value).Quiet := by
  have hset : (do
      Action.modify fun s => { s with context := s.context.insert c ⟨name, v⟩ }
      pure v : Action (Store S) ε c.Value).Quiet :=
    Quiet.bind (quiet_modify fun _ hs => ⟨hs.setContext _, rfl, rfl⟩) fun _ => quiet_pure v
  refine quiet_state.bind fun s => ?_
  split
  · refine (quiet_report ?_).bind fun _ => hset
    simp [Report.IsEviction, replacedVariable]
  · exact hset

theorem quiet_updateContext? (c : Component S) (f : c.Value → c.Value) :
    (updateContext? c f : Action (Store S) ε (Option c.Value)).Quiet :=
  quiet_modifyGet fun _ hs => ⟨hs.setContext _, rfl, rfl⟩

theorem quiet_updateContext (c : Component S) (f : c.Value → c.Value) :
    (updateContext c f).Quiet := by
  refine (quiet_updateContext? c f).bind fun o => ?_
  cases o with
  | some v => exact quiet_pure v
  | none => exact quiet_fail _

theorem quiet_getOrSetContext (c : Component S) (name : String)
    (make : Unit → Except Fault c.Value) : (getOrSetContext c name make).Quiet := by
  refine quiet_state.bind fun s => ?_
  cases s.contextValue? c with
  | some old => exact quiet_pure _
  | none =>
    refine (quiet_query _).bind fun v => ?_
    exact Quiet.bind (quiet_modify fun _ hs => ⟨hs.setContext _, rfl, rfl⟩) fun _ =>
      quiet_pure _

theorem quiet_removeContext (c : Component S) :
    (removeContext c : Action (Store S) ε (Option c.Value)).Quiet :=
  quiet_modifyGet fun _ hs => ⟨hs.setContext _, rfl, rfl⟩

theorem quiet_checkWhitelist (e : Entity) (w : Whitelist S) : (checkWhitelist e w).Quiet := by
  refine (quiet_query _).bind fun names => (quiet_reportAll ?_).bind fun _ => ?_
  · intro r hr
    obtain ⟨name, -, rfl⟩ := List.mem_map.1 hr
    simp [Report.IsEviction, strayComponent]
  · split
    · exact quiet_pure _
    · exact quiet_pure _

/-! ### Edits of hierarchies -/

/-- The parts of which edits are made keep a store sound, and so does every edit. -/
theorem Edits.safe {x : Action (Store S) Fault α} (hx : Edits t x) : x.Safe := by
  induction hx with
  | pure a => exact safe_pure a
  | fail f => exact safe_fail f
  | query h => exact safe_query _
  | attach hc e v => exact safe_attach e _ v
  | attachOrReplace hc e v => exact safe_attachOrReplace e _ v
  | getOrAttach hc e make => exact safe_getOrAttach e _ make
  | update hc e f => exact safe_update e _ f
  | detach hc e => exact safe_detach e _
  | look _ _ ih => exact safe_state.bind ih
  | bind _ _ ihx ihf => exact ihx.bind ihf

theorem safe_clearSelection (t : S.Tag) (sel : Selector S) : (clearSelection t sel).Safe :=
  safe_state.bind fun _ => (edits_clearEach t _).safe.bind fun _ =>
    (safe_report (not_isEviction_clearedSelection t _ _)).bind fun _ => safe_pure _

/-! ### Walks -/

theorem safe_visitFrom {visitor : Entity → Entity → Action (Store S) Fault α}
    (hv : ∀ parent child, (visitor parent child).Safe) (parent : Entity) (n : Nat)
    (o : Option Entity) : (visitFrom t parent visitor n o : Action (Store S) ε _).Safe := by
  induction n generalizing o with
  | zero =>
    cases o with
    | none => exact safe_pure _
    | some child =>
      unfold visitFrom
      refine (safe_query _).attempt.bind fun next => ?_
      cases next with
      | error f => exact safe_pure _
      | ok next => exact safe_pure _
  | succ n ih =>
    cases o with
    | none => exact safe_pure _
    | some child =>
      unfold visitFrom
      refine (safe_query _).attempt.bind fun next => ?_
      cases next with
      | error f => exact safe_pure _
      | ok next =>
        refine (hv parent child).attempt.bind fun a => ?_
        cases a with
        | error f => exact safe_pure _
        | ok a => exact (ih next).bind fun _ => safe_pure _

theorem safe_visitChildren {visitor : Entity → Entity → Action (Store S) Fault α}
    (hv : ∀ parent child, (visitor parent child).Safe) (limit : Nat) (t : S.Tag)
    (parent : Entity) : (visitChildren limit t parent visitor : Action (Store S) ε _).Safe := by
  refine (safe_query _).attempt.bind fun first => ?_
  cases first with
  | error f => exact safe_pure _
  | ok first => exact safe_visitFrom hv parent limit first

end Store

/-- Every operation keeps a sound store sound and puts out no owner. -/
theorem Op.safe (k : Op S) : k.run.Safe := by
  cases k with
  | call k => exact fun s hs => (k.allowed hs).1
  | setName c name => exact (Store.quiet_setName c name).safe
  | setContext c name v => exact (Store.quiet_setContext c name v).safe
  | updateContext? c f => exact (Store.quiet_updateContext? c f).safe
  | updateContext c f => exact (Store.quiet_updateContext c f).safe
  | getOrSetContext c name make => exact (Store.quiet_getOrSetContext c name make).safe
  | removeContext c => exact (Store.quiet_removeContext c).safe
  | beginConstruction e =>
    exact Action.safe_of_settles fun _ => ⟨_, _, Store.settles_beginConstruction⟩
  | finishConstruction e =>
    exact Action.safe_of_settles fun _ => ⟨_, _, Store.settles_finishConstruction⟩
  | clearFinished =>
    intro s hs
    obtain ⟨es, -, -, -, hsound, -⟩ := hs.run_clearFinished
    exact hsound
  | checkWhitelist e w => exact (Store.quiet_checkWhitelist e w).safe
  | prependChild t parent child => exact (Store.edits_prependChild t parent child).safe
  | removeChild t parent child => exact (Store.edits_removeChild t parent child).safe
  | detachChild t child => exact (Store.edits_detachChild t child).safe
  | clearSelection t sel => exact Store.safe_clearSelection t sel

/-! ## Runs -/

/-- A run from one store to another, with the reports that it leaves. -/
inductive Run : Store S → List Report → Store S → Prop where
  /-- Nothing is done. -/
  | refl (s : Store S) : Run s [] s
  /-- An operation comes last. -/
  | op {s u : Store S} {rs : List Report} (before : Run s rs u) (k : Op S) :
      Run s (rs ++ (k.run.run u).reports) (k.run.run u).state
  /-- A walk comes last, whose visitor does on every store what some run does. -/
  | walk {s u : Store S} {rs : List Report} {α : Type} (before : Run s rs u) (limit : Nat)
      (t : S.Tag) (parent : Entity) (visitor : Entity → Entity → Action (Store S) Fault α)
      (visits : ∀ p c v, Run v ((visitor p c).run v).reports ((visitor p c).run v).state) :
      Run s (rs ++ ((Store.visitChildren (ε := Fault) limit t parent visitor).run u).reports)
        ((Store.visitChildren (ε := Fault) limit t parent visitor).run u).state

namespace Run

variable {s u : Store S} {rs : List Report}

/-- A run keeps a sound store sound and puts out no owner. -/
theorem sound (h : Run s rs u) (hs : s.Sound) : u.Sound ∧ ∀ r ∈ rs, ¬ r.IsEviction := by
  induction h with
  | refl s => exact ⟨hs, by simp⟩
  | op before k ih =>
    obtain ⟨hu, hrs⟩ := ih hs
    have hk := k.safe _ hu
    exact ⟨hk.state, fun r hr => (List.mem_append.1 hr).elim (hrs r) (hk.no_eviction r)⟩
  | walk before limit t parent visitor visits ih ihv =>
    obtain ⟨hu, hrs⟩ := ih hs
    have hsafe : ∀ p c, (visitor p c).Safe := fun p c v hv =>
      ⟨(ihv p c v hv).1, (ihv p c v hv).2⟩
    have hw := Store.safe_visitChildren (ε := Fault) hsafe limit t parent _ hu
    exact ⟨hw.state, fun r hr => (List.mem_append.1 hr).elim (hrs r) (hw.no_eviction r)⟩

end Run

/-! ## Blank entities -/

namespace Store

variable {s : Store S} {e : Entity} {c : Component S}

/-- Nothing can be found on a live entity. -/
structure Blank (s : Store S) (e : Entity) : Prop where
  /-- It has no components. -/
  isOrphan : s.isOrphan e = .ok true
  /-- A visit lists none. -/
  visit : s.visit e = .ok []
  /-- It has no component when asked for one. -/
  has : ∀ c, s.has e c = .ok false
  /-- It has no value. -/
  get? : ∀ c, s.get? e c = .ok none
  /-- A value that must be there is refused. -/
  fetch : ∀ c, s.fetch e c = .error (s.lacks e c)
  /-- No view lists it. -/
  view : ∀ c v, (e, v) ∉ s.view c

/-- A live entity without values is in no pool. -/
theorem Sound.contains_eq_false (h : s.Sound) (hn : ∀ c, s.lookup? e c = none)
    {p : Pool c.Value} (hp : ⟨c, p⟩ ∈ s.pools.entries) : p.contains e = false := by
  have hpool : s.pool? c = some p := (Table.mem_entries_iff h.pool_keys).1 hp
  rw [← (h.packed c p hpool).isSome_get?, ← lookup?_of_pool? hpool, hn, Option.isSome_none]

theorem Sound.blank (h : s.Sound) (he : s.valid e = true) (hn : ∀ c, s.lookup? e c = none) :
    s.Blank e := by
  have hassert : s.assertValid e = .ok () := by simp [assertValid, check, he, Except.mapError]
  refine ⟨?_, ?_, fun c => ?_, fun c => ?_, fun c => ?_, fun c v => ?_⟩
  · have hall : (s.pools.all fun _ p => !p.contains e) = true := by
      simp only [Table.all, List.all_eq_true, Bool.not_eq_true']
      exact fun x hx => h.contains_eq_false hn hx
    rw [Store.isOrphan, hassert, hall]
    rfl
  · have hnone : (s.pools.entries.filterMap fun x =>
        if x.2.contains e then (s.catalog.get? x.1).map (x.1, ·) else none) = [] := by
      rw [List.filterMap_eq_nil_iff]
      exact fun x hx => if_neg (by simp [h.contains_eq_false hn hx])
    rw [Store.visit, hassert]
    exact congrArg Except.ok hnone
  · rw [Store.has, hassert, h.carries_eq, hn]
    rfl
  · rw [Store.get?, hassert, hn]
    rfl
  · rw [Store.fetch, hn, check, if_pos he]
    rfl
  · rw [h.mem_view_iff, hn]
    simp

/-- A new entity is blank, whoever used its slot before. -/
theorem Sound.blank_create (h : s.Sound) (he : (create.run s).result = .ok e) :
    (create.run s).state.Blank e := by
  rcases h.run_create with ⟨f, hr, hfresh, hsound, hm⟩ | ⟨hr, -, -, -⟩
  · obtain rfl : f = e := by simpa [hr] using he
    have hlive := congrArg (fun m => m.live f) hm
    refine hsound.state.blank (by simpa using hlive) fun c => ?_
    have hvalue := congrArg (fun m => m.value? f c) hm
    simpa [h.lookup?_eq_none hfresh] using hvalue
  · simp [hr] at he

end Store

namespace Run

variable {s : Store S} {rs : List Report}

/-- On a store that a run leaves, starting from a new store, every owner in a pool is live and no
pool holds two owners of one slot, so that no attachment puts out an owner of another generation,
and the run made none that did.  Every component with a pool is in the catalog.  A new entity is
blank. -/
theorem leaves_no_remains (h : Run ({} : Store S) rs s) :
    (∀ c p, s.pool? c = some p →
      (∀ x ∈ p.entities, s.valid x = true) ∧
      (p.entities.map Entity.index).Nodup ∧
      (∀ e, s.valid e = true → p.evictee? e = none) ∧
      ∃ info, s.catalog.get? c = some info) ∧
    (∀ r ∈ rs, ¬ r.IsEviction) ∧
    ∀ e, (Store.create.run s).result = .ok e → (Store.create.run s).state.Blank e := by
  obtain ⟨hs, hrs⟩ := h.sound Store.sound_empty
  refine ⟨fun c p hp => ⟨hs.owner_valid c p hp, (hs.packed c p hp).nodup_index, ?_, ?_⟩, hrs, ?_⟩
  · exact fun e he => hs.evictee?_eq_none hp he
  · exact Table.contains_iff_exists.1 (hs.listed c (Table.contains_iff_exists.2 ⟨p, hp⟩))
  · exact fun e he => hs.blank_create he

end Run

/-- A schema with one data component, of numbers, and one hierarchy. -/
def Schema.sample : Schema where
  Data := Unit
  Tag := Unit
  decEqData := inferInstance
  decEqTag := inferInstance
  Value _ := Nat
  describe _ := ⟨"sample", 8, 8⟩
  tagPath _ := "Tree"

/-- The slot of a destroyed entity is used again, and its new entity is blank. -/
theorem Run.leaves_no_remains_reuse :
    ∃ (rs : List Report) (s : Store Schema.sample), Run {} rs s ∧
      (Store.create.run s).result = .ok ⟨0, 1⟩ ∧ (Store.create.run s).state.Blank ⟨0, 1⟩ := by
  have hrun : Run ({} : Store Schema.sample) _ _ :=
    (((Run.refl {}).op (.call .create)).op
      (.call (.attach ⟨0, 0⟩ (.data ()) (7 : Nat)))).op (.call (.destroy ⟨0, 0⟩))
  exact ⟨_, _, hrun, rfl, hrun.leaves_no_remains.2.2 _ rfl⟩

end EntityStore
