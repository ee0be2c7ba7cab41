import EntityStore.Proofs.Renaming
import EntityStore.Proofs.Rosters

/-!
# Courses of deeds

What a routine does to a store is a course of deeds, one after another (`Routine.course`).  A walk
adds nothing to the deeds of its visitor, whose deeds come one after another too.  So what each deed
does tells what any routine does, however its deeds depend on answers.

The deeds *on the context* (`Deed.OnContext`) are those that set, change, remove or show a context
variable.  They leave the entities, the pools and the catalog of a store alone
(`Deed.bare_of_onContext`), and all other deeds leave its context alone
(`Deed.context_of_not_onContext`).
-/

namespace EntityStore

open EntityStore.Action

variable {S : Schema}

/-! ## What an action fixes -/

namespace Action

variable {σ ε ε' α β γ : Type} {x : Action σ ε α} {f : α → Action σ ε β} {g : σ → γ}

/-- What is read off the state is the same before and after the action. -/
def Fixes (g : σ → γ) (x : Action σ ε α) : Prop := ∀ s, g (x.run s).state = g s

theorem Asks.fixes (hx : x.Asks) : x.Fixes g := fun s => congrArg g (hx s)

theorem fixes_fail (e : ε) : (fail e : Action σ ε α).Fixes g := fun _ => rfl

theorem fixes_report (r : Report) : (report r : Action σ ε Unit).Fixes g := fun _ => rfl

theorem fixes_modify {h : σ → σ} (hh : ∀ s, g (h s) = g s) :
    (modify h : Action σ ε Unit).Fixes g := hh

theorem fixes_modifyGet {h : σ → α × σ} (hh : ∀ s, g (h s).2 = g s) :
    (modifyGet h : Action σ ε α).Fixes g := hh

theorem Fixes.bind (hx : x.Fixes g) (hf : ∀ a, (f a).Fixes g) : (x >>= f).Fixes g := by
  intro s
  cases hr : (x.run s).result with
  | ok a => exact (congrArg g (run_bind_of_ok f hr).2).trans ((hf a _).trans (hx s))
  | error e => exact (congrArg g (run_bind_of_error f hr).2).trans (hx s)

theorem Fixes.mapError (hx : x.Fixes g) (h : ε → ε') : (x.mapError h).Fixes g := hx

theorem Fixes.attempt (hx : x.Fixes g) : (x.attempt : Action σ ε' _).Fixes g := hx

/-- A question that is caught tells the next action what it came to. -/
theorem ends_attempt_query_bind {q : σ → Except ε' α} {k : Except ε' α → Action σ ε β} {s : σ}
    {Q : Except ε β → σ → Prop} (h : (k (q s)).Ends s Q) : (attempt (query q) >>= k).Ends s Q :=
  ends_attempt_bind h

end Action

/-! ## Deeds that fix the context -/

namespace Store

variable {ε α : Type} {t : S.Tag}

theorem fixes_create : (create : Action (Store S) Fault Entity).Fixes context := by
  intro s
  rw [run_create]

theorem fixes_tryDestroy (e : Entity) :
    (tryDestroy e : Action (Store S) StoreError Unit).Fixes context :=
  (asks_query _).fixes.bind fun _ => (fixes_modifyGet fun _ => rfl).bind fun _ =>
    fixes_report _

theorem fixes_ensurePool (c : Component S) :
    (ensurePool c : Action (Store S) ε Unit).Fixes context := by
  refine asks_state.fixes.bind fun s => ?_
  split
  · exact (asks_pure _).fixes
  · refine Fixes.bind (fixes_modify fun _ => rfl) fun _ => fixes_report _

theorem fixes_overwrite (e : Entity) (c : Component S) (f : c.Value → c.Value) :
    (overwrite e c f : Action (Store S) ε Unit).Fixes context := fixes_modify fun _ => rfl

theorem fixes_drop (e : Entity) (c : Component S) :
    (drop e c : Action (Store S) ε Unit).Fixes context := fixes_modify fun _ => rfl

theorem fixes_put (e : Entity) (c : Component S) (v : c.Value) :
    (put e c v : Action (Store S) ε Unit).Fixes context :=
  (fixes_ensurePool c).bind fun _ => (asks_reportEviction e c).fixes.bind fun _ =>
    fixes_modify fun _ => rfl

theorem fixes_tryAttach (e : Entity) (c : Component S) (v : c.Value) :
    (tryAttach e c v).Fixes context :=
  asks_state.fixes.bind fun _ => (asks_query _).fixes.bind fun _ =>
    (asks_require _ _).fixes.bind fun _ => (fixes_put e c v).bind fun _ => (asks_pure v).fixes

theorem fixes_attachOrReplace (e : Entity) (c : Component S) (v : c.Value) :
    (attachOrReplace e c v).Fixes context :=
  (asks_query _).fixes.bind fun _ => (fixes_put e c v).bind fun _ => (asks_pure v).fixes

theorem fixes_getOrAttach (e : Entity) (c : Component S) (make : Unit → Except Fault c.Value) :
    (getOrAttach e c make).Fixes context := by
  refine (asks_query _).fixes.bind fun _ => (fixes_ensurePool c).bind fun _ =>
    asks_state.fixes.bind fun s => ?_
  split
  · exact (asks_pure _).fixes
  · exact (asks_query _).fixes.bind fun v => (fixes_put e c v).bind fun _ => (asks_pure _).fixes

theorem fixes_tryUpdate (e : Entity) (c : Component S) (f : c.Value → c.Value) :
    (tryUpdate e c f).Fixes context :=
  (asks_query _).fixes.bind fun _ => (fixes_overwrite e c f).bind fun _ => (asks_pure _).fixes

theorem fixes_update? (e : Entity) (c : Component S) (f : c.Value → c.Value) :
    (update? e c f).Fixes context :=
  (asks_query _).fixes.bind fun _ => (fixes_overwrite e c f).bind fun _ => (asks_pure _).fixes

theorem fixes_tryDetach (e : Entity) (c : Component S) : (tryDetach e c).Fixes context :=
  (asks_query _).fixes.bind fun _ => (fixes_drop e c).bind fun _ => (asks_pure _).fixes

theorem fixes_detach (e : Entity) (c : Component S) : (detach e c).Fixes context :=
  (fixes_tryDetach e c).mapError _

theorem fixes_detach? (e : Entity) (c : Component S) : (detach? e c).Fixes context :=
  (asks_query _).fixes.bind fun _ => (fixes_drop e c).bind fun _ => (asks_pure _).fixes

theorem fixes_beginConstruction (e : Entity) :
    (beginConstruction e : Action (Store S) Fault Unit).Fixes context :=
  (fixes_attachOrReplace e _ _).bind fun _ => (fixes_detach? e _).bind fun _ =>
    (asks_pure _).fixes

theorem fixes_finishConstruction (e : Entity) :
    (finishConstruction e : Action (Store S) Fault Bool).Fixes context := by
  refine (fixes_detach? e _).bind fun o => ?_
  split
  · exact (asks_pure _).fixes
  · exact (fixes_attachOrReplace e _ _).bind fun _ => (asks_pure _).fixes

theorem fixes_detachEach (c : Component S) (es : List Entity) :
    (detachEach c es).Fixes context := by
  induction es with
  | nil => exact (asks_pure _).fixes
  | cons e es ih => exact (fixes_detach e c).bind fun _ => ih

theorem fixes_clearFinished : (clearFinished : Action (Store S) Fault Nat).Fixes context := by
  refine asks_state.fixes.bind fun s => (fixes_detachEach _ _).bind fun _ => ?_
  split
  · exact (asks_pure _).fixes
  · exact (fixes_report _).bind fun _ => (asks_pure _).fixes

/-- The parts of which edits of a hierarchy are made fix the context, and so does every edit. -/
theorem Edits.fixes {x : Action (Store S) Fault α} (hx : Edits t x) : x.Fixes context := by
  induction hx with
  | pure a => exact (asks_pure a).fixes
  | fail f => exact fixes_fail f
  | query h => exact (asks_query _).fixes
  | attach hc e v => exact (fixes_tryAttach e _ v).mapError _
  | attachOrReplace hc e v => exact fixes_attachOrReplace e _ v
  | getOrAttach hc e make => exact fixes_getOrAttach e _ make
  | update hc e f => exact (fixes_tryUpdate e _ f).mapError _
  | detach hc e => exact fixes_detach e _
  | look _ _ ih => exact asks_state.fixes.bind ih
  | bind _ _ ihx ihf => exact ihx.bind ihf

theorem fixes_clearSelection (t : S.Tag) (sel : Selector S) :
    (clearSelection t sel).Fixes context :=
  asks_state.fixes.bind fun _ => (edits_clearEach t _).fixes.bind fun _ =>
    (fixes_report _).bind fun _ => (asks_pure _).fixes

theorem fixes_call (k : Call S) : k.run.Fixes context := by
  cases k with
  | create => exact fixes_create
  | destroy e => exact (fixes_tryDestroy e).mapError _
  | tryDestroy e => exact (fixes_tryDestroy e).attempt
  | attach e c v => exact (fixes_tryAttach e c v).mapError _
  | tryAttach e c v => exact (fixes_tryAttach e c v).attempt
  | attachOrReplace e c v => exact fixes_attachOrReplace e c v
  | getOrAttach e c make => exact fixes_getOrAttach e c make
  | update e c f => exact (fixes_tryUpdate e c f).mapError _
  | tryUpdate e c f => exact (fixes_tryUpdate e c f).attempt
  | update? e c f => exact fixes_update? e c f
  | detach e c => exact fixes_detach e c
  | tryDetach e c => exact (fixes_tryDetach e c).attempt
  | detach? e c => exact fixes_detach? e c
  | updateAll c f => exact fixes_modifyGet fun _ => rfl
  | has e c | get e c | fetch e c | get? e c | view c => exact fun _ => rfl

end Store

/-! ## Deeds that fix all but the context -/

namespace Store

variable {ε : Type}

/-- A store without its context. -/
def bare (s : Store S) : Store S := { s with context := {} }

/-- A change of the context leaves the rest. -/
theorem fixes_changeContext
    (f : Table (Component S) (fun c => Variable c.Value) →
      Table (Component S) (fun c => Variable c.Value)) :
    (Action.modify fun s => { s with context := f s.context } :
      Action (Store S) ε Unit).Fixes bare :=
  fixes_modify fun _ => rfl

theorem fixes_setContext (c : Component S) (name : String) (v : c.Value) :
    (setContext c name v : Action (Store S) ε c.Value).Fixes bare := by
  have hset := (fixes_changeContext (ε := ε) (·.insert c ⟨name, v⟩)).bind fun _ =>
    (asks_pure (σ := Store S) (ε := ε) v).fixes
  refine asks_state.fixes.bind fun s => ?_
  split
  · exact (fixes_report _).bind fun _ => hset
  · exact hset

theorem fixes_updateContext (c : Component S) (f : c.Value → c.Value) :
    (updateContext c f).Fixes bare := by
  refine Fixes.bind (fixes_modifyGet fun _ => rfl) fun o => ?_
  split
  · exact (asks_pure _).fixes
  · exact fixes_fail _

theorem fixes_getOrSetContext (c : Component S) (name : String)
    (make : Unit → Except Fault c.Value) : (getOrSetContext c name make).Fixes bare := by
  refine asks_state.fixes.bind fun s => ?_
  split
  · exact (asks_pure _).fixes
  · exact (asks_query _).fixes.bind fun v =>
      (fixes_changeContext (·.insert c ⟨name, v⟩)).bind fun _ => (asks_pure _).fixes

end Store

namespace Deed

/-- Whether a deed sets, changes, removes or shows a context variable. -/
def OnContext : Deed S → Prop
  | .use (.op (.setContext _ _ _)) | .use (.op (.updateContext? _ _))
  | .use (.op (.updateContext _ _)) | .use (.op (.getOrSetContext _ _ _))
  | .use (.op (.removeContext _)) | .use (.contextValue _)
  | .see (.contextValue? _) | .see (.contextName? _) | .see .contextDebug => True
  | _ => False

/-- A deed on the context leaves the rest of the store as it was. -/
theorem bare_of_onContext {k : Deed S} (hk : k.OnContext) : k.run.Fixes Store.bare := by
  cases k with
  | use u =>
    cases u with
    | op k =>
      cases k with
      | setContext c name v => exact Store.fixes_setContext c name v
      | updateContext? c f => exact fixes_modifyGet fun _ => rfl
      | updateContext c f => exact Store.fixes_updateContext c f
      | getOrSetContext c name make => exact Store.fixes_getOrSetContext c name make
      | removeContext c => exact fixes_modifyGet fun _ => rfl
      | _ => exact hk.elim
    | contextValue c => exact (asks_query _).fixes
    | _ => exact hk.elim
  | see q => exact (asks_query _).fixes
  | _ => exact hk.elim

/-- Any other deed leaves the context as it was. -/
theorem context_of_not_onContext {k : Deed S} (hk : ¬ k.OnContext) :
    k.run.Fixes Store.context := by
  cases k with
  | use u =>
    cases u with
    | op k =>
      cases k with
      | call k => exact Store.fixes_call k
      | setName c name => exact fixes_modify fun _ => rfl
      | beginConstruction e => exact Store.fixes_beginConstruction e
      | finishConstruction e => exact Store.fixes_finishConstruction e
      | clearFinished => exact Store.fixes_clearFinished
      | checkWhitelist e w => exact (Store.asks_checkWhitelist e w).fixes
      | prependChild t parent child => exact (Store.edits_prependChild t parent child).fixes
      | removeChild t parent child => exact (Store.edits_removeChild t parent child).fixes
      | detachChild t child => exact (Store.edits_detachChild t child).fixes
      | clearSelection t sel => exact Store.fixes_clearSelection t sel
      | setContext | updateContext? | updateContext | getOrSetContext | removeContext =>
        exact (hk trivial).elim
    | isOrphan e | visit e | contextValue c => exact (asks_query _).fixes
  | ask t q | see q | nameOf c | info? c | names => exact (asks_query _).fixes

end Deed

/-! ## Courses -/

namespace Routine

variable {s u v : Store S} {es fs : List (Event S)} {t : S.Tag} {ε : Type}

/-- Deed after deed leads from a store to another.  What is noted of a walk as such leaves the store
as it is. -/
inductive Course (s : Store S) : List (Event S) → Store S → Prop where
  /-- Nothing was done. -/
  | start : Course s [] s
  /-- A deed comes last. -/
  | deed {es : List (Event S)} {u : Store S} (before : Course s es u) (k : Deed S) :
      Course s (es ++ [.deed k (k.run.run u).result]) (k.run.run u).state
  /-- A walk comes to its end. -/
  | walk {es : List (Event S)} {u : Store S} (before : Course s es u) (t : S.Tag)
      (parent : Entity) (children : List Entity) (failure : Option Fault) :
      Course s (es ++ [.walk t parent children failure]) u

theorem Course.trans (h : Course s es u) (h' : Course u fs v) : Course s (es ++ fs) v := by
  induction h' with
  | start => rwa [List.append_nil]
  | deed before k ih =>
    rw [← List.append_assoc]
    exact ih.deed k
  | walk before t parent children failure ih =>
    rw [← List.append_assoc]
    exact ih.walk t parent children failure

/-- A course on which every deed fixes something fixes it. -/
theorem Course.fixes {γ : Type} {g : Store S → γ} (h : Course s es u)
    (hes : ∀ k r, .deed k r ∈ es → k.run.Fixes g) : g u = g s := by
  induction h with
  | start => rfl
  | @deed es u before k ih =>
    have hk := hes k _ (List.mem_append_right es (List.mem_singleton.2 rfl))
    exact (hk u).trans (ih fun k r hmem => hes k r (List.mem_append_left _ hmem))
  | walk before t parent children failure ih =>
    exact ih fun k r hmem => hes k r (List.mem_append_left _ hmem)

section Walks

variable {visitor : Entity → Entity → Action (Store S) Fault (List (Event S))}

/-- A walk whose visits are courses is a course, visit after visit. -/
theorem course_visitFrom
    (hvisitor : ∀ p c s, (visitor p c).Ends s fun r u => ∃ es, r = .ok es ∧ Course s es u)
    (parent : Entity) (n : Nat) (o : Option Entity) (s : Store S) :
    (Store.visitFrom t parent visitor n o : Action (Store S) ε _).Ends s fun r u =>
      ∃ w, r = .ok w ∧ Course s (w.visited.flatMap Prod.snd) u := by
  -- The store is generalized, since the next visit starts from what this one leaves.
  induction n generalizing o s with
  | zero =>
    cases o with
    | none => exact ⟨_, rfl, .start⟩
    | some child =>
      unfold Store.visitFrom
      refine ends_attempt_query_bind ?_
      cases s.successor t parent child with
      | error f => exact ⟨_, rfl, .start⟩
      | ok next => exact ⟨_, rfl, .start⟩
  | succ n ih =>
    cases o with
    | none => exact ⟨_, rfl, .start⟩
    | some child =>
      unfold Store.visitFrom
      refine ends_attempt_query_bind ?_
      cases s.successor t parent child with
      | error f => exact ⟨_, rfl, .start⟩
      | ok next =>
        refine ends_attempt_bind ((hvisitor parent child s).imp ?_)
        rintro _ u ⟨es, rfl, hes⟩
        refine ends_bind ((ih next u).imp ?_)
        rintro _ v ⟨w, rfl, hw⟩
        exact ⟨_, rfl, hes.trans hw⟩

theorem course_visitChildren
    (hvisitor : ∀ p c s, (visitor p c).Ends s fun r u => ∃ es, r = .ok es ∧ Course s es u)
    (limit : Nat) (parent : Entity) (s : Store S) :
    (Store.visitChildren limit t parent visitor : Action (Store S) ε _).Ends s fun r u =>
      ∃ w, r = .ok w ∧ Course s (w.visited.flatMap Prod.snd) u := by
  refine ends_attempt_query_bind ?_
  cases s.firstChildOf? t parent with
  | error f => exact ⟨_, rfl, .start⟩
  | ok first => exact course_visitFrom hvisitor parent limit first s

end Walks

theorem ends_run (p : Routine S) (ε : Type) (s : Store S) :
    (p.run ε).Ends s fun r u => ∃ es, r = .ok es ∧ Course s es u := by
  -- By induction on the routine.  The visitor of a walk is a routine too, with its own hypothesis.
  induction p generalizing ε s with
  | done => exact ⟨[], rfl, .start⟩
  | deed k rest ih =>
    have hk : k.run.Ends s fun r u => Course s [.deed k r] u := Course.start.deed k
    refine ends_attempt_bind (hk.imp ?_)
    rintro r u hr
    refine ends_bind ((ih r ε u).imp ?_)
    rintro _ v ⟨es, rfl, hes⟩
    exact ⟨_, rfl, hr.trans hes⟩
  | walk limit t parent visitor rest ihvisitor ih =>
    refine ends_bind ((course_visitChildren (fun p c => ihvisitor p c Fault) limit parent s).imp ?_)
    rintro _ u ⟨w, rfl, hw⟩
    refine ends_bind ((ih _ _ ε u).imp ?_)
    rintro _ v ⟨es, rfl, hes⟩
    refine ⟨_, rfl, hw.trans ?_⟩
    exact (Course.start.walk t parent _ w.failure).trans hes

/-- What a routine does is a course of deeds. -/
theorem course (p : Routine S) (s : Store S) : Course s (p.events s) (p.after s) := by
  obtain ⟨es, hes, hcourse⟩ := p.ends_run Empty s
  rw [events, hes]
  exact hcourse

end Routine

end EntityStore
