import EntityStore.Proofs.Editing

/-!
# Scripts over several hierarchies

A *script* creates and destroys entities, edits hierarchies and asks about them, and walks over the
children of a parent with a visitor that is a script too.  What it does next may depend on how an
operation ended.  Failures are caught, so what an operation did before it failed stays, and each
operation leaves an *event* that tells how it ended.

Some of the hierarchies of a script can be left out (`Script.without`), in its visitors too.  That
makes sense where the rest does not depend on how operations on these hierarchies end, which is
part of `Script.Apart`.

An operation ends alike on stores that agree on the links of its own hierarchy and on what its
selector mentions (`Step.alike`), and an operation on a hierarchy leaves all else alone
(`Step.spares`).  The same holds of a walk if it holds of its visitor.
-/

namespace EntityStore

variable {S : Schema}

/-! ## Scripts -/

/-- A question about a hierarchy. -/
inductive Question where
  /-- Whether an entity is a child. -/
  | isChild (e : Entity)
  /-- Whether an entity has children. -/
  | isParent (e : Entity)
  /-- The parent of a child. -/
  | parentOf? (e : Entity)
  /-- The first child of a parent. -/
  | firstChildOf? (e : Entity)
  /-- The number of children. -/
  | childCount (e : Entity)
  /-- Whether a child names an entity as its parent. -/
  | isChildOf (parent child : Entity)
  /-- Whether an entity is in the list of children of a parent. -/
  | hasChild (parent candidate : Entity)
  /-- Whether an entity lies above another. -/
  | isAncestorOf (ancestor e : Entity)
  /-- The children of a parent. -/
  | listChildren (parent : Entity)
  /-- What the first places in the list of children show. -/
  | stepChildren (parent : Entity) (n : Nat)
  /-- What is wrong with the links of a parent and its children. -/
  | examine (parent : Entity)

namespace Question

/-- What a question answers. -/
def Answer : Question → Type
  | isChild _ | isParent _ | isChildOf _ _ | hasChild _ _ | isAncestorOf _ _ => Bool
  | parentOf? _ | firstChildOf? _ => Option Entity
  | childCount _ => UInt64
  | listChildren _ => List Entity
  | stepChildren _ _ => (Nat × Nat) × List (Option Entity × (Nat × Nat))
  | examine _ => Except LinkError Unit

/-- The answer to a question about the hierarchy of a tag. -/
def ask (s : Store S) (t : S.Tag) : (q : Question) → Except Fault q.Answer
  | isChild e => s.isChild t e
  | isParent e => s.isParent t e
  | parentOf? e => s.parentOf? t e
  | firstChildOf? e => s.firstChildOf? t e
  | childCount e => s.childCount t e
  | isChildOf parent child => s.isChildOf t parent child
  | hasChild parent candidate => s.hasChild t parent candidate
  | isAncestorOf ancestor e => s.isAncestorOf t ancestor e
  | listChildren parent => s.listChildren t parent
  | stepChildren parent n => do
    let w ← s.children t parent
    let shown ← s.stepChildren t n w
    pure (w.sizeHint, shown)
  | examine parent => .ok (s.examine t parent)

end Question

/-- An operation on entities or on the hierarchy of a tag. -/
inductive Step (S : Schema) where
  /-- Issue an entity. -/
  | create
  /-- Destroy an entity, which must be live. -/
  | destroy (e : Entity)
  /-- Destroy an entity, or refuse. -/
  | tryDestroy (e : Entity)
  /-- Ask about a hierarchy. -/
  | ask (t : S.Tag) (q : Question)
  /-- Link a child. -/
  | prependChild (t : S.Tag) (parent child : Entity)
  /-- Unlink a child from a parent. -/
  | removeChild (t : S.Tag) (parent child : Entity)
  /-- Unlink a child. -/
  | detachChild (t : S.Tag) (child : Entity)
  /-- Unlink all children of a selection. -/
  | clearSelection (t : S.Tag) (sel : Selector S)

namespace Step

/-- The tag of the hierarchy that an operation is about. -/
def tag? : Step S → Option S.Tag
  | create | destroy _ | tryDestroy _ => none
  | ask t _ | prependChild t _ _ | removeChild t _ _ | detachChild t _
  | clearSelection t _ => some t

/-- The components that the selector of an operation mentions. -/
def mentioned : Step S → List (Component S)
  | clearSelection _ sel => sel.required ++ sel.rejected
  | _ => []

/-- What an operation answers when it does not fail. -/
def Answer : Step S → Type
  | create => Entity
  | destroy _ | prependChild _ _ _ => Unit
  | tryDestroy _ => Except StoreError Unit
  | ask _ q => q.Answer
  | removeChild _ _ _ | detachChild _ _ => Bool
  | clearSelection _ _ => Nat

/-- What an operation does. -/
def run : (k : Step S) → Action (Store S) Fault k.Answer
  | create => Store.create
  | destroy e => Store.destroy e
  | tryDestroy e => (Store.tryDestroy e).attempt
  | ask t q => Action.query fun s => q.ask s t
  | prependChild t parent child => Store.prependChild t parent child
  | removeChild t parent child => Store.removeChild t parent child
  | detachChild t child => Store.detachChild t child
  | clearSelection t sel => Store.clearSelection t sel

end Step

/-- Operations one after another. -/
inductive Script (S : Schema) where
  /-- Nothing is left to be done. -/
  | done
  /-- An operation comes first. -/
  | step (k : Step S) (rest : Except Fault k.Answer → Script S)
  /-- A walk over the children of a parent comes first.  The rest may depend on the children that
  were visited and on the failure, if any, that ended the walk. -/
  | walk (limit : Nat) (t : S.Tag) (parent : Entity) (visitor : Entity → Entity → Script S)
      (rest : List Entity → Option Fault → Script S)

namespace Script

/-- How an operation or a walk of a script ended. -/
inductive Event (S : Schema) where
  /-- An operation gave an answer or failed. -/
  | step (k : Step S) (a : Except Fault k.Answer)
  /-- A walk visited some children, and may have failed then. -/
  | walk (t : S.Tag) (parent : Entity) (children : List Entity) (failure : Option Fault)

/-- The tag of the hierarchy that an event is about. -/
def Event.tag? : Event S → Option S.Tag
  | step k _ => k.tag?
  | walk t _ _ _ => some t

/-- What a script does.  It ends with its events: those of the visits of a walk come before the
event of the walk itself. -/
def run : Script S → (ε : Type) → Action (Store S) ε (List (Event S))
  | done, _ => pure []
  | step k rest, ε => do
    let a ← k.run.attempt
    let later ← (rest a).run ε
    pure (.step k a :: later)
  | walk limit t parent visitor rest, ε => do
    let v ← Store.visitChildren limit t parent fun p c => (visitor p c).run Fault
    let children := v.visited.map Prod.fst
    let later ← (rest children v.failure).run ε
    pure (v.visited.flatMap Prod.snd ++ .walk t parent children v.failure :: later)

/-- The events of a script on a store.  A script never fails. -/
def events (p : Script S) (s : Store S) : List (Event S) :=
  match ((p.run Empty).run s).result with
  | .ok es => es
  | .error e => e.elim

/-- The store that a script leaves. -/
def after (p : Script S) (s : Store S) : Store S := ((p.run Empty).run s).state

/-- One script, and then another. -/
def append : Script S → Script S → Script S
  | done, q => q
  | step k rest, q => .step k fun a => (rest a).append q
  | walk limit t parent visitor rest, q =>
    .walk limit t parent visitor fun children failure => (rest children failure).append q

end Script

/-! ## Leaving hierarchies out -/

/-- Whether a tag, if there is one, is among some tags. -/
def Among (D : List S.Tag) (o : Option S.Tag) : Bool := o.any fun t => decide (t ∈ D)

namespace Script

/-- A script without what it does under some tags, in its visitors too.  The rest goes on as if
an operation that is left out had failed, and as if a walk had visited no child. -/
def without (D : List S.Tag) : Script S → Script S
  | done => done
  | step k rest =>
    if Among D k.tag? then (rest (.error .exhausted)).without D
    else .step k fun a => (rest a).without D
  | walk limit t parent visitor rest =>
    if t ∈ D then (rest [] none).without D
    else
      .walk limit t parent (fun p c => (visitor p c).without D) fun children failure =>
        (rest children failure).without D

/-- All that a script does is under some tags. -/
def Only (D : List S.Tag) : Script S → Prop
  | done => True
  | step k rest => Among D k.tag? = true ∧ ∀ a, (rest a).Only D
  | walk _ t _ visitor rest =>
    t ∈ D ∧ (∀ p c, (visitor p c).Only D) ∧ ∀ children failure, (rest children failure).Only D

/-- What a script does under some tags is kept apart from the rest of it: a selector of the rest
mentions no link under these tags, the rest does not depend on how an operation or a walk under
these tags ended, and a visitor of such a walk does nothing else. -/
def Apart (D : List S.Tag) : Script S → Prop
  | done => True
  | step k rest =>
    (if Among D k.tag? then ∀ a a', rest a = rest a'
      else ∀ c ∈ k.mentioned, Among D c.tag? = false) ∧
    ∀ a, (rest a).Apart D
  | walk _ t _ visitor rest =>
    (if t ∈ D then
        (∀ p c, (visitor p c).Only D) ∧ ∀ children failure, rest children failure = rest [] none
      else ∀ p c, (visitor p c).Apart D) ∧
    ∀ children failure, (rest children failure).Apart D

end Script

/-! ## Operations -/

section Steps

open EntityStore.Action

variable {K : Component S → Prop} {t : S.Tag} {ε α α' : Type}

theorem Store.Agree.ask {s s' : Store S} (h : s.Agree (OfTag t) s') (q : Question) :
    q.ask s t = q.ask s' t := by
  cases q with
  | isChild e => exact h.isChild e
  | isParent e => exact h.isParent e
  | parentOf? e => exact h.parentOf? e
  | firstChildOf? e => exact h.firstChildOf? e
  | childCount e => exact h.childCount e
  | isChildOf parent child => exact h.isChildOf parent child
  | hasChild parent candidate => exact h.hasChild parent candidate
  | isAncestorOf ancestor e => exact h.isAncestorOf ancestor e
  | listChildren parent => exact h.listChildren parent
  | stepChildren parent n => simp only [Question.ask, h.children, h.stepChildren]
  | examine parent => exact congrArg Except.ok (h.examine parent)

/-- Once the parents are selected, clearing them is local. -/
theorem Store.local_clearSelected (t : S.Tag) (parents : List Entity) :
    (do
      let edges ← Store.clearEach t parents
      Action.report (Store.clearedSelection t parents.length edges)
      pure edges : Action (Store S) Fault Nat).Local (OfTag t) :=
  (Store.edits_clearEach t parents).local.bind fun _ => (local_report _).bind fun _ =>
    local_pure _

theorem Store.alike_clearSelection {sel : Selector S} (hown : ∀ c, OfTag t c → K c)
    (hrequired : ∀ c ∈ sel.required, K c) (hrejected : ∀ c ∈ sel.rejected, K c) :
    Alike K Eq (Store.clearSelection t sel) (Store.clearSelection t sel) := by
  refine alike_state.bind fun s s' h => ?_
  have hselect :
      s.select (sel.require (.firstChild t)) = s'.select (sel.require (.firstChild t)) := by
    refine h.select (fun c hc => ?_) hrejected
    rcases Store.mem_mention.1 hc with hc | rfl
    · exact hrequired c hc
    · exact hown _ ofTag_firstChild
  rw [hselect]
  exact (Store.local_clearSelected t _).alike_of_le hown

theorem Store.spares_clearSelection {sel : Selector S} (hK : ∀ c, K c → ¬ OfTag t c) :
    Spares K (Store.clearSelection t sel) :=
  spares_state.bind fun _ => (Store.local_clearSelected t _).spares.mono hK

namespace Step

/-- An operation ends alike on stores that agree on the links of its hierarchy and on what its
selector mentions. -/
theorem alike (k : Step S) (hown : ∀ t, k.tag? = some t → ∀ c, OfTag t c → K c)
    (hmentioned : ∀ c ∈ k.mentioned, K c) : Alike K Eq k.run k.run := by
  cases k with
  | create => exact Store.alike_create
  | destroy e => exact Store.alike_destroy e
  | tryDestroy e => exact (Store.alike_tryDestroy e).attempt.imp fun _ _ h => h.eq
  | ask t q => exact alike_query fun _ _ h => (h.mono (hown t rfl)).ask q
  | prependChild t parent child =>
    exact (Store.edits_prependChild t parent child).local.alike_of_le (hown t rfl)
  | removeChild t parent child =>
    exact (Store.edits_removeChild t parent child).local.alike_of_le (hown t rfl)
  | detachChild t child =>
    exact (Store.edits_detachChild t child).local.alike_of_le (hown t rfl)
  | clearSelection t sel =>
    exact Store.alike_clearSelection (hown t rfl)
      (fun c hc => hmentioned c (List.mem_append_left _ hc))
      fun c hc => hmentioned c (List.mem_append_right _ hc)

/-- An operation on a hierarchy leaves everything but its links alone. -/
theorem spares (k : Step S) (ht : k.tag? = some t) (hK : ∀ c, K c → ¬ OfTag t c) :
    Spares K k.run := by
  cases k with
  | create => cases ht
  | destroy e => cases ht
  | tryDestroy e => cases ht
  | ask u q => exact spares_query _
  | prependChild u parent child =>
    cases ht
    exact (Store.edits_prependChild t parent child).local.spares.mono hK
  | removeChild u parent child =>
    cases ht
    exact (Store.edits_removeChild t parent child).local.spares.mono hK
  | detachChild u child =>
    cases ht
    exact (Store.edits_detachChild t child).local.spares.mono hK
  | clearSelection u sel =>
    cases ht
    exact Store.spares_clearSelection hK

end Step

/-! ## Walks -/

/-- The same children were visited, with related values, and the failure is the same. -/
structure Store.Visits.Related (R : α → α' → Prop) (v : Store.Visits α) (v' : Store.Visits α') :
    Prop where
  /-- The visits are the same up to the values. -/
  visited : List.Forall₂ (fun x x' => x.1 = x'.1 ∧ R x.2 x'.2) v.visited v'.visited
  /-- The failure is the same. -/
  failure : v.failure = v'.failure

theorem map_fst_eq_of_forall₂ {R : α → α' → Prop} {l : List (Entity × α)}
    {l' : List (Entity × α')} (h : List.Forall₂ (fun x x' => x.1 = x'.1 ∧ R x.2 x'.2) l l') :
    l.map Prod.fst = l'.map Prod.fst := by
  induction h with
  | nil => rfl
  | cons hx _ ih => rw [List.map_cons, List.map_cons, hx.1, ih]

variable {R : α → α' → Prop} {visitor : Entity → Entity → Action (Store S) Fault α}
  {visitor' : Entity → Entity → Action (Store S) Fault α'}

theorem Store.alike_visitFrom (hown : ∀ c, OfTag t c → K c)
    (hvisitor : ∀ p c, Alike K R (visitor p c) (visitor' p c)) (parent : Entity) (n : Nat)
    (o : Option Entity) :
    Alike K (Store.Visits.Related R) (Store.visitFrom t parent visitor n o : Action (Store S) ε _)
      (Store.visitFrom t parent visitor' n o) := by
  have hquery (child : Entity) : Alike K (Matches Eq)
      ((query fun s => s.successor t parent child).attempt : Action (Store S) ε _)
      ((query fun s => s.successor t parent child).attempt) :=
    (alike_query fun _ _ h => (h.mono hown).successor parent child).attempt
  induction n generalizing o with
  | zero =>
    cases o with
    | none => exact alike_pure ⟨.nil, rfl⟩
    | some child =>
      unfold Store.visitFrom
      refine (hquery child).bind fun next next' h => ?_
      cases h with
      | error f => exact alike_pure ⟨.nil, rfl⟩
      | ok h => exact alike_pure ⟨.nil, rfl⟩
  | succ n ih =>
    cases o with
    | none => exact alike_pure ⟨.nil, rfl⟩
    | some child =>
      unfold Store.visitFrom
      refine (hquery child).bind fun next next' h => ?_
      cases h with
      | error f => exact alike_pure ⟨.nil, rfl⟩
      | ok h =>
        subst h
        refine (hvisitor parent child).attempt.bind fun a a' h => ?_
        cases h with
        | error f => exact alike_pure ⟨.nil, rfl⟩
        | ok h =>
          exact (ih _).bind fun v v' hv => alike_pure ⟨.cons ⟨rfl, h⟩ hv.visited, hv.failure⟩

/-- Walks with visitors that act alike are alike. -/
theorem Store.alike_visitChildren (hown : ∀ c, OfTag t c → K c)
    (hvisitor : ∀ p c, Alike K R (visitor p c) (visitor' p c)) (limit : Nat) (parent : Entity) :
    Alike K (Store.Visits.Related R)
      (Store.visitChildren limit t parent visitor : Action (Store S) ε _)
      (Store.visitChildren limit t parent visitor') := by
  have hquery : Alike K (Matches Eq)
      ((query fun s => s.firstChildOf? t parent).attempt : Action (Store S) ε _)
      ((query fun s => s.firstChildOf? t parent).attempt) :=
    (alike_query fun _ _ h => (h.mono hown).firstChildOf? parent).attempt
  refine hquery.bind fun first first' h => ?_
  cases h with
  | error f => exact alike_pure ⟨.nil, rfl⟩
  | ok h =>
    subst h
    exact Store.alike_visitFrom hown hvisitor parent limit _

theorem Store.idle_visitFrom {P : α → Prop} (hvisitor : ∀ p c, Idle K P (visitor p c))
    (parent : Entity) (n : Nat) (o : Option Entity) :
    Idle K (fun v => ∀ x ∈ v.visited, P x.2)
      (Store.visitFrom t parent visitor n o : Action (Store S) ε _) := by
  have hquery (child : Entity) : Idle K (fun _ => True)
      ((query fun s => s.successor t parent child).attempt : Action (Store S) ε _) :=
    (spares_query _).attempt
  induction n generalizing o with
  | zero =>
    cases o with
    | none => exact idle_pure (by simp)
    | some child =>
      unfold Store.visitFrom
      refine (hquery child).bind fun next _ => ?_
      cases next with
      | error f => exact idle_pure (by simp)
      | ok next => exact idle_pure (by simp)
  | succ n ih =>
    cases o with
    | none => exact idle_pure (by simp)
    | some child =>
      unfold Store.visitFrom
      refine (hquery child).bind fun next _ => ?_
      cases next with
      | error f => exact idle_pure (by simp)
      | ok next =>
        refine (hvisitor parent child).attempt.bind fun r hr => ?_
        obtain ⟨a, rfl, ha⟩ := hr
        refine (ih next).bind fun v hv => idle_pure fun x hx => ?_
        rcases List.mem_cons.1 hx with rfl | hx
        · exact ha
        · exact hv x hx

/-- A walk with an idle visitor is idle. -/
theorem Store.idle_visitChildren {P : α → Prop} (hvisitor : ∀ p c, Idle K P (visitor p c))
    (limit : Nat) (parent : Entity) :
    Idle K (fun v => ∀ x ∈ v.visited, P x.2)
      (Store.visitChildren limit t parent visitor : Action (Store S) ε _) := by
  have hquery : Idle K (fun _ => True)
      ((query fun s => s.firstChildOf? t parent).attempt : Action (Store S) ε _) :=
    (spares_query _).attempt
  refine hquery.bind fun first _ => ?_
  cases first with
  | error f => exact idle_pure (by simp)
  | ok first => exact Store.idle_visitFrom hvisitor parent limit first

end Steps

end EntityStore
