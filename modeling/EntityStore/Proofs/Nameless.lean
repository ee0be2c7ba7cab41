import EntityStore.Proofs.Naming
import EntityStore.Proofs.Refusals
import EntityStore.Proofs.Scripts

/-!
# Names show in failures only

What an operation does to a store does not depend on the names of components.  On stores that alias
each other it ends in failures that are the same but for names, or in the same value
(`Action.Nameless`), and the names in its failures are those of components that it is about.  The
exceptions are the questions that show names by design: the entries that a visit reports and the
names that a whitelist check lists are those of the same components.
-/

namespace EntityStore

variable {S : Schema} {ε ε' α : Type} {K : Component S → Prop} {N N' : Names S} {t : S.Tag}

theorem Table.contains_map {I : Type} {F : I → Type} [DecidableEq I] (l : Table I F)
    (f : (i : I) → F i → F i) (i : I) : (l.map f).contains i = l.contains i := by
  rw [Table.contains, Table.get?_map, Option.isSome_map, Table.contains]

namespace Store

/-! ## Questions about entities and components -/

namespace Alias

variable {s s' : Store S} {c : Component S}

theorem valid (h : Alias N N' s s') (e : Entity) : s.valid e = s'.valid e :=
  h.same (q := fun s => s.valid e) fun _ _ => rfl

theorem pool? (h : Alias N N' s s') (c : Component S) : s.pool? c = s'.pool? c :=
  h.same (q := fun s => s.pool? c) fun _ _ => rfl

theorem contains (h : Alias N N' s s') (c : Component S) :
    s.pools.contains c = s'.pools.contains c := congrArg Option.isSome (h.pool? c)

theorem carries (h : Alias N N' s s') (e : Entity) (c : Component S) :
    s.carries e c = s'.carries e c := h.same (q := fun s => s.carries e c) fun _ _ => rfl

theorem lookup? (h : Alias N N' s s') (e : Entity) (c : Component S) :
    s.lookup? e c = s'.lookup? e c := h.same (q := fun s => s.lookup? e c) fun _ _ => rfl

theorem check (h : Alias N N' s s') (e : Entity) :
    Corresponds (StoreError.Renamed K N N') Eq (s.check e) (s'.check e) := by
  rw [Store.check, Store.check, h.valid]
  split
  · exact .ok rfl
  · exact .error (.stale e)

theorem assertValid (h : Alias N N' s s') (e : Entity) :
    Corresponds (Fault.Renamed K N N') Eq (s.assertValid e) (s'.assertValid e) :=
  (h.check e).mapError fun _ _ => .refused

theorem has (h : Alias N N' s s') (e : Entity) (c : Component S) :
    Corresponds (Fault.Renamed K N N') Eq (s.has e c) (s'.has e c) :=
  (h.assertValid e).seq fun _ => .ok (h.carries e c)

theorem get? (h : Alias N N' s s') (e : Entity) (c : Component S) :
    Corresponds (Fault.Renamed K N N') Eq (s.get? e c) (s'.get? e c) :=
  (h.assertValid e).seq fun _ => .ok (h.lookup? e c)

/-- The one question about a single component that shows its name. -/
theorem fetch (h : Alias N N' s s') (hc : K c) (e : Entity) :
    Corresponds (StoreError.Renamed K N N') Eq (s.fetch e c) (s'.fetch e c) := by
  refine (h.check e).seq fun _ => ?_
  rw [h.lookup?, lacks, lacks, h.named.nameOf, h.named'.nameOf]
  cases s'.lookup? e c with
  | some v => exact .ok rfl
  | none => exact .error (.missing e hc)

theorem get (h : Alias N N' s s') (hc : K c) (e : Entity) :
    Corresponds (Fault.Renamed K N N') Eq (s.get e c) (s'.get e c) :=
  (h.fetch hc e).mapError fun _ _ => .refused

theorem isOrphan (h : Alias N N' s s') (e : Entity) :
    Corresponds (Fault.Renamed K N N') Eq (s.isOrphan e) (s'.isOrphan e) :=
  (h.assertValid e).seq fun _ => .ok (by rw [h.pools])

theorem contextValue (h : Alias N N' s s') (c : Component S) :
    Corresponds (Fault.Renamed K N N') Eq (s.contextValue c) (s'.contextValue c) := by
  rw [Store.contextValue, Store.contextValue, Store.contextValue?, h.context, ← contextValue?]
  cases s'.contextValue? c with
  | some v => exact .ok rfl
  | none => exact .error (.refused (.missingContext _))

end Alias

/-! ## Visits and whitelists -/

/-- The components of an entity, in the order of their pools. -/
def carried (s : Store S) (e : Entity) : List (Component S) :=
  s.pools.entries.filterMap fun x => if x.snd.contains e then some x.fst else none

/-- A visit reports each component of a live entity under its name. -/
theorem Named.visit {s : Store S} (h : s.Named N) (e : Entity) :
    s.visit e = (s.assertValid e).map fun _ => (s.carried e).map fun c => (c, N.info c) := by
  have hentries : (s.pools.entries.filterMap fun x =>
      if x.snd.contains e then (s.catalog.get? x.fst).map (x.fst, ·) else none) =
        (s.carried e).map fun c => (c, N.info c) := by
    rw [carried, List.map_filterMap]
    refine List.filterMap_congr fun x hx => ?_
    have hc : s.pools.contains x.fst = true :=
      Table.contains_iff_mem_keys.2 (List.mem_map_of_mem hx)
    rw [h.get?_of_contains hc]
    split <;> rfl
  have hvisit : s.visit e = (s.assertValid e).map fun _ => s.pools.entries.filterMap fun x =>
      if x.snd.contains e then (s.catalog.get? x.fst).map (x.fst, ·) else none := by
    rw [Store.visit]
    cases s.assertValid e <;> rfl
  rw [hvisit, hentries]

/-- The same components are listed, each with its entry. -/
def ListsAlike (N N' : Names S) (l l' : List (Component S × Info)) : Prop :=
  ∃ cs : List (Component S), l = cs.map (fun c => (c, N.info c)) ∧
    l' = cs.map fun c => (c, N'.info c)

theorem Alias.visit {s s' : Store S} (h : Alias N N' s s') (e : Entity) :
    Corresponds (Fault.Renamed K N N') (ListsAlike N N') (s.visit e) (s'.visit e) := by
  have hcarried : s'.carried e = s.carried e := by rw [carried, ← h.pools, carried]
  rw [h.named.visit, h.named'.visit, hcarried]
  exact (h.assertValid e).map fun _ _ _ => ⟨s.carried e, rfl, rfl⟩

/-- The names are those of the same components, none of which is allowed. -/
theorem Alias.strays {s s' : Store S} (h : Alias N N' s s') (e : Entity) (w : Whitelist S) :
    Corresponds (Fault.Renamed K N N')
      (fun l l' => ∃ cs : List (Component S), (∀ c ∈ cs, w.allows c = false) ∧
        l = cs.map N ∧ l' = cs.map N') (s.strays e w) (s'.strays e w) := by
  refine (h.visit e).bind fun l l' hl => ?_
  obtain ⟨cs, rfl, rfl⟩ := hl
  refine .ok ⟨cs.filter fun c => !w.allows c, fun c hc => ?_, ?_, ?_⟩
  · simpa using (List.mem_filter.1 hc).2
  · rw [List.filter_map, List.map_map]
    rfl
  · rw [List.filter_map, List.map_map]
    rfl

/-! ## Questions about a hierarchy -/

namespace Alias

variable {s s' : Store S}

/-- A question about a pair of links, of which an entity may not have one alone. -/
theorem pair (h : Alias N N' s s') (e : Entity) (c d : Component S) {f : Bool → Bool → Fault}
    (hf : ∀ a b, (f a b).Plain) :
    Corresponds (Fault.Renamed K N N') Eq
      (if e.isNull then pure false else do
        let a ← s.has e c
        let b ← s.has e d
        if a = b then pure a else throw (f a b))
      (if e.isNull then pure false else do
        let a ← s'.has e c
        let b ← s'.has e d
        if a = b then pure a else throw (f a b)) := by
  split
  · exact .ok rfl
  · refine (h.has e c).seq fun a => (h.has e d).seq fun b => ?_
    split
    · exact .ok rfl
    · exact .error (.plain (hf a b))

/-- A question about a single link, with an answer for the null handle. -/
theorem single (h : Alias N N' s s') (e : Entity) (c : Component S) (a : α)
    (f : Option c.Value → α) :
    Corresponds (Fault.Renamed K N N') Eq
      (if e.isNull then pure a else do
        let v ← s.get? e c
        pure (f v))
      (if e.isNull then pure a else do
        let v ← s'.get? e c
        pure (f v)) := by
  split
  · exact .ok rfl
  · exact (h.get? e c).seq fun _ => .ok rfl

theorem isChild (h : Alias N N' s s') (e : Entity) :
    Corresponds (Fault.Renamed K N N') Eq (s.isChild t e) (s'.isChild t e) :=
  h.pair e (.parentLink t) (.siblingLinks t) fun _ _ => trivial

theorem isParent (h : Alias N N' s s') (e : Entity) :
    Corresponds (Fault.Renamed K N N') Eq (s.isParent t e) (s'.isParent t e) :=
  h.pair e (.firstChild t) (.childCount t) fun _ _ => trivial

theorem parentOf? (h : Alias N N' s s') (e : Entity) :
    Corresponds (Fault.Renamed K N N') Eq (s.parentOf? t e) (s'.parentOf? t e) :=
  h.single e (.parentLink t) _ _

theorem firstChildOf? (h : Alias N N' s s') (e : Entity) :
    Corresponds (Fault.Renamed K N N') Eq (s.firstChildOf? t e) (s'.firstChildOf? t e) :=
  h.single e (.firstChild t) _ _

theorem childCount (h : Alias N N' s s') (e : Entity) :
    Corresponds (Fault.Renamed K N N') Eq (s.childCount t e) (s'.childCount t e) :=
  h.single e (.childCount t) _ _

theorem isChildOf (h : Alias N N' s s') (parent child : Entity) :
    Corresponds (Fault.Renamed K N N') Eq (s.isChildOf t parent child)
      (s'.isChildOf t parent child) :=
  (h.parentOf? child).seq fun _ => .ok rfl

theorem chainReaches (h : Alias N N' s s') (target : Entity) (n : Nat) (passed : List Entity)
    (o : Option Entity) :
    Corresponds (Fault.Renamed K N N') Eq (s.chainReaches t target n passed o)
      (s'.chainReaches t target n passed o) := by
  induction n generalizing passed o with
  | zero =>
    cases o with
    | none => exact .ok rfl
    | some node => exact .ok rfl
  | succ n ih =>
    cases o with
    | none => exact .ok rfl
    | some node =>
      simp only [Store.chainReaches, h.valid]
      split_ifs
      · exact .ok rfl
      · exact .ok rfl
      · exact (h.parentOf? node).seq fun parent => ih (node :: passed) parent

theorem isAncestorOf (h : Alias N N' s s') (ancestor e : Entity) :
    Corresponds (Fault.Renamed K N N') Eq (s.isAncestorOf t ancestor e)
      (s'.isAncestorOf t ancestor e) := by
  have hcount : s.slotCount = s'.slotCount := by rw [slotCount, h.allocator, slotCount]
  rw [Store.isAncestorOf, hcount]
  exact (h.parentOf? e).seq fun parent => h.chainReaches ancestor s'.slotCount [] parent

theorem hasEdge (h : Alias N N' s s') (parent child : Entity) :
    Corresponds (Fault.Renamed K N N') Eq (s.hasEdge t parent child)
      (s'.hasEdge t parent child) := by
  unfold Store.hasEdge
  split
  · exact .ok rfl
  · refine (h.isParent parent).seq fun linked => ?_
    cases linked with
    | true => exact h.isChildOf parent child
    | false => exact .ok rfl

theorem examineChild (h : Alias N N' s s') (parent prev child : Entity) :
    s.examineChild t parent prev child = s'.examineChild t parent prev child := by
  rw [Store.examineChild, h.lookup?, h.lookup?, Store.examineChild]

theorem examineFrom (h : Alias N N' s s') (parent : Entity) (n : Nat) (met : Array Bool)
    (prev child : Entity) :
    s.examineFrom t parent n met prev child = s'.examineFrom t parent n met prev child := by
  induction n generalizing met prev child with
  | zero => simp only [Store.examineFrom, h.valid]
  | succ n ih => simp only [Store.examineFrom, h.valid, h.examineChild, ih]

theorem examine (h : Alias N N' s s') (parent : Entity) :
    s.examine t parent = s'.examine t parent := by
  have hslots : s.slotCount = s'.slotCount := by rw [slotCount, h.allocator, slotCount]
  simp only [Store.examine, h.valid, h.carries, h.lookup?, hslots, h.examineFrom]

/-! ### Lists of children -/

theorem children (h : Alias N N' s s') (parent : Entity) :
    Corresponds (Fault.Renamed (OfTag t) N N') Eq (s.children t parent) (s'.children t parent) :=
  (h.firstChildOf? parent).seq fun _ => (h.childCount parent).seq fun _ => .ok rfl

theorem nextChild (h : Alias N N' s s') (w : Children) :
    Corresponds (Fault.Renamed (OfTag t) N N') Eq (s.nextChild t w) (s'.nextChild t w) := by
  unfold Store.nextChild
  split
  · exact .ok rfl
  · exact (h.get ofTag_siblingLinks w.next).seq fun _ => .ok rfl

theorem listFrom (h : Alias N N' s s') (parent : Entity) (n : Nat) (w : Children) :
    Corresponds (Fault.Renamed (OfTag t) N N') Eq (s.listFrom t parent n w)
      (s'.listFrom t parent n w) := by
  induction n generalizing w with
  | zero => exact .error (.plain trivial)
  | succ n ih =>
    refine (h.nextChild w).seq fun next => ?_
    obtain ⟨_ | child, w'⟩ := next
    · exact .ok rfl
    · exact (ih w').seq fun _ => .ok rfl

theorem listBound (h : Alias N N' s s') : s.listBound t = s'.listBound t := by
  rw [Store.listBound, h.pool?, Store.listBound]

theorem listChildren (h : Alias N N' s s') (parent : Entity) :
    Corresponds (Fault.Renamed (OfTag t) N N') Eq (s.listChildren t parent)
      (s'.listChildren t parent) := by
  refine (h.children parent).seq fun w => ?_
  rw [h.listBound]
  exact h.listFrom parent _ w

theorem comesFrom (h : Alias N N' s s') (parent candidate : Entity) (n : Nat) (w : Children) :
    Corresponds (Fault.Renamed (OfTag t) N N') Eq (s.comesFrom t parent candidate n w)
      (s'.comesFrom t parent candidate n w) := by
  induction n generalizing w with
  | zero => exact .error (.plain trivial)
  | succ n ih =>
    refine (h.nextChild w).seq fun next => ?_
    obtain ⟨_ | child, w'⟩ := next
    · exact .ok rfl
    · show Corresponds _ _ (if child = candidate then _ else _) (if child = candidate then _ else _)
      split
      · exact .ok rfl
      · exact ih w'

theorem hasChild (h : Alias N N' s s') (parent candidate : Entity) :
    Corresponds (Fault.Renamed (OfTag t) N N') Eq (s.hasChild t parent candidate)
      (s'.hasChild t parent candidate) := by
  unfold Store.hasChild
  split
  · exact .ok rfl
  · refine (h.children parent).seq fun w => ?_
    rw [h.listBound]
    exact h.comesFrom parent candidate _ w

theorem stepChildren (h : Alias N N' s s') (n : Nat) (w : Children) :
    Corresponds (Fault.Renamed (OfTag t) N N') Eq (s.stepChildren t n w)
      (s'.stepChildren t n w) := by
  induction n generalizing w with
  | zero => exact .ok rfl
  | succ n ih => exact (h.nextChild w).seq fun next => (ih next.2).seq fun _ => .ok rfl

theorem successor (h : Alias N N' s s') (parent child : Entity) :
    Corresponds (Fault.Renamed (OfTag t) N N') Eq (s.successor t parent child)
      (s'.successor t parent child) := by
  refine (h.isChildOf parent child).seq fun linked => ?_
  cases linked with
  | true => exact (h.get ofTag_siblingLinks child).seq fun _ => .ok rfl
  | false => exact .error (.plain trivial)

theorem ask (h : Alias N N' s s') (q : Question) :
    Corresponds (Fault.Renamed (OfTag t) N N') Eq (q.ask s t) (q.ask s' t) := by
  cases q with
  | isChild e => exact h.isChild e
  | isParent e => exact h.isParent e
  | parentOf? e => exact h.parentOf? e
  | firstChildOf? e => exact h.firstChildOf? e
  | childCount e => exact h.childCount e
  | isChildOf parent child => exact h.isChildOf parent child
  | hasChild parent candidate => exact h.hasChild parent candidate
  | isAncestorOf ancestor e => exact h.isAncestorOf ancestor e
  | listChildren parent => exact h.listChildren parent
  | stepChildren parent n =>
    exact (h.children parent).seq fun w => (h.stepChildren n w).seq fun _ => .ok rfl
  | examine parent => exact .ok (h.examine parent)


end Alias

open EntityStore.Action

/-! ## Operations on single components -/

section Components

variable {E : ε → ε' → Prop} {c : Component S}

theorem parallel_ensurePool (c : Component S) :
    Parallel N N' E Eq (ensurePool c : Action (Store S) ε Unit)
      (ensurePool c : Action (Store S) ε' Unit) := by
  intro s s' h
  obtain ⟨hresult, hstate⟩ := run_ensurePool (ε := ε) s c
  obtain ⟨hresult', hstate'⟩ := run_ensurePool (ε := ε') s' c
  rw [hresult, hresult', hstate, hstate', h.contains]
  refine ⟨.ok rfl, ?_⟩
  split
  · exact h
  · exact h.withPool c

theorem parallel_reportEviction (e : Entity) (c : Component S) :
    Parallel N N' E Eq (reportEviction e c : Action (Store S) ε Unit)
      (reportEviction e c : Action (Store S) ε' Unit) := by
  refine parallel_state.bind fun s s' h => ?_
  rw [h.pool?]
  cases (s'.pool? c).bind (·.evictee? e) with
  | some stale => exact parallel_report _ _
  | none => exact parallel_pure rfl

/-- An edit of a pool makes no pool. -/
theorem parallel_editPool (c : Component S) (g : Pool c.Value → Pool c.Value) :
    Parallel N N' E Eq (modify (·.editPool c g) : Action (Store S) ε Unit)
      (modify (·.editPool c g) : Action (Store S) ε' Unit) :=
  parallel_modify (fun _ _ => rfl) fun s d hd => by
    rwa [editPool, Table.contains_modify] at hd

theorem parallel_put (e : Entity) (c : Component S) (v : c.Value) :
    Parallel N N' E Eq (put e c v : Action (Store S) ε Unit)
      (put e c v : Action (Store S) ε' Unit) :=
  (parallel_ensurePool c).seq fun _ => (parallel_reportEviction e c).seq fun _ =>
    parallel_editPool c (·.insert e v)

theorem parallel_tryAttach (hc : K c) (e : Entity) (v : c.Value) :
    Parallel N N' (StoreError.Renamed K N N') Eq (tryAttach e c v) (tryAttach e c v) := by
  -- The refusal is made of the state that was read first, and so shows the name of its own side.
  refine parallel_state.bind fun s s' h => (parallel_query fun _ _ h => h.check e).seq fun _ => ?_
  rw [h.carries, h.named.nameOf, h.named'.nameOf]
  exact (parallel_require rfl (.duplicate e hc)).seq fun _ => (parallel_put e c v).seq fun _ =>
    parallel_pure rfl

theorem nameless_attach (hc : K c) (e : Entity) (v : c.Value) : Nameless K (attach e c v) :=
  fun _ _ => (parallel_tryAttach hc e v).mapError fun _ _ => .refused

theorem nameless_attachOrReplace (e : Entity) (c : Component S) (v : c.Value) :
    Nameless K (attachOrReplace e c v) :=
  fun _ _ => (parallel_query fun _ _ h => h.assertValid e).seq fun _ =>
    (parallel_put e c v).seq fun _ => parallel_pure rfl

/-- What a closure makes, or why it fails, is the same on both sides. -/
theorem parallel_make {α : Type} {E : Fault → Fault → Prop} {make : Unit → Except Fault α}
    (hmake : ∀ f, make () = .error f → E f f) :
    Parallel N N' E Eq (query fun _ => make () : Action (Store S) Fault α)
      (query fun _ => make () : Action (Store S) Fault α) := by
  refine parallel_query fun _ _ _ => ?_
  cases hv : make () with
  | ok v => exact .ok rfl
  | error f => exact .error (hmake f hv)

/-- Apart from the failure of the closure, the two sides differ in names only. -/
theorem parallel_getOrAttach {E : Fault → Fault → Prop} (e : Entity) (c : Component S)
    {make : Unit → Except Fault c.Value} (hE : ∀ f f', Fault.Renamed K N N' f f' → E f f')
    (hmake : ∀ f, make () = .error f → E f f) :
    Parallel N N' E Eq (getOrAttach e c make) (getOrAttach e c make) := by
  have hvalid (s s' : Store S) (h : Alias N N' s s') :
      Corresponds E Eq (s.assertValid e) (s'.assertValid e) :=
    (h.assertValid e).imp hE fun _ _ => id
  refine (parallel_query hvalid).seq fun _ => (parallel_ensurePool c).seq fun _ =>
    parallel_state.bind fun s s' h => ?_
  rw [h.lookup?]
  cases s'.lookup? e c with
  | some old => exact parallel_pure rfl
  | none =>
    exact (parallel_make hmake).seq fun v => (parallel_put e c v).seq fun _ => parallel_pure rfl

theorem parallel_tryUpdate (hc : K c) (e : Entity) (f : c.Value → c.Value) :
    Parallel N N' (StoreError.Renamed K N N') Eq (tryUpdate e c f) (tryUpdate e c f) :=
  (parallel_query fun _ _ h => h.fetch hc e).seq fun _ =>
    (parallel_editPool c (·.modify e f)).seq fun _ => parallel_pure rfl

theorem nameless_update (hc : K c) (e : Entity) (f : c.Value → c.Value) :
    Nameless K (update e c f) :=
  fun _ _ => (parallel_tryUpdate hc e f).mapError fun _ _ => .refused

theorem nameless_update? (e : Entity) (c : Component S) (f : c.Value → c.Value) :
    Nameless K (update? e c f) :=
  fun _ _ => (parallel_query fun _ _ h => h.get? e c).seq fun _ =>
    (parallel_editPool c (·.modify e f)).seq fun _ => parallel_pure rfl

theorem nameless_updateAll (c : Component S) (f : Entity → c.Value → c.Value) :
    Nameless K (updateAll c f) :=
  fun _ _ => parallel_modifyGet (fun _ _ => rfl) (fun _ _ => rfl) fun s d hd => by
    rwa [Table.contains_modify] at hd

theorem parallel_tryDetach (hc : K c) (e : Entity) :
    Parallel N N' (StoreError.Renamed K N N') Eq (tryDetach e c) (tryDetach e c) :=
  (parallel_query fun _ _ h => h.fetch hc e).seq fun _ =>
    (parallel_editPool c (·.erase e)).seq fun _ => parallel_pure rfl

theorem nameless_detach (hc : K c) (e : Entity) : Nameless K (detach e c) :=
  fun _ _ => (parallel_tryDetach hc e).mapError fun _ _ => .refused

theorem nameless_detach? (e : Entity) (c : Component S) : Nameless K (detach? e c) :=
  fun _ _ => (parallel_query fun _ _ h => h.get? e c).seq fun _ =>
    (parallel_editPool c (·.erase e)).seq fun _ => parallel_pure rfl

end Components

/-! ## Operations on entities -/

theorem nameless_create : Nameless K (create : Action (Store S) Fault Entity) := by
  intro N N' s s' h
  rw [run_create, run_create, h.allocator]
  refine ⟨?_, rfl, h.pools, h.context, h.named.of_catalog rfl fun _ => id,
    h.named'.of_catalog rfl fun _ => id⟩
  cases s'.allocator.allocate.1 with
  | some e => exact .ok rfl
  | none => exact .error (.plain trivial)

theorem parallel_tryDestroy (e : Entity) :
    Parallel N N' (StoreError.Renamed K N N') Eq (tryDestroy (S := S) e) (tryDestroy e) := by
  refine (parallel_query fun _ _ h => h.check e).seq fun _ => Parallel.seq ?_ fun _ =>
    parallel_report _ _
  exact parallel_modifyGet (fun _ _ => rfl) (fun _ _ => rfl) fun s c hc => by
    rwa [Table.contains_map] at hc

theorem nameless_destroy (e : Entity) : Nameless K (destroy (S := S) e) :=
  fun _ _ => (parallel_tryDestroy e).mapError fun _ _ => .refused

/-! ## The context -/

section Context

variable {E : ε → ε' → Prop}

theorem parallel_setContext (c : Component S) (name : String) (v : c.Value) :
    Parallel N N' E Eq (setContext c name v : Action (Store S) ε c.Value)
      (setContext c name v : Action (Store S) ε' c.Value) := by
  have hset : Parallel N N' E Eq (do
      Action.modify fun s => { s with context := s.context.insert c ⟨name, v⟩ }
      pure v : Action (Store S) ε c.Value) (do
      Action.modify fun s => { s with context := s.context.insert c ⟨name, v⟩ }
      pure v : Action (Store S) ε' c.Value) :=
    Parallel.seq (parallel_modify (fun _ _ => rfl) fun _ _ => id) fun _ => parallel_pure rfl
  refine parallel_state.bind fun s s' h => ?_
  rw [h.context]
  split
  · exact (parallel_report _ _).seq fun _ => hset
  · exact hset

theorem parallel_updateContext? (c : Component S) (f : c.Value → c.Value) :
    Parallel N N' E Eq (updateContext? c f : Action (Store S) ε (Option c.Value))
      (updateContext? c f : Action (Store S) ε' (Option c.Value)) :=
  parallel_modifyGet (fun _ _ => rfl) (fun _ _ => rfl) fun _ _ => id

theorem nameless_updateContext (c : Component S) (f : c.Value → c.Value) :
    Nameless K (updateContext c f) := by
  refine Nameless.bind (fun _ _ => parallel_updateContext? c f) fun o => ?_
  cases o with
  | some v => exact nameless_pure v
  | none => exact fun _ _ => parallel_fail (.refused (.missingContext _))

theorem parallel_getOrSetContext {E : Fault → Fault → Prop} (c : Component S) (name : String)
    {make : Unit → Except Fault c.Value} (hmake : ∀ f, make () = .error f → E f f) :
    Parallel N N' E Eq (getOrSetContext c name make) (getOrSetContext c name make) := by
  refine parallel_state.bind fun s s' h => ?_
  rw [contextValue?, h.context, ← contextValue?]
  cases s'.contextValue? c with
  | some old => exact parallel_pure rfl
  | none =>
    exact (parallel_make hmake).seq fun v =>
      Parallel.seq (parallel_modify (fun _ _ => rfl) fun _ _ => id) fun _ => parallel_pure rfl

theorem parallel_removeContext (c : Component S) :
    Parallel N N' E Eq (removeContext c : Action (Store S) ε (Option c.Value))
      (removeContext c : Action (Store S) ε' (Option c.Value)) :=
  parallel_modifyGet (fun _ _ => rfl) (fun _ _ => rfl) fun _ _ => id

end Context

/-! ## Construction -/

theorem nameless_beginConstruction (e : Entity) : Nameless K (beginConstruction (S := S) e) :=
  (nameless_attachOrReplace e _ _).bind fun _ => (nameless_detach? e _).bind fun _ =>
    nameless_pure ()

theorem nameless_finishConstruction (e : Entity) : Nameless K (finishConstruction (S := S) e) := by
  refine (nameless_detach? e _).bind fun o => ?_
  cases o with
  | none => exact nameless_pure false
  | some _ => exact (nameless_attachOrReplace e _ _).bind fun _ => nameless_pure true

theorem nameless_detachEach {c : Component S} (hc : K c) (es : List Entity) :
    Nameless K (detachEach c es) := by
  induction es with
  | nil => exact nameless_pure ()
  | cons e es ih => exact (nameless_detach hc e).bind fun _ => ih

theorem nameless_clearFinished (hc : K (.mark .finished)) :
    Nameless K (clearFinished (S := S)) := by
  refine nameless_state_bind (fun _ _ => rfl) fun s => (nameless_detachEach hc _).bind fun _ => ?_
  split
  · exact nameless_pure _
  · exact Nameless.bind (fun _ _ => parallel_report _ _) fun _ => nameless_pure _

/-! ## Whitelists -/

/-- Whether an entity is let through does not depend on names, and otherwise the names that are
listed are those of the same components. -/
theorem parallel_checkWhitelist (e : Entity) (w : Whitelist S) :
    Parallel N N' (Fault.Renamed K N N')
      (Corresponds (StoreError.Renamed (fun c => w.allows c = false) N N') Eq)
      (checkWhitelist e w) (checkWhitelist e w) := by
  refine (parallel_query fun _ _ h => h.strays e w).bind fun l l' hl => ?_
  obtain ⟨cs, hcs, rfl, rfl⟩ := hl
  refine (parallel_reportAll _ _).seq fun _ => ?_
  cases cs with
  | nil => exact parallel_pure (.ok rfl)
  | cons c cs => exact parallel_pure (.error (.unexpected e hcs))

/-! ## Edits of a hierarchy -/

theorem nameless_linkBefore (t : S.Tag) (child : Entity) (o : Option Entity) :
    Nameless (OfTag t) (linkBefore t child o) := by
  cases o with
  | none => exact nameless_pure ()
  | some head =>
    exact (nameless_query fun _ _ _ _ h => h.get ofTag_siblingLinks head).bind fun _ =>
      nameless_require trivial <| (nameless_update ofTag_siblingLinks head _).bind
        fun _ => nameless_pure ()

theorem nameless_countUp (t : S.Tag) (parent : Entity) : Nameless (OfTag t) (countUp t parent) :=
  Nameless.bind (fun _ _ => parallel_getOrAttach parent _ (fun _ _ => id) nofun) fun _ =>
    nameless_require trivial <| (nameless_update ofTag_childCount parent _).bind
      fun _ => nameless_pure ()

theorem nameless_prependChild (t : S.Tag) (parent child : Entity) :
    Nameless (OfTag t) (prependChild t parent child) := by
  have hlink : Nameless (OfTag t) (do
      let above ← Action.query (·.isAncestorOf t child parent)
      Action.require (!above) (.wouldCycle child parent)
      let oldFirst ← Action.query (·.firstChildOf? t parent)
      linkBefore t child oldFirst
      let _ ← Store.attach child (.parentLink t) (⟨parent⟩ : ParentLink)
      let _ ← Store.attach child (.siblingLinks t) ({ next := oldFirst.getD .null } : SiblingLinks)
      let _ ← Store.attachOrReplace parent (.firstChild t) (⟨child⟩ : FirstChild)
      countUp t parent : Action (Store S) Fault Unit) :=
    (nameless_query fun _ _ _ _ h => h.isAncestorOf child parent).bind fun _ =>
      nameless_require trivial <|
      (nameless_query fun _ _ _ _ h => h.firstChildOf? parent).bind fun _ =>
      (nameless_linkBefore t child _).bind fun _ =>
      (nameless_attach ofTag_parentLink child _).bind fun _ =>
      (nameless_attach ofTag_siblingLinks child _).bind fun _ =>
      (nameless_attachOrReplace parent _ _).bind fun _ => nameless_countUp t parent
  refine nameless_state_bind (fun _ _ => rfl) fun s => ?_
  refine nameless_require trivial <| nameless_require trivial <|
    nameless_require trivial <|
    (nameless_query fun _ _ _ _ h => h.isChild child).bind fun linked => ?_
  split
  · exact (nameless_query fun _ _ _ _ h => h.parentOf? child).bind fun _ =>
      Nameless.bind (fun _ _ => parallel_fail (.plain trivial)) fun _ => hlink
  · exact hlink

theorem nameless_closeBefore (t : S.Tag) (parent child : Entity) (links : SiblingLinks) :
    Nameless (OfTag t) (closeBefore t parent child links) := by
  unfold closeBefore
  split
  · exact (nameless_query fun _ _ _ _ h => h.firstChildOf? parent).bind fun _ =>
      nameless_require trivial <| (nameless_update ofTag_firstChild parent _).bind
        fun _ => nameless_pure ()
  · exact (nameless_update ofTag_siblingLinks _ _).bind fun _ => nameless_pure ()

theorem nameless_closeAfter (t : S.Tag) (links : SiblingLinks) :
    Nameless (OfTag t) (closeAfter t links) := by
  unfold closeAfter
  split
  · exact nameless_pure ()
  · exact (nameless_update ofTag_siblingLinks _ _).bind fun _ => nameless_pure ()

theorem nameless_countDown (t : S.Tag) (parent : Entity) :
    Nameless (OfTag t) (countDown t parent) := by
  refine (nameless_query fun _ _ _ _ h => h.get ofTag_childCount parent).bind fun _ =>
    nameless_require trivial <| (nameless_update ofTag_childCount parent _).bind
      fun _ => ?_
  split
  · exact (nameless_query fun _ _ _ _ h => h.get ofTag_firstChild parent).bind fun _ =>
      nameless_require trivial <| (nameless_detach ofTag_firstChild parent).bind
        fun _ => (nameless_detach ofTag_childCount parent).bind fun _ => nameless_pure ()
  · exact nameless_pure ()

theorem nameless_dropChildLinks (t : S.Tag) (child : Entity) :
    Nameless (OfTag t) (dropChildLinks t child) :=
  (nameless_detach ofTag_parentLink child).bind fun _ =>
    (nameless_detach ofTag_siblingLinks child).bind fun _ => nameless_pure ()

theorem nameless_removeChild (t : S.Tag) (parent child : Entity) :
    Nameless (OfTag t) (removeChild t parent child) := by
  refine (nameless_query fun _ _ _ _ h => h.hasEdge parent child).bind fun _ => ?_
  split
  · exact (nameless_query fun _ _ _ _ h => h.get ofTag_siblingLinks child).bind fun links =>
      (nameless_closeBefore t parent child links).bind fun _ =>
      (nameless_closeAfter t links).bind fun _ => (nameless_countDown t parent).bind fun _ =>
      (nameless_dropChildLinks t child).bind fun _ => nameless_pure true
  · exact nameless_pure false

theorem nameless_detachChild (t : S.Tag) (child : Entity) :
    Nameless (OfTag t) (detachChild t child) := by
  refine (nameless_query fun _ _ _ _ h => h.parentOf? child).bind fun o => ?_
  cases o with
  | some parent => exact nameless_removeChild t parent child
  | none => exact nameless_pure false

theorem nameless_dropEach (t : S.Tag) (parent : Entity) (kids : List Entity) :
    Nameless (OfTag t) (dropEach t parent kids) := by
  induction kids with
  | nil => exact nameless_pure ()
  | cons kid kids ih =>
    exact (nameless_query fun _ _ _ _ h => h.isChildOf parent kid).bind fun _ =>
      nameless_require trivial <| (nameless_dropChildLinks t kid).bind fun _ => ih

theorem nameless_clearChildren (t : S.Tag) (parent : Entity) :
    Nameless (OfTag t) (clearChildren t parent) :=
  (nameless_query fun _ _ _ _ h => h.listChildren parent).bind fun kids =>
    (nameless_query fun _ _ _ _ h => h.childCount parent).bind fun _ =>
    nameless_require trivial <| (nameless_dropEach t parent kids).bind fun _ =>
    (nameless_detach ofTag_firstChild parent).bind fun _ =>
    (nameless_detach ofTag_childCount parent).bind fun _ => nameless_pure _

theorem nameless_clearEach (t : S.Tag) (parents : List Entity) :
    Nameless (OfTag t) (clearEach t parents) := by
  induction parents with
  | nil => exact nameless_pure 0
  | cons parent parents ih =>
    exact (nameless_clearChildren t parent).bind fun _ => ih.bind fun _ => nameless_pure _

theorem nameless_clearSelection (t : S.Tag) (sel : Selector S) :
    Nameless (OfTag t) (clearSelection t sel) :=
  nameless_state_bind (fun _ _ => rfl) fun _ => (nameless_clearEach t _).bind fun _ =>
    Nameless.bind (fun _ _ => parallel_report _ _) fun _ => nameless_pure _

end Store

end EntityStore
