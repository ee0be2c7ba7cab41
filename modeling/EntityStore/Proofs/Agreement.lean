import EntityStore.Hierarchy.Edit
import EntityStore.Hierarchy.Examine
import EntityStore.Hierarchy.Visit
import EntityStore.Proofs.Links
import EntityStore.Proofs.Selection

/-!
# Stores that agree on some components

Two stores agree on some components (`Store.Agree`) when they have the same slots, and the same
pools and display names of these components.  Of other components and of the context nothing is
said, and nothing of the order in which the pools were created.

A question that looks at some components only has the same answer on stores that agree on them.  A
question about a hierarchy looks at the four links of its tag (`OfTag`), and a selection at the
components that its selector mentions.
-/

namespace EntityStore

variable {S : Schema}

/-- The component is a link of a hierarchy. -/
def OfTag (t : S.Tag) (c : Component S) : Prop := c.tag? = some t

section OfTag

variable {t : S.Tag}

theorem ofTag_parentLink : OfTag t (.parentLink t : Component S) := rfl

theorem ofTag_siblingLinks : OfTag t (.siblingLinks t : Component S) := rfl

theorem ofTag_firstChild : OfTag t (.firstChild t : Component S) := rfl

theorem ofTag_childCount : OfTag t (.childCount t : Component S) := rfl

end OfTag

namespace Store

variable {K L : Component S → Prop} {s s' s'' : Store S} {c : Component S} {t : S.Tag}

/-- Two stores have the same slots, and the same pools and names of some components. -/
structure Agree (K : Component S → Prop) (s s' : Store S) : Prop where
  /-- The slots are the same. -/
  allocator : s.allocator = s'.allocator
  /-- The pools are the same, owners in the same order. -/
  pool : ∀ c, K c → s.pool? c = s'.pool? c
  /-- The names in messages are the same. -/
  name : ∀ c, K c → s.catalog.nameOf c = s'.catalog.nameOf c

namespace Agree

theorem refl (s : Store S) : s.Agree K s := ⟨rfl, fun _ _ => rfl, fun _ _ => rfl⟩

theorem symm (h : s.Agree K s') : s'.Agree K s :=
  ⟨h.allocator.symm, fun c hc => (h.pool c hc).symm, fun c hc => (h.name c hc).symm⟩

theorem trans (h : s.Agree K s') (h' : s'.Agree K s'') : s.Agree K s'' where
  allocator := h.allocator.trans h'.allocator
  pool c hc := (h.pool c hc).trans (h'.pool c hc)
  name c hc := (h.name c hc).trans (h'.name c hc)

theorem mono (h : s.Agree K s') (hLK : ∀ c, L c → K c) : s.Agree L s' where
  allocator := h.allocator
  pool c hc := h.pool c (hLK c hc)
  name c hc := h.name c (hLK c hc)

/-- Stores that agree on some components and on all others agree on any. -/
theorem of_split (h : s.Agree L s') (h' : s.Agree (fun c => K c ∧ ¬ L c) s') : s.Agree K s' where
  allocator := h.allocator
  pool c hc := by
    by_cases hL : L c
    · exact h.pool c hL
    · exact h'.pool c ⟨hc, hL⟩
  name c hc := by
    by_cases hL : L c
    · exact h.name c hL
    · exact h'.name c ⟨hc, hL⟩

/-! ## Questions about entities and components -/

theorem valid (h : s.Agree K s') (e : Entity) : s.valid e = s'.valid e := by
  rw [Store.valid, h.allocator, Store.valid]

theorem slotCount (h : s.Agree K s') : s.slotCount = s'.slotCount := by
  rw [Store.slotCount, h.allocator, Store.slotCount]

theorem entities (h : s.Agree K s') : s.entities = s'.entities := by
  rw [Store.entities, h.allocator, Store.entities]

theorem check (h : s.Agree K s') (e : Entity) : s.check e = s'.check e := by
  rw [Store.check, h.valid, Store.check]

theorem assertValid (h : s.Agree K s') (e : Entity) : s.assertValid e = s'.assertValid e := by
  rw [Store.assertValid, h.check, Store.assertValid]

theorem contains (h : s.Agree K s') (hc : K c) : s.pools.contains c = s'.pools.contains c :=
  congrArg Option.isSome (h.pool c hc)

theorem carries (h : s.Agree K s') (hc : K c) (e : Entity) : s.carries e c = s'.carries e c := by
  rw [Store.carries, h.pool c hc, Store.carries]

theorem lookup? (h : s.Agree K s') (hc : K c) (e : Entity) : s.lookup? e c = s'.lookup? e c := by
  rw [Store.lookup?, h.pool c hc, Store.lookup?]

theorem has (h : s.Agree K s') (hc : K c) (e : Entity) : s.has e c = s'.has e c := by
  rw [Store.has, h.assertValid, h.carries hc, Store.has]

theorem get? (h : s.Agree K s') (hc : K c) (e : Entity) : s.get? e c = s'.get? e c := by
  rw [Store.get?, h.assertValid, h.lookup? hc, Store.get?]

theorem fetch (h : s.Agree K s') (hc : K c) (e : Entity) : s.fetch e c = s'.fetch e c := by
  rw [Store.fetch, h.check, h.lookup? hc, lacks, h.name c hc, Store.fetch, lacks]

theorem get (h : s.Agree K s') (hc : K c) (e : Entity) : s.get e c = s'.get e c := by
  rw [Store.get, h.fetch hc, Store.get]

/-! ## Selections -/

theorem passes {sel : Selector S} (h : s.Agree K s') (hrequired : ∀ c ∈ sel.required, K c)
    (hrejected : ∀ c ∈ sel.rejected, K c) (e : Entity) : s.passes sel e = s'.passes sel e := by
  rw [Bool.eq_iff_iff, passes_iff, passes_iff, h.valid]
  refine and_congr_right fun _ => and_congr ?_ ?_
  · exact forall₂_congr fun c hc => by rw [h.carries (hrequired c hc)]
  · exact forall₂_congr fun c hc => by rw [h.carries (hrejected c hc)]

theorem owners (h : s.Agree K s') {cs : List (Component S)} (hcs : ∀ c ∈ cs, K c) :
    cs.mapM (fun c => (s.pool? c).map (·.owners)) =
      cs.mapM fun c => (s'.pool? c).map (·.owners) := by
  induction cs with
  | nil => rfl
  | cons c cs ih =>
    rw [List.mapM_cons, List.mapM_cons, h.pool c (hcs c List.mem_cons_self),
      ih fun d hd => hcs d (List.mem_cons_of_mem c hd)]

/-- A selection looks at the components that its selector mentions. -/
theorem select {sel : Selector S} (h : s.Agree K s') (hrequired : ∀ c ∈ sel.required, K c)
    (hrejected : ∀ c ∈ sel.rejected, K c) : s.select sel = s'.select sel := by
  have hcandidates : s.candidates sel = s'.candidates sel := by
    rw [Store.candidates, h.owners hrequired, h.entities, Store.candidates]
  rw [Store.select, hcandidates, funext (h.passes hrequired hrejected), Store.select]

/-! ## Questions about a hierarchy -/

theorem isChild (h : s.Agree (OfTag t) s') (e : Entity) : s.isChild t e = s'.isChild t e := by
  rw [Store.isChild, h.has ofTag_parentLink, h.has ofTag_siblingLinks, Store.isChild]

theorem isParent (h : s.Agree (OfTag t) s') (e : Entity) : s.isParent t e = s'.isParent t e := by
  rw [Store.isParent, h.has ofTag_firstChild, h.has ofTag_childCount, Store.isParent]

theorem parentOf? (h : s.Agree (OfTag t) s') (e : Entity) :
    s.parentOf? t e = s'.parentOf? t e := by
  rw [Store.parentOf?, h.get? ofTag_parentLink, Store.parentOf?]

theorem firstChildOf? (h : s.Agree (OfTag t) s') (e : Entity) :
    s.firstChildOf? t e = s'.firstChildOf? t e := by
  rw [Store.firstChildOf?, h.get? ofTag_firstChild, Store.firstChildOf?]

theorem childCount (h : s.Agree (OfTag t) s') (e : Entity) :
    s.childCount t e = s'.childCount t e := by
  rw [Store.childCount, h.get? ofTag_childCount, Store.childCount]

theorem isChildOf (h : s.Agree (OfTag t) s') (parent child : Entity) :
    s.isChildOf t parent child = s'.isChildOf t parent child := by
  rw [Store.isChildOf, h.parentOf?, Store.isChildOf]

theorem chainReaches (h : s.Agree (OfTag t) s') (target : Entity) (n : Nat)
    (passed : List Entity) (o : Option Entity) :
    s.chainReaches t target n passed o = s'.chainReaches t target n passed o := by
  induction n generalizing passed o with
  | zero =>
    cases o with
    | none => rfl
    | some node => rfl
  | succ n ih =>
    cases o with
    | none => rfl
    | some node => simp only [Store.chainReaches, h.valid, h.parentOf?, ih]

theorem isAncestorOf (h : s.Agree (OfTag t) s') (ancestor e : Entity) :
    s.isAncestorOf t ancestor e = s'.isAncestorOf t ancestor e := by
  simp only [Store.isAncestorOf, h.parentOf?, h.slotCount, h.chainReaches]

theorem children (h : s.Agree (OfTag t) s') (parent : Entity) :
    s.children t parent = s'.children t parent := by
  simp only [Store.children, h.firstChildOf?, h.childCount]

theorem nextChild (h : s.Agree (OfTag t) s') (w : Children) :
    s.nextChild t w = s'.nextChild t w := by
  rw [Store.nextChild, h.get ofTag_siblingLinks, Store.nextChild]

theorem listBound (h : s.Agree (OfTag t) s') : s.listBound t = s'.listBound t := by
  rw [Store.listBound, h.pool _ ofTag_siblingLinks, Store.listBound]

theorem listFrom (h : s.Agree (OfTag t) s') (parent : Entity) (n : Nat) (w : Children) :
    s.listFrom t parent n w = s'.listFrom t parent n w := by
  induction n generalizing w with
  | zero => rfl
  | succ n ih => simp only [Store.listFrom, h.nextChild, ih]

theorem listChildren (h : s.Agree (OfTag t) s') (parent : Entity) :
    s.listChildren t parent = s'.listChildren t parent := by
  simp only [Store.listChildren, h.children, h.listBound, h.listFrom]

theorem comesFrom (h : s.Agree (OfTag t) s') (parent candidate : Entity) (n : Nat)
    (w : Children) : s.comesFrom t parent candidate n w = s'.comesFrom t parent candidate n w := by
  induction n generalizing w with
  | zero => rfl
  | succ n ih => simp only [Store.comesFrom, h.nextChild, ih]

theorem hasChild (h : s.Agree (OfTag t) s') (parent candidate : Entity) :
    s.hasChild t parent candidate = s'.hasChild t parent candidate := by
  simp only [Store.hasChild, h.children, h.listBound, h.comesFrom]

theorem stepChildren (h : s.Agree (OfTag t) s') (n : Nat) (w : Children) :
    s.stepChildren t n w = s'.stepChildren t n w := by
  induction n generalizing w with
  | zero => rfl
  | succ n ih => simp only [Store.stepChildren, h.nextChild, ih]

theorem hasEdge (h : s.Agree (OfTag t) s') (parent child : Entity) :
    s.hasEdge t parent child = s'.hasEdge t parent child := by
  simp only [Store.hasEdge, h.isParent, h.isChildOf]

theorem successor (h : s.Agree (OfTag t) s') (parent child : Entity) :
    s.successor t parent child = s'.successor t parent child := by
  simp only [Store.successor, h.isChildOf, h.get ofTag_siblingLinks]

theorem examineChild (h : s.Agree (OfTag t) s') (parent prev child : Entity) :
    s.examineChild t parent prev child = s'.examineChild t parent prev child := by
  rw [Store.examineChild, h.lookup? ofTag_parentLink, h.lookup? ofTag_siblingLinks,
    Store.examineChild]

theorem examineFrom (h : s.Agree (OfTag t) s') (parent : Entity) (n : Nat) (met : Array Bool)
    (prev child : Entity) :
    s.examineFrom t parent n met prev child = s'.examineFrom t parent n met prev child := by
  induction n generalizing met prev child with
  | zero => simp only [Store.examineFrom, h.valid]
  | succ n ih => simp only [Store.examineFrom, h.valid, h.examineChild, ih]

theorem examine (h : s.Agree (OfTag t) s') (parent : Entity) :
    s.examine t parent = s'.examine t parent := by
  simp only [Store.examine, h.valid, h.carries ofTag_parentLink, h.carries ofTag_siblingLinks,
    h.lookup? ofTag_firstChild, h.lookup? ofTag_childCount, h.slotCount, h.examineFrom]

end Agree

end Store

end EntityStore
