import EntityStore.Proofs.Locality

/-!
# What edits of a hierarchy are made of

`Edits t x` says that an action is put together from questions about the hierarchy of one tag and
from attachments, changes and detachments of the links of that tag.  All edits of a hierarchy are,
and so is the removal of all children of some parents.

What holds of these parts, and of two actions one after the other, holds of every edit.  So an edit
is local to the links of its tag (`Edits.local`).
-/

namespace EntityStore.Store

variable {S : Schema} {α β : Type}

/-- The action asks about the hierarchy of one tag and writes to the links of that tag, and does
nothing else. -/
inductive Edits (t : S.Tag) : {α : Type} → Action (Store S) Fault α → Prop where
  /-- It ends. -/
  | pure {α : Type} (a : α) : Edits t (pure a)
  /-- It fails. -/
  | fail {α : Type} (f : Fault) : Edits t (Action.fail f : Action (Store S) Fault α)
  /-- It asks a question about the hierarchy. -/
  | query {α : Type} {q : Store S → Except Fault α}
      (h : ∀ s s', s.Agree (OfTag t) s' → q s = q s') : Edits t (Action.query q)
  /-- It attaches a link that must not be there. -/
  | attach {c : Component S} (hc : OfTag t c) (e : Entity) (v : c.Value) : Edits t (attach e c v)
  /-- It attaches a link. -/
  | attachOrReplace {c : Component S} (hc : OfTag t c) (e : Entity) (v : c.Value) :
      Edits t (attachOrReplace e c v)
  /-- It asks for a link that is attached if it is not there. -/
  | getOrAttach {c : Component S} (hc : OfTag t c) (e : Entity)
      (make : Unit → Except Fault c.Value) : Edits t (getOrAttach e c make)
  /-- It changes a link. -/
  | update {c : Component S} (hc : OfTag t c) (e : Entity) (f : c.Value → c.Value) :
      Edits t (update e c f)
  /-- It detaches a link. -/
  | detach {c : Component S} (hc : OfTag t c) (e : Entity) : Edits t (detach e c)
  /-- It looks at what the hierarchy shows of the store, and goes on with that. -/
  | look {β : Type} {g : Store S → Action (Store S) Fault β}
      (h : ∀ s s', s.Agree (OfTag t) s' → g s = g s') (hg : ∀ s, Edits t (g s)) :
      Edits t (Action.state >>= g)
  /-- It goes on with what a first action ends with. -/
  | bind {α β : Type} {x : Action (Store S) Fault α} {f : α → Action (Store S) Fault β}
      (hx : Edits t x) (hf : ∀ a, Edits t (f a)) : Edits t (x >>= f)

variable {t : S.Tag} {x : Action (Store S) Fault α}

theorem Edits.require (b : Bool) (f : Fault) : Edits t (Action.require b f) := by
  unfold Action.require
  split
  · exact .pure ()
  · exact .fail f

/-- An edit depends on the links of its tag only, and leaves all other components alone. -/
theorem Edits.local (hx : Edits t x) : x.Local (OfTag t) := by
  induction hx with
  | pure a => exact Action.local_pure a
  | fail f => exact Action.local_fail f
  | query h => exact Action.local_query h
  | attach hc e v => exact local_attach hc e v
  | attachOrReplace hc e v => exact local_attachOrReplace hc e v
  | getOrAttach hc e make => exact local_getOrAttach hc e make
  | update hc e f => exact local_update hc e f
  | detach hc e => exact local_detach hc e
  | look h _ ih => exact Action.local_state_bind h ih
  | bind _ _ ihx ihf => exact ihx.bind ihf

/-! ## Linking -/

theorem edits_linkBefore (t : S.Tag) (child : Entity) (o : Option Entity) :
    Edits t (linkBefore t child o) := by
  cases o with
  | none => exact .pure ()
  | some head =>
    exact .bind (.query fun _ _ h => h.get ofTag_siblingLinks head) fun _ =>
      .bind (.require _ _) fun _ => .bind (.update ofTag_siblingLinks head _) fun _ => .pure ()

theorem edits_countUp (t : S.Tag) (parent : Entity) : Edits t (countUp t parent) :=
  .bind (.getOrAttach ofTag_childCount parent _) fun _ => .bind (.require _ _) fun _ =>
    .bind (.update ofTag_childCount parent _) fun _ => .pure ()

theorem edits_prependChild (t : S.Tag) (parent child : Entity) :
    Edits t (prependChild t parent child) := by
  have hlink : Edits t (do
      let above ← Action.query (·.isAncestorOf t child parent)
      Action.require (!above) (.wouldCycle child parent)
      let oldFirst ← Action.query (·.firstChildOf? t parent)
      linkBefore t child oldFirst
      let _ ← Store.attach child (.parentLink t) (⟨parent⟩ : ParentLink)
      let _ ← Store.attach child (.siblingLinks t) ({ next := oldFirst.getD .null } : SiblingLinks)
      let _ ← Store.attachOrReplace parent (.firstChild t) (⟨child⟩ : FirstChild)
      countUp t parent : Action (Store S) Fault Unit) :=
    .bind (.query fun _ _ h => h.isAncestorOf child parent) fun _ =>
      .bind (.require _ _) fun _ =>
      .bind (.query fun _ _ h => h.firstChildOf? parent) fun _ =>
      .bind (edits_linkBefore t child _) fun _ =>
      .bind (.attach ofTag_parentLink child _) fun _ =>
      .bind (.attach ofTag_siblingLinks child _) fun _ =>
      .bind (.attachOrReplace ofTag_firstChild parent _) fun _ => edits_countUp t parent
  refine .look (fun s s' h => by simp only [h.valid]) fun s => ?_
  refine .bind (.require _ _) fun _ => .bind (.require _ _) fun _ => .bind (.require _ _) fun _ =>
    .bind (.query fun _ _ h => h.isChild child) fun linked => ?_
  split
  · exact .bind (.query fun _ _ h => h.parentOf? child) fun _ => .bind (.fail _) fun _ => hlink
  · exact hlink

/-! ## Unlinking -/

theorem edits_closeBefore (t : S.Tag) (parent child : Entity) (links : SiblingLinks) :
    Edits t (closeBefore t parent child links) := by
  unfold closeBefore
  split
  · exact .bind (.query fun _ _ h => h.firstChildOf? parent) fun _ => .bind (.require _ _) fun _ =>
      .bind (.update ofTag_firstChild parent _) fun _ => .pure ()
  · exact .bind (.update ofTag_siblingLinks _ _) fun _ => .pure ()

theorem edits_closeAfter (t : S.Tag) (links : SiblingLinks) : Edits t (closeAfter t links) := by
  unfold closeAfter
  split
  · exact .pure ()
  · exact .bind (.update ofTag_siblingLinks _ _) fun _ => .pure ()

theorem edits_countDown (t : S.Tag) (parent : Entity) : Edits t (countDown t parent) := by
  refine .bind (.query fun _ _ h => h.get ofTag_childCount parent) fun _ =>
    .bind (.require _ _) fun _ => .bind (.update ofTag_childCount parent _) fun _ => ?_
  split
  · exact .bind (.query fun _ _ h => h.get ofTag_firstChild parent) fun _ =>
      .bind (.require _ _) fun _ => .bind (.detach ofTag_firstChild parent) fun _ =>
      .bind (.detach ofTag_childCount parent) fun _ => .pure ()
  · exact .pure ()

theorem edits_dropChildLinks (t : S.Tag) (child : Entity) : Edits t (dropChildLinks t child) :=
  .bind (.detach ofTag_parentLink child) fun _ =>
    .bind (.detach ofTag_siblingLinks child) fun _ => .pure ()

theorem edits_removeChild (t : S.Tag) (parent child : Entity) :
    Edits t (removeChild t parent child) := by
  refine .bind (.query fun _ _ h => h.hasEdge parent child) fun _ => ?_
  split
  · exact .bind (.query fun _ _ h => h.get ofTag_siblingLinks child) fun links =>
      .bind (edits_closeBefore t parent child links) fun _ =>
      .bind (edits_closeAfter t links) fun _ => .bind (edits_countDown t parent) fun _ =>
      .bind (edits_dropChildLinks t child) fun _ => .pure true
  · exact .pure false

theorem edits_detachChild (t : S.Tag) (child : Entity) : Edits t (detachChild t child) := by
  refine .bind (.query fun _ _ h => h.parentOf? child) fun o => ?_
  cases o with
  | some parent => exact edits_removeChild t parent child
  | none => exact .pure false

theorem edits_dropEach (t : S.Tag) (parent : Entity) (kids : List Entity) :
    Edits t (dropEach t parent kids) := by
  induction kids with
  | nil => exact .pure ()
  | cons kid kids ih =>
    exact .bind (.query fun _ _ h => h.isChildOf parent kid) fun _ =>
      .bind (.require _ _) fun _ => .bind (edits_dropChildLinks t kid) fun _ => ih

theorem edits_clearChildren (t : S.Tag) (parent : Entity) : Edits t (clearChildren t parent) :=
  .bind (.query fun _ _ h => h.listChildren parent) fun kids =>
    .bind (.query fun _ _ h => h.childCount parent) fun _ => .bind (.require _ _) fun _ =>
    .bind (edits_dropEach t parent kids) fun _ => .bind (.detach ofTag_firstChild parent) fun _ =>
    .bind (.detach ofTag_childCount parent) fun _ => .pure _

theorem edits_clearEach (t : S.Tag) (parents : List Entity) : Edits t (clearEach t parents) := by
  induction parents with
  | nil => exact .pure 0
  | cons parent parents ih =>
    exact .bind (edits_clearChildren t parent) fun _ => .bind ih fun _ => .pure _

end EntityStore.Store
