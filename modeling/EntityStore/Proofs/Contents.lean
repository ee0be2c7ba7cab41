import EntityStore.Store.Attachment
import Mathlib.Logic.Function.Basic

/-!
# The contents of a store

`Contents` is what a store holds, without how it holds it: which entities are live, which value
each of them has for each component, and what each component is called.  Slots, pools and the order
of the pairs in them are left out.

The changes of contents here touch single entries (`Contents.assign`), the entries of one component
(`Contents.revise`) or of one entity (`Contents.issue`, `Contents.release`).
-/

namespace EntityStore

variable {S : Schema}

/-- Which entities are live, which values they have, and what components are called. -/
@[ext]
structure Contents (S : Schema) where
  /-- Whether an entity is live. -/
  live : Entity → Bool
  /-- The value of a component of an entity, if it has one. -/
  value? : Entity → (c : Component S) → Option c.Value
  /-- The display name of a component. -/
  name : Component S → String

namespace Contents

variable {m : Contents S} {e x : Entity} {c d : Component S} {o : Option c.Value}

/-- No entities, no values, and every component called by its path. -/
def empty : Contents S where
  live _ := false
  value? _ _ := none
  name c := (S.describe c).path

/-! ## Changes -/

/-- Sets or removes one value. -/
def assign (m : Contents S) (e : Entity) (c : Component S) (o : Option c.Value) : Contents S :=
  { m with value? := Function.update m.value? e (Function.update (m.value? e) c o) }

/-- Changes all values of one component. -/
def revise (m : Contents S) (c : Component S) (f : Entity → c.Value → c.Value) : Contents S :=
  { m with value? := fun e => Function.update (m.value? e) c ((m.value? e c).map (f e)) }

/-- Makes an entity live. -/
def issue (m : Contents S) (e : Entity) : Contents S :=
  { m with live := Function.update m.live e true }

/-- Makes an entity dead and removes all its values. -/
def release (m : Contents S) (e : Entity) : Contents S :=
  { m with
    live := Function.update m.live e false
    value? := Function.update m.value? e fun _ => none }

@[simp] theorem live_assign : (m.assign e c o).live = m.live := rfl

@[simp] theorem name_assign : (m.assign e c o).name = m.name := rfl

@[simp] theorem value?_assign_self : (m.assign e c o).value? e c = o := by
  simp [assign]

theorem value?_assign_of_ne_entity (h : x ≠ e) : (m.assign e c o).value? x = m.value? x := by
  simp [assign, h]

theorem value?_assign_of_ne (h : d ≠ c) : (m.assign e c o).value? x d = m.value? x d := by
  by_cases hx : x = e
  · subst hx
    simp [assign, h]
  · rw [value?_assign_of_ne_entity hx]

theorem assign_eq_self (h : m.value? e c = o) : m.assign e c o = m := by
  subst h
  simp [assign]

@[simp] theorem live_revise (f : Entity → c.Value → c.Value) : (m.revise c f).live = m.live := rfl

@[simp] theorem name_revise (f : Entity → c.Value → c.Value) : (m.revise c f).name = m.name := rfl

@[simp] theorem value?_revise_self (f : Entity → c.Value → c.Value) :
    (m.revise c f).value? x c = (m.value? x c).map (f x) := by
  simp [revise]

theorem value?_revise_of_ne (h : d ≠ c) (f : Entity → c.Value → c.Value) :
    (m.revise c f).value? x d = m.value? x d := by
  simp [revise, h]

@[simp] theorem value?_issue : (m.issue e).value? = m.value? := rfl

@[simp] theorem name_issue : (m.issue e).name = m.name := rfl

@[simp] theorem live_issue_self : (m.issue e).live e = true := by simp [issue]

theorem live_issue_of_ne (h : x ≠ e) : (m.issue e).live x = m.live x := by simp [issue, h]

theorem live_issue_of_live (h : m.live x = true) : (m.issue e).live x = true := by
  by_cases hx : x = e
  · rw [hx, live_issue_self]
  · rwa [live_issue_of_ne hx]

@[simp] theorem name_release : (m.release e).name = m.name := rfl

@[simp] theorem live_release_self : (m.release e).live e = false := by simp [release]

theorem live_release_of_ne (h : x ≠ e) : (m.release e).live x = m.live x := by
  simp [release, h]

@[simp] theorem value?_release_self : (m.release e).value? e c = none := by simp [release]

theorem value?_release_of_ne (h : x ≠ e) : (m.release e).value? x = m.value? x := by
  simp [release, h]

end Contents

/-- What a store holds. -/
def Store.contents (s : Store S) : Contents S := ⟨s.valid, s.lookup?, s.catalog.nameOf⟩

namespace Store

variable {s : Store S}

@[simp] theorem live_contents : s.contents.live = s.valid := rfl

@[simp] theorem value?_contents : s.contents.value? = s.lookup? := rfl

@[simp] theorem name_contents : s.contents.name = s.catalog.nameOf := rfl

@[simp] theorem contents_empty : ({} : Store S).contents = .empty := by
  simp only [contents, Contents.empty, Contents.mk.injEq]
  refine ⟨?_, ?_, ?_⟩
  · funext e
    simp [valid, Allocator.isAlive]
  · funext e c
    rfl
  · funext c
    rfl

end Store

end EntityStore
