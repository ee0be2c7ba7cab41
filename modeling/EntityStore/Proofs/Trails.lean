import Mathlib.Data.List.Nodup
import Mathlib.Logic.Function.Basic
import Mathlib.Logic.Relation

/-!
# Trails

A partial function leads from an element to the next one, if there is one.  A *trail* is the list of
all elements that are passed from one element on, with the last one, which has no next.

There need be no trail from an element, since the steps may come back to one that was passed.  Where
they never do (`NoReturn`), no element is on a trail twice.  If also the elements that have a next
are not too many, there is a trail from every element (`NoReturn.exists_trail`): the elements that
were passed are counted against a bound.

Steps that never come back stay so when each step of a new function goes a stretch of the old one
(`NoReturn.shortcut`), and when one step is added from an element that is not reached from where the
step leads (`NoReturn.insert`).
-/

namespace EntityStore

open Relation

variable {α : Type} {next next' : α → Option α} {a b x y z : α} {as : List α}

/-- A step to the next element. -/
def Steps (next : α → Option α) (a b : α) : Prop := next a = some b

/-- No element is reached from itself by one or more steps. -/
def NoReturn (next : α → Option α) : Prop := ∀ a, ¬ TransGen (Steps next) a a

/-- From an element on the steps pass some elements and come to a last one, which has no next. -/
inductive Trail (next : α → Option α) : α → List α → α → Prop where
  /-- There is no step. -/
  | last {z : α} (h : next z = none) : Trail next z [] z
  /-- There is a first step. -/
  | step {a b z : α} {as : List α} (h : next a = some b) (rest : Trail next b as z) :
      Trail next a (a :: as) z

/-! ## Steps that never come back -/

theorem noReturn_none : NoReturn fun _ : α => none := by
  intro a h
  obtain ⟨b, hb, -⟩ := TransGen.head'_iff.1 h
  cases hb

theorem NoReturn.shortcut (h : NoReturn next)
    (hs : ∀ a b, next' a = some b → TransGen (Steps next) a b) : NoReturn next' :=
  fun a ha => h a (TransGen.closed hs a a ha)

theorem NoReturn.mono (h : NoReturn next) (hs : ∀ a b, next' a = some b → next a = some b) :
    NoReturn next' :=
  h.shortcut fun a b hab => .single (hs a b hab)

theorem NoReturn.ne (h : NoReturn next) (hab : next a = some b) : a ≠ b := by
  rintro rfl
  exact h a (.single hab)

/-- A path with one more step at hand either does without it or takes it. -/
theorem transGen_insert {r r' : α → α → Prop}
    (hr : ∀ x y, r' x y → r x y ∨ (x = a ∧ y = b)) (h : TransGen r' x y) :
    TransGen r x y ∨ (ReflTransGen r x a ∧ ReflTransGen r b y) := by
  induction h with
  | single h =>
    rcases hr _ _ h with h | ⟨rfl, rfl⟩
    · exact .inl (.single h)
    · exact .inr ⟨.refl, .refl⟩
  | tail _ h ih =>
    rcases hr _ _ h with h | ⟨rfl, rfl⟩
    · exact ih.imp (·.tail h) fun ⟨ha, hb⟩ => ⟨ha, hb.tail h⟩
    · exact .inr ⟨ih.elim TransGen.to_reflTransGen And.left, .refl⟩

theorem NoReturn.insert (h : NoReturn next)
    (hs : ∀ x y, next' x = some y → next x = some y ∨ (x = a ∧ y = b))
    (hab : ¬ ReflTransGen (Steps next) b a) : NoReturn next' := by
  intro x hx
  rcases transGen_insert hs hx with hx | ⟨ha, hb⟩
  · exact h x hx
  · exact hab (hb.trans ha)

/-! ## Trails -/

namespace Trail

theorem last_next (h : Trail next a as z) : next z = none := by
  induction h with
  | last h => exact h
  | step _ _ ih => exact ih

/-- Every element of a trail is reached from the first. -/
theorem reaches (h : Trail next a as z) : ∀ x ∈ as ++ [z], ReflTransGen (Steps next) a x := by
  induction h with
  | last h =>
    intro x hx
    rw [List.nil_append, List.mem_singleton] at hx
    rw [hx]
  | step h rest ih =>
    intro x hx
    rcases List.mem_cons.1 hx with rfl | hx
    · exact .refl
    · exact (ih x hx).head h

/-- Every element of a trail but the last has a next. -/
theorem isSome (h : Trail next a as z) : ∀ x ∈ as, (next x).isSome = true := by
  induction h with
  | last h => intro x hx; cases hx
  | step h rest ih =>
    intro x hx
    rcases List.mem_cons.1 hx with rfl | hx
    · rw [h]
      rfl
    · exact ih x hx

/-- A trail that never comes back has no element twice. -/
theorem nodup (h : Trail next a as z) (hno : NoReturn next) : (as ++ [z]).Nodup := by
  induction h with
  | last h => exact List.nodup_singleton _
  | @step a b z as hab rest ih =>
    refine List.nodup_cons.2 ⟨fun hmem => ?_, ih⟩
    exact hno a (TransGen.head' hab (rest.reaches a hmem))

end Trail

/-- Steps that never come back find a trail from an element, if the elements that were passed before
it, all of which lead to it, leave room for the others that have a next. -/
theorem NoReturn.exists_trail_of_passed (hno : NoReturn next) (room : Nat) {passed : List α}
    (hn : passed.Nodup) (hreach : ∀ x ∈ passed, TransGen (Steps next) x a)
    (hroom : ∀ l : List α, l.Nodup → (∀ x ∈ l, (next x).isSome = true) →
      l.length ≤ passed.length + room) : ∃ as z, Trail next a as z := by
  induction room generalizing passed a with
  | zero =>
    refine ⟨[], a, .last ?_⟩
    by_contra hsome
    have hnot : a ∉ passed := fun hmem => hno a (hreach a hmem)
    have hle := hroom (a :: passed) (List.nodup_cons.2 ⟨hnot, hn⟩) fun x hx => by
      rcases List.mem_cons.1 hx with rfl | hx
      · exact Option.isSome_iff_ne_none.2 hsome
      · obtain ⟨b, hb, -⟩ := TransGen.head'_iff.1 (hreach x hx)
        exact Option.isSome_iff_exists.2 ⟨b, hb⟩
    rw [List.length_cons] at hle
    omega
  | succ room ih =>
    cases hb : next a with
    | none => exact ⟨[], a, .last hb⟩
    | some b =>
      have hnot : a ∉ passed := fun hmem => hno a (hreach a hmem)
      have hreach' : ∀ x ∈ a :: passed, TransGen (Steps next) x b := by
        intro x hx
        rcases List.mem_cons.1 hx with rfl | hx
        · exact .single hb
        · exact (hreach x hx).tail hb
      obtain ⟨as, z, htrail⟩ := ih (List.nodup_cons.2 ⟨hnot, hn⟩) hreach' fun l hl hsome => by
        have hle := hroom l hl hsome
        rw [List.length_cons]
        omega
      exact ⟨a :: as, z, .step hb htrail⟩

/-- If the steps never come back and the elements that have a next are at most `n`, there is a
trail from every element, no longer than that. -/
theorem NoReturn.exists_trail (hno : NoReturn next) {n : Nat}
    (hn : ∀ l : List α, l.Nodup → (∀ x ∈ l, (next x).isSome = true) → l.length ≤ n) (a : α) :
    ∃ as z, Trail next a as z ∧ as.length ≤ n := by
  obtain ⟨as, z, htrail⟩ := hno.exists_trail_of_passed (a := a) n List.nodup_nil (by simp)
    (by simpa using hn)
  exact ⟨as, z, htrail, hn as (List.Nodup.of_append_left (htrail.nodup hno)) htrail.isSome⟩

end EntityStore
