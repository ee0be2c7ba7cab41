import EntityStore.Proofs.Histories
import EntityStore.Proofs.Moves

/-!
# Roaming histories

A history *roams* if its operations write to links through edits of hierarchies only and make no
generation wrap around.  It may destroy entities that are linked, and its edits may fail half-way,
which leaves what they wrote.  `History.Takes P s H u` says that the operations of a history lead
from one store to another, where each of them is of some kind `P` on the store that it finds.

Starting from a new store, such a history leaves links that are frayed at worst
(`History.Takes.frayed`).  That is enough for every walk along the links to end, though no walk
looks out for circles (`History.Takes.every_walk_ends`).  It is also enough for an entity that was
just issued to be led to by no link, whoever used its slot before (`History.Takes.issued_unnamed`).
-/

namespace EntityStore

open EntityStore.Action

variable {S : Schema} {s u v : Store S} {t : S.Tag} {H K : History S} {e f p c x : Entity}

/-- Operations of some kind lead from one store to another. -/
inductive History.Takes (P : Op S → Store S → Prop) (s : Store S) : History S → Store S → Prop where
  /-- Nothing was done. -/
  | start : Takes P s [] s
  /-- An operation comes last. -/
  | step {H : History S} {u : Store S} (before : Takes P s H u) (k : Op S) (hk : P k u) :
      Takes P s (⟨k, (k.run.run u).result⟩ :: H) (k.run.run u).state

/-- An operation that writes to links through edits only and makes no generation wrap around. -/
structure Op.Roams (k : Op S) (s : Store S) : Prop where
  /-- It writes to links through edits only. -/
  indirect : k.Indirect
  /-- An entity that it releases is not of the last generation. -/
  room : ∀ e, k.Releases e → s.valid e = true → e.generation.toNat + 1 < 2 ^ 32

/-- An operation that neither edits a hierarchy nor writes to its links. -/
structure Op.Ignores (t : S.Tag) (k : Op S) (s : Store S) : Prop where
  /-- It writes to links through edits only. -/
  indirect : k.Indirect
  /-- It does not edit the hierarchy. -/
  tag? : k.tag? ≠ some t

namespace Op

/-- An edit of a hierarchy roams. -/
theorem roams_of_tag? {k : Op S} (hk : k.tag? = some t) : k.Roams s where
  indirect := by
    cases k with
    | call k => cases hk
    | _ => trivial
  room e hrel := by
    rcases hrel with rfl | rfl
    · cases hk
    · cases hk

theorem roams_create : (call .create : Op S).Roams s where
  indirect := trivial
  room e hrel := by
    rcases hrel with hrel | hrel
    · cases hrel
    · cases hrel

theorem roams_destroy (he : e.generation.toNat + 1 < 2 ^ 32) :
    (call (.destroy e) : Op S).Roams s where
  indirect := trivial
  room x hrel _ := by
    rcases hrel with hrel | hrel
    · cases hrel
      exact he
    · cases hrel

end Op

/-! ## Frayed links -/

namespace Store

theorem frayed_new : ({} : Store S).Frayed t := by
  refine Links.frayed_empty ?_ ?_ ?_
  · exact sound_empty.valid_null
  · rintro ⟨g, hg, -⟩
    simp at hg
  · intro x _
    simp [valid, Allocator.isAlive]

/-- An entity that is issued is led to by no link. -/
theorem Frayed.not_mentions_create (hF : s.Frayed t) (h : s.Sound)
    (hf : (create.run s).result = .ok f) :
    f ≠ .null ∧ ¬ ((create.run s).state.contents.links t).Mentions f := by
  rw [run_create] at hf ⊢
  rcases h.slots.allocate_cases with ⟨e, a, hrun, hcoh, hdead, halive⟩ | ⟨hrun, -⟩
  · rw [hrun] at hf ⊢
    obtain rfl : e = f := Except.ok.inj hf
    have hnull : e ≠ .null := hcoh.ne_null ((halive e).2 (.inl rfl))
    refine ⟨hnull, fun hm => ?_⟩
    rcases Links.Frayed.mentions hF hm with hn | hlive | hpast
    · exact hnull hn
    · rw [valid, hdead] at hlive
      cases hlive
    · exact (Allocator.past_allocate hrun).1 hpast
  · rw [hrun] at hf
    cases hf

end Store

namespace History.Takes

/-- Roaming operations leave frayed links where they find some. -/
theorem frayed (h : Takes Op.Roams s H u) (hs : s.Sound) (hF : s.Frayed t) :
    u.Sound ∧ u.Frayed t := by
  induction h with
  | start => exact ⟨hs, hF⟩
  | step before k hk ih =>
    obtain ⟨hsound, hfrayed⟩ := ih
    have hmoves := hk.indirect.moves hsound fun _ => hfrayed
    exact ⟨(k.safe _ hsound).state, hmoves.frayed hsound hfrayed hk.room⟩

/-- A handle that no link leads to is led to only after it is linked. -/
theorem not_mentions (h : Takes Op.Roams s H u) (hs : s.Sound) (hF : s.Frayed t) (hf : f ≠ .null)
    (hH : ∀ p c, .prependChild t p c ∈ H.map Sigma.fst → p ≠ f ∧ c ≠ f)
    (hnot : ¬ (s.contents.links t).Mentions f) : ¬ (u.contents.links t).Mentions f := by
  induction h with
  | start => exact hnot
  | @step H u before k hk ih =>
    obtain ⟨hsound, hfrayed⟩ := before.frayed hs hF
    have hmoves := hk.indirect.moves hsound fun _ => hfrayed
    refine hmoves.not_mentions hf (fun p c hprepend => hH p c ?_)
      (ih fun p c hmem => hH p c (List.mem_cons_of_mem _ hmem))
    rw [← hprepend]
    exact List.mem_cons_self

/-- Operations that ignore a hierarchy give no neighbour another neighbour after it. -/
theorem nextOf?_of_ignores (h : Takes (Op.Ignores t) s H u) (hs : s.Sound) :
    u.Sound ∧ ∀ a b, (u.contents.links t).nextOf? a = some b →
      (s.contents.links t).nextOf? a = some b := by
  induction h with
  | start => exact ⟨hs, fun _ _ => id⟩
  | step before k hk ih =>
    obtain ⟨hsound, hnext⟩ := ih
    have hmoves := hk.indirect.moves (t := t) hsound fun htag => absurd htag hk.tag?
    exact ⟨(k.safe _ hsound).state, fun a b hab => hnext a b (hmoves.nextOf?_of_ne hk.tag? hab)⟩

end History.Takes

/-! ## Walks with a visitor -/

namespace Store

variable {ε α : Type} {visitor : Entity → Entity → Action (Store S) Fault α}
  {next : Entity → Option Entity} {n m : Nat} {es : List Entity} {z : Entity}

/-- The child after a child is its neighbour, if there is one. -/
theorem nextOf?_of_successor {o : Option Entity} (h : s.successor t p c = .ok o) :
    ∃ b, (s.contents.links t).nextOf? c = some b ∧ o = b.nonNull? := by
  unfold successor at h
  cases hb : s.isChildOf t p c with
  | error g =>
    rw [hb] at h
    cases h
  | ok b =>
    rw [hb] at h
    cases b with
    | false => cases h
    | true =>
      cases hl : s.get c (.siblingLinks t) with
      | error g =>
        change (s.get c (.siblingLinks t) >>= _) = _ at h
        rw [hl] at h
        cases h
      | ok l =>
        change (s.get c (.siblingLinks t) >>= _) = _ at h
        rw [hl] at h
        refine ⟨l.next, ?_, (Except.ok.inj h).symm⟩
        exact congrArg (Option.map SiblingLinks.next) (get_eq_ok_iff.1 hl).2

theorem run_visitFrom_of_error {g : Fault} (h : s.successor t p c = .error g) :
    (visitFrom t p visitor n (some c) : Action (Store S) ε _).run s =
      { result := .ok { failure := some g }, state := s } := by
  unfold visitFrom
  simp [run_bind, h]

theorem run_visitFrom_succ {o : Option Entity} (h : s.successor t p c = .ok o) :
    (visitFrom t p visitor (n + 1) (some c) : Action (Store S) ε _).run s =
      (do
        match ← (visitor p c).attempt with
        | .error f => pure { failure := some f }
        | .ok a =>
          let rest ← visitFrom t p visitor n o
          pure { rest with visited := (c, a) :: rest.visited } : Action (Store S) ε _).run s := by
  rw [visitFrom, run_bind]
  simp only [run_attempt, run_query, h]
  rfl

section

variable (hvisitor : ∀ q c, ∀ v : Store S, v.Sound →
  (∀ a b, (v.contents.links t).nextOf? a = some b → next a = some b) →
  ((visitor q c).run v).state.Sound ∧
    ∀ a b, (((visitor q c).run v).state.contents.links t).nextOf? a = some b → next a = some b)
include hvisitor

/-- A walk from the start of a trail on ends in the same way for all limits that leave room for the
trail, if the visitor gives no child a neighbour that does not come next on the trail. -/
theorem run_visitFrom_eq (htrail : Trail next x es z) (hn : es.length ≤ n) (hm : es.length ≤ m)
    (hs : s.Sound) (hnext : ∀ a b, (s.contents.links t).nextOf? a = some b → next a = some b) :
    (visitFrom t p visitor n (some x) : Action (Store S) ε _).run s =
      (visitFrom t p visitor m (some x)).run s := by
  induction htrail generalizing n m s with
  | @last z hz =>
    cases hsucc : s.successor t p z with
    | error g => rw [run_visitFrom_of_error hsucc, run_visitFrom_of_error hsucc]
    | ok o =>
      obtain ⟨b, hb, -⟩ := nextOf?_of_successor hsucc
      rw [hnext z b hb] at hz
      cases hz
  | @step a b z es hab rest ih =>
    obtain ⟨n, rfl⟩ := Nat.exists_eq_add_of_le' hn
    obtain ⟨m, rfl⟩ := Nat.exists_eq_add_of_le' hm
    cases hsucc : s.successor t p a with
    | error g => rw [run_visitFrom_of_error hsucc, run_visitFrom_of_error hsucc]
    | ok o =>
      obtain ⟨hs', hnext'⟩ := hvisitor p a s hs hnext
      have hrest : (visitFrom t p visitor (n + es.length) o : Action (Store S) ε _).run
          ((visitor p a).run s).state =
            (visitFrom t p visitor (m + es.length) o).run ((visitor p a).run s).state := by
        obtain ⟨y, hy, rfl⟩ := nextOf?_of_successor hsucc
        obtain rfl : y = b := Option.some.inj ((hnext a y hy).symm.trans hab)
        cases hb : y.nonNull? with
        | none => rw [visitFrom, visitFrom]
        | some w =>
          obtain ⟨-, rfl⟩ := Entity.nonNull?_eq_some_iff.1 hb
          exact ih (Nat.le_add_left _ _) (Nat.le_add_left _ _) hs' hnext'
      have hstep : ∀ k : Nat, k + (a :: es).length = k + es.length + 1 := fun k => rfl
      rw [hstep, hstep, run_visitFrom_succ hsucc, run_visitFrom_succ hsucc, run_bind, run_bind,
        run_attempt]
      cases hr : ((visitor p a).run s).result with
      | error g => rfl
      | ok r => simp only [run_bind, hrest]

end

/-! ## Walks that end -/

/-- Every walk along the links of a hierarchy ends. -/
structure Bounded (s : Store S) (t : S.Tag) : Prop where
  /-- From a live entity the parents lead through live entities, to none of them twice, and end with
  a live one that has no parent or with a handle that is not live. -/
  parents : ∀ e, s.valid e = true → ∃ es z,
    Trail (fun x => (s.lookup? x (.parentLink t)).map ParentLink.parent) e es z ∧
    (es ++ [z]).Nodup ∧ (∀ x ∈ es, s.valid x = true) ∧
    (s.valid z = true ∧ s.lookup? z (.parentLink t) = none ∨ s.valid z = false)
  /-- From a first child the neighbours lead through live children of the same parent, to none of
  them twice, and end with the null handle or another that is not live. -/
  siblings : ∀ p, ∀ head : FirstChild, s.lookup? p (.firstChild t) = some head → ∃ es z,
    Trail (fun x => (s.lookup? x (.siblingLinks t)).map SiblingLinks.next) head.first es z ∧
    (es ++ [z]).Nodup ∧
    (∀ x ∈ es, s.valid x = true ∧ s.lookup? x (.parentLink t) = some (⟨p⟩ : ParentLink)) ∧
    s.valid z = false
  /-- The list of the children of a parent comes to an end, and so does the search for a child,
  however many steps they may take beyond those that they need. -/
  lists : ∀ p w, s.children t p = .ok w → ∃ es z, s.valid z = false ∧
    ∀ n, s.listBound t ≤ n → s.listFrom t p n w = atEnd z es ∧
      ∀ x, s.comesFrom t p x n w = if x ∈ es then .ok true else atEnd z false
  /-- A walk whose visitor does what operations do that ignore the hierarchy does not run into any
  limit from the number of slots on. -/
  visits : ∀ {α : Type} (visitor : Entity → Entity → Action (Store S) Fault α),
    (∀ p c v, ∃ K, History.Takes (Op.Ignores t) v K ((visitor p c).run v).state) →
    ∀ p limit, s.slotCount ≤ limit →
      (visitChildren limit t p visitor : Action (Store S) Fault _).run s =
        (visitChildren s.slotCount t p visitor).run s
  /-- The removal of all children of a selection does not fail with a list that never ends. -/
  clear : ∀ sel q, ((clearSelection t sel).run s).result ≠ .error (.endless q)

/-- Frayed links let every walk end. -/
theorem Frayed.toBounded (hF : s.Frayed t) (h : s.Sound) : s.Bounded t where
  parents e he := by
    have hlive : ∀ x, ((s.contents.links t).parentOf? x).isSome = true → s.valid x = true := by
      intro x hx
      obtain ⟨q, hq⟩ := Option.isSome_iff_exists.1 hx
      exact Links.Frayed.child_live hF x q hq
    obtain ⟨es, z, htrail, -⟩ := hF.parents.exists_trail
      (fun l hl hparent => length_le_slotCount hl fun x hx => hlive x (hparent x hx)) e
    refine ⟨es, z, htrail, htrail.nodup hF.parents, fun x hx => hlive x (htrail.isSome x hx), ?_⟩
    cases hz : s.valid z with
    | true => exact .inl ⟨rfl, Option.map_eq_none_iff.1 htrail.last_next⟩
    | false => exact .inr rfl
  siblings p head hhead := by
    obtain ⟨es, z, htrail, hn, hparent, hz⟩ := exists_trail hF p
    have hfirst : (s.contents.links t).headOf? p = some head.first :=
      Links.headOf?_eq_some_iff.2 hhead
    rw [hfirst, Option.getD_some] at htrail
    refine ⟨es, z, htrail, hn, fun x hx => ?_, hz⟩
    have hx' := hparent x hx
    exact ⟨Links.Frayed.child_live hF x p hx', Links.parentOf?_eq_some_iff.1 hx'⟩
  lists p w hw := by
    have hp : s.Askable p := by
      by_contra hp
      rw [children_of_not_askable hp] at hw
      cases hw
    obtain ⟨es, z, htrail, -, -, hz⟩ := exists_trail hF p
    have hlt := h.length_lt_listBound_of_trail hF htrail
    have hfirst : s.firstChildOf? t p = .ok ((s.contents.links t).headOf? p) :=
      h.firstChildOf?_eq hp
    rw [children, hfirst, h.childCount_eq hp] at hw
    have hnext : w.next = ((s.contents.links t).headOf? p).getD .null := by
      rw [← Except.ok.inj hw]
    rw [← hnext] at htrail
    exact ⟨es, z, hz, fun n hn => ⟨h.listFrom_eq htrail hz (Nat.lt_of_lt_of_le hlt hn),
      fun x => h.comesFrom_eq htrail hz (Nat.lt_of_lt_of_le hlt hn)⟩⟩
  visits visitor hvisitor p limit hlimit := by
    obtain ⟨es, z, htrail, hn, hparent, -⟩ := exists_trail hF p
    have hlen : es.length ≤ s.slotCount := length_le_slotCount hn.of_append_left fun x hx =>
      Links.Frayed.child_live hF x p (hparent x hx)
    have hkeep : ∀ q c, ∀ v : Store S, v.Sound →
        (∀ a b, (v.contents.links t).nextOf? a = some b →
          (s.contents.links t).nextOf? a = some b) →
        ((visitor q c).run v).state.Sound ∧
          ∀ a b, (((visitor q c).run v).state.contents.links t).nextOf? a = some b →
            (s.contents.links t).nextOf? a = some b := by
      intro q c v hv hnext
      obtain ⟨K, htakes⟩ := hvisitor q c v
      obtain ⟨hsound, hsame⟩ := htakes.nextOf?_of_ignores hv
      exact ⟨hsound, fun a b hab => hnext a b (hsame a b hab)⟩
    by_cases hp : s.Askable p
    · have hfirst : s.firstChildOf? t p = .ok ((s.contents.links t).headOf? p) :=
        h.firstChildOf?_eq hp
      cases hhead : (s.contents.links t).headOf? p with
      | none =>
        rw [hhead] at hfirst
        simp [visitChildren, run_bind, hfirst, visitFrom]
      | some head =>
        rw [hhead] at hfirst
        rw [hhead, Option.getD_some] at htrail
        have hwalk := run_visitFrom_eq (ε := Fault) (p := p) hkeep htrail
          (Nat.le_trans hlen hlimit) hlen h fun _ _ => id
        simp only [visitChildren, run_bind, run_attempt, run_query, hfirst, hwalk]
    · simp [visitChildren, run_bind, firstChildOf?_of_not_askable hp]
  clear sel q := by
    have hend := ends_clearSelection h (Contents.relink_links (t := t)).symm hF sel
    exact hend.1 q

/-! ## Entities that no link leads to -/

/-- No link of a hierarchy leads to an entity, and no question about the hierarchy has it for an
answer. -/
structure Unnamed (s : Store S) (t : S.Tag) (f : Entity) : Prop where
  /-- It is no parent. -/
  parent : ∀ x, s.lookup? x (.parentLink t) ≠ some (⟨f⟩ : ParentLink)
  /-- It is no neighbour. -/
  siblings : ∀ x, ∀ l : SiblingLinks, s.lookup? x (.siblingLinks t) = some l →
    l.next ≠ f ∧ l.prev ≠ f
  /-- It is no first child. -/
  first : ∀ x, s.lookup? x (.firstChild t) ≠ some (⟨f⟩ : FirstChild)
  /-- No entity has it as its parent. -/
  parentOf? : ∀ x, s.parentOf? t x ≠ .ok (some f)
  /-- It is in no list of children. -/
  listChildren : ∀ p cs, s.listChildren t p = .ok cs → f ∉ cs
  /-- It is found in no list of children. -/
  hasChild : ∀ p, s.hasChild t p f ≠ .ok true

theorem Frayed.toUnnamed (hF : s.Frayed t) (h : s.Sound) (hf : f ≠ .null)
    (hnot : ¬ (s.contents.links t).Mentions f) : s.Unnamed t f := by
  have hchild : ∀ p es z, Trail (s.contents.links t).nextOf?
      (((s.contents.links t).headOf? p).getD .null) es z → f ∉ es := by
    intro p es z htrail hmem
    rcases Relation.ReflTransGen.cases_tail (htrail.reaches f (List.mem_append_left _ hmem)) with
      heq | ⟨y, -, hy⟩
    · cases hhead : (s.contents.links t).headOf? p with
      | none =>
        rw [hhead, Option.getD_none] at heq
        exact hf heq
      | some head =>
        rw [hhead, Option.getD_some] at heq
        exact hnot ⟨p, .inr (.inr (.inr (heq ▸ hhead)))⟩
    · exact hnot ⟨y, .inr (.inl hy)⟩
  constructor
  case parent =>
    intro x hx
    exact hnot ⟨x, .inl (Links.parentOf?_eq_some_iff.2 hx)⟩
  case siblings =>
    intro x l hl
    refine ⟨?_, ?_⟩
    · rintro rfl
      exact hnot ⟨x, .inr (.inl (congrArg (Option.map SiblingLinks.next) hl))⟩
    · rintro rfl
      exact hnot ⟨x, .inr (.inr (.inl (congrArg (Option.map SiblingLinks.prev) hl)))⟩
  case first =>
    intro x hx
    exact hnot ⟨x, .inr (.inr (.inr (Links.headOf?_eq_some_iff.2 hx)))⟩
  case parentOf? =>
    intro x hx
    by_cases hask : s.Askable x
    · rw [h.parentOf?_eq hask] at hx
      exact hnot ⟨x, .inl (Except.ok.inj hx)⟩
    · rw [parentOf?_of_not_askable hask] at hx
      cases hx
  case listChildren =>
    intro p cs hcs
    by_cases hp : s.Askable p
    · obtain ⟨es, z, htrail, -, -, hz⟩ := exists_trail hF p
      rw [h.listChildren_eq hF htrail hz hp, atEnd] at hcs
      split at hcs
      · exact Except.ok.inj hcs ▸ hchild p es z htrail
      · cases hcs
    · rw [listChildren_of_not_askable hp] at hcs
      cases hcs
  case hasChild =>
    intro p hx
    by_cases hp : s.Askable p
    · obtain ⟨es, z, htrail, -, -, hz⟩ := exists_trail hF p
      rw [h.hasChild_eq hF htrail hz hp hf, if_neg (hchild p es z htrail), atEnd] at hx
      split at hx
      · cases hx
      · cases hx
    · rw [Store.hasChild, if_neg (mt Entity.isNull_iff.1 hf), children_of_not_askable hp] at hx
      cases hx

end Store

namespace History.Takes

/-- Wherever a roaming history leads from a new store, every walk along the links ends. -/
theorem every_walk_ends (h : Takes Op.Roams {} H s) (t : S.Tag) : s.Bounded t := by
  obtain ⟨hs, hF⟩ := h.frayed (t := t) Store.sound_empty Store.frayed_new
  exact hF.toBounded hs

/-- The middle one of three children is destroyed, and the removal of the first one stops half-way:
it still names its parent, whose list leads nowhere. -/
theorem every_walk_ends_half_way :
    ∃ (H : History Schema.sample) (s : Store Schema.sample), Takes Op.Roams {} H s ∧
      s.parentOf? () ⟨3, 0⟩ = .ok (some ⟨0, 0⟩) ∧
      s.listChildren () ⟨0, 0⟩ = .error (.refused (.stale ⟨2, 0⟩)) ∧ s.Bounded () ∧
      (Store.visitChildren 100 () ⟨0, 0⟩ fun _ c => Store.destroy c : Action _ Fault _).run s =
        (Store.visitChildren s.slotCount () ⟨0, 0⟩ fun _ c => Store.destroy c).run s := by
  have hnew : Takes (S := Schema.sample) Op.Roams {} _ _ :=
    (((Takes.start.step (.call .create) Op.roams_create).step (.call .create)
      Op.roams_create).step (.call .create) Op.roams_create).step (.call .create) Op.roams_create
  have hrun : Takes (S := Schema.sample) Op.Roams {} _ _ :=
    ((((hnew.step (.prependChild () ⟨0, 0⟩ ⟨1, 0⟩) (Op.roams_of_tag? rfl)).step
      (.prependChild () ⟨0, 0⟩ ⟨2, 0⟩) (Op.roams_of_tag? rfl)).step
      (.prependChild () ⟨0, 0⟩ ⟨3, 0⟩) (Op.roams_of_tag? rfl)).step
      (.call (.destroy ⟨2, 0⟩)) (Op.roams_destroy (by decide))).step
      (.removeChild () ⟨0, 0⟩ ⟨3, 0⟩) (Op.roams_of_tag? rfl)
  have hbounded := hrun.every_walk_ends ()
  refine ⟨_, _, hrun, rfl, rfl, hbounded, ?_⟩
  exact hbounded.visits (fun _ c => Store.destroy c)
    (fun p c v => ⟨_, .step .start (.call (.destroy c)) ⟨trivial, nofun⟩⟩) ⟨0, 0⟩ 100 (by decide)

/-- An entity that is issued is led to by no link until it is linked. -/
theorem issued_unnamed (h : Takes Op.Roams {} H s) (hf : (Store.create.run s).result = .ok f)
    (hK : Takes Op.Roams (Store.create.run s).state K u)
    (hlink : ∀ p c, .prependChild t p c ∈ K.map Sigma.fst → p ≠ f ∧ c ≠ f) : u.Unnamed t f := by
  obtain ⟨hs, hF⟩ := h.frayed (t := t) Store.sound_empty Store.frayed_new
  have hmoves : s.Moves t (.call .create) (Store.create.run s).state := Store.moves_create hs
  have hs' := (Op.safe (.call .create) s hs).state
  have hF' : (Store.create.run s).state.Frayed t :=
    hmoves.frayed hs hF Op.roams_create.room
  obtain ⟨hnull, hnot⟩ := hF.not_mentions_create hs hf
  obtain ⟨hu, hFu⟩ := hK.frayed hs' hF'
  exact hFu.toUnnamed hu hnull (hK.not_mentions hs' hF' hnull hlink hnot)

/-- A parent is destroyed, and its slot is used again.  The child still names the old parent, and a
failed removal of the child does not change that, but nothing names the new entity. -/
theorem issued_unnamed_reuse :
    ∃ (H K : History Schema.sample) (s u : Store Schema.sample), Takes Op.Roams {} H s ∧
      (Store.create.run s).result = .ok ⟨0, 1⟩ ∧ Takes Op.Roams (Store.create.run s).state K u ∧
      u.parentOf? () ⟨1, 0⟩ = .ok (some ⟨0, 0⟩) ∧ u.Unnamed () ⟨0, 1⟩ := by
  have hrun : Takes (S := Schema.sample) Op.Roams {} _ _ :=
    (((Takes.start.step (.call .create) Op.roams_create).step (.call .create)
      Op.roams_create).step (.prependChild () ⟨0, 0⟩ ⟨1, 0⟩) (Op.roams_of_tag? rfl)).step
      (.call (.destroy ⟨0, 0⟩)) (Op.roams_destroy (by decide))
  have hmore (s : Store Schema.sample) : Takes Op.Roams s _ _ :=
    Takes.start.step (.detachChild () ⟨1, 0⟩) (Op.roams_of_tag? rfl)
  exact ⟨_, _, _, _, hrun, rfl, hmore _, rfl, hrun.issued_unnamed rfl (hmore _) (by simp)⟩

end History.Takes

end EntityStore
