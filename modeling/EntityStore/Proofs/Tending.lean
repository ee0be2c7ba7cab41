import EntityStore.Proofs.Unlinking
import EntityStore.Proofs.Visiting
import Mathlib.Data.List.Chain

/-!
# A destroyed child obstructs the next one

A walk hands the children of a parent to a visitor, which chooses for each child whether it leaves,
unlinks or destroys it.  A child that is destroyed while it is linked stays in the list of its
parent, and the next child still leads back to it.  An attempt to unlink that next child must lead
the destroyed one past it, and fails.

So the walk goes through exactly if no child that is to be unlinked comes directly after one that is
to be destroyed.  The invariant is about the children that were kept so far, which are those that
the parent still counts (`Links.Tended`).  Only the last of them matters to the next child.  It may
be dead, and nothing is said about the links of those before it.
-/

namespace EntityStore

open EntityStore.Action

variable {S : Schema}

/-! ## Choices that fit -/

namespace Choice

/-- Whether a child is to be unlinked. -/
def unlinks : Choice → Bool
  | unlink | unlinkThenDestroy => true
  | leave | destroy => false

/-- What is chosen for a child can be done after what was chosen for the child before it. -/
def Fits (before after : Choice) : Prop := before = .destroy → after.unlinks = false

instance (before after : Choice) : Decidable (before.Fits after) :=
  inferInstanceAs (Decidable (_ → _))

/-- Choices that do not fit are to destroy a child and to unlink the next one. -/
theorem not_fits_iff {before after : Choice} :
    ¬ before.Fits after ↔ before = .destroy ∧ after.unlinks = true := by
  simp [Fits]

variable {choice : Entity → Choice} {c d : Entity} {cs : List Entity} {visits : Store.Visits Bool}

/-- How a walk over some children ends.  A child that is to be unlinked directly after one that is
to be destroyed is the last one that is handed out. -/
inductive Outcome (choice : Entity → Choice) : List Entity → Store.Visits Bool → Prop where
  /-- All children were handed out. -/
  | done : Outcome choice [] {}
  /-- A child was handed out, and its choice fits that of the next. -/
  | step {c : Entity} {cs : List Entity} {rest : Store.Visits Bool}
      (hfits : ∀ d ∈ cs.head?, (choice c).Fits (choice d)) (hrest : Outcome choice cs rest) :
      Outcome choice (c :: cs) { rest with visited := (c, true) :: rest.visited }
  /-- A child was destroyed, and the next one cannot be unlinked. -/
  | stuck {d c : Entity} {cs : List Entity} (hd : choice d = .destroy)
      (hc : (choice c).unlinks = true) :
      Outcome choice (d :: c :: cs)
        { visited := [(d, true)], failure := some (.refused (.stale d)) }

/-- If all choices fit, then every child is handed out. -/
theorem Outcome.of_isChain (h : Outcome choice cs visits)
    (hchain : cs.IsChain fun d c => (choice d).Fits (choice c)) :
    visits = { visited := cs.map fun c => (c, true) } := by
  induction h with
  | done => rfl
  | step _ _ ih => rw [ih (List.isChain_cons.1 hchain).2, List.map_cons]
  | stuck hd hc =>
    have hfits := (List.isChain_cons_cons.1 hchain).1 hd
    rw [hc] at hfits
    cases hfits

/-- If some choice does not fit, then the walk ends there. -/
theorem Outcome.of_not_isChain (h : Outcome choice cs visits)
    (hchain : ¬ cs.IsChain fun d c => (choice d).Fits (choice c)) :
    ∃ l d c r, cs = l ++ d :: c :: r ∧ choice d = .destroy ∧ (choice c).unlinks = true ∧
      visits = { visited := (l ++ [d]).map fun c => (c, true),
                 failure := some (.refused (.stale d)) } := by
  induction h with
  | done => exact absurd .nil hchain
  | @step c cs rest hfits _ ih =>
    obtain ⟨l, d, e, r, hcs, hd, he, hrest⟩ := ih fun hcs =>
      hchain (List.isChain_cons.2 ⟨hfits, hcs⟩)
    refine ⟨c :: l, d, e, r, ?_, hd, he, ?_⟩
    · rw [hcs, List.cons_append]
    · rw [hrest, List.cons_append, List.map_cons]
  | @stuck d c cs hd hc => exact ⟨[], d, c, cs, rfl, hd, hc, rfl⟩

end Choice

/-! ## Children that were kept -/

namespace Links

variable {L : Links} {live live' : Entity → Bool} {p c e : Entity} {kept cs : List Entity}

/-- The links while a walk over the children of a parent goes on.  The children `kept` were handed
out, and the parent still counts them.  The children `cs` are to come. -/
structure Tended (L : Links) (live : Entity → Bool) (p : Entity) (kept cs : List Entity) :
    Prop where
  /-- The null handle is not live. -/
  null_dead : live .null = false
  /-- The null handle has no neighbours. -/
  null_unlinked : L.siblings? .null = none
  /-- The parent is live. -/
  parent_live : live p = true
  /-- The parent is not to come. -/
  parent_not_mem : p ∉ cs
  /-- No child comes twice. -/
  nodup : (kept ++ cs).Nodup
  /-- The parent can count its children. -/
  room : (kept ++ cs).length < UInt64.size
  /-- The last child that was kept is linked, unless it is dead. -/
  last : ∀ d, kept.getLast? = some d →
    d ≠ .null ∧ (live d = true → (L.siblings? d).isSome = true)
  /-- The children to come are live. -/
  child_live : ∀ x ∈ cs, live x = true
  /-- The children to come name the parent. -/
  parent : ∀ x ∈ cs, L.parent? x = some ⟨p⟩
  /-- The children to come are threaded.  The first of them leads back to the last that was kept. -/
  threaded : Threaded L.siblings? (kept.getLast?.getD .null) cs .null
  /-- The parent knows the first of its children. -/
  first : L.first? p = headOf (kept ++ cs)
  /-- The parent knows the number of its children. -/
  count : L.count? p = countOf (kept ++ cs)

/-- Where links show a forest, a walk over the children of a parent may start. -/
theorem Shows.tended {F : Forest} (hF : L.Shows live F) (hnull : live .null = false)
    (hp : live p = true) (hroom : (F p).length < UInt64.size) : L.Tended live p [] (F p) where
  null_dead := hnull
  null_unlinked := hF.siblings?_null hnull
  parent_live := hp
  parent_not_mem hmem := hF.acyclic p (.single hmem)
  nodup := hF.nodup p
  room := hroom
  last := nofun
  child_live x hx := (hF.live p x hx).1
  parent _ hx := hF.parent?_eq hx
  threaded := hF.threaded p
  first := hF.first?_eq p
  count := hF.count?_eq p

namespace Tended

/-- The next child is none of those to come after it, nor the null handle. -/
theorem head_not_mem (h : L.Tended live p kept (c :: cs)) : c ∉ kept ∧ c ∉ cs ∧ c ≠ .null := by
  obtain ⟨-, hncs, hdisj⟩ := List.nodup_append.1 h.nodup
  refine ⟨fun hmem => hdisj c hmem c List.mem_cons_self rfl, (List.nodup_cons.1 hncs).1, ?_⟩
  rintro rfl
  have hlive := h.child_live _ List.mem_cons_self
  rw [h.null_dead] at hlive
  cases hlive

/-- The next child may be kept. -/
theorem keep (h : L.Tended live p kept (c :: cs)) : L.Tended live p (kept ++ [c]) cs := by
  obtain ⟨-, -, hne⟩ := h.head_not_mem
  have hsplit : kept ++ [c] ++ cs = kept ++ c :: cs := by simp
  constructor
  case null_dead => exact h.null_dead
  case null_unlinked => exact h.null_unlinked
  case parent_live => exact h.parent_live
  case parent_not_mem => exact fun hmem => h.parent_not_mem (List.mem_cons_of_mem c hmem)
  case nodup => exact hsplit ▸ h.nodup
  case room => exact hsplit ▸ h.room
  case last =>
    intro d hd
    obtain rfl : c = d := by simpa using hd
    exact ⟨hne, fun _ => h.threaded.isSome List.mem_cons_self⟩
  case child_live => exact fun x hx => h.child_live x (List.mem_cons_of_mem c hx)
  case parent => exact fun x hx => h.parent x (List.mem_cons_of_mem c hx)
  case threaded => simpa using h.threaded.2
  case first => rw [hsplit, h.first]
  case count => rw [hsplit, h.count]

/-- The next child can be removed if the last that was kept is live. -/
theorem listed (h : L.Tended live p kept (c :: cs))
    (hlast : ∀ d, kept.getLast? = some d → live d = true) : L.Listed live p c kept cs where
  null_dead := h.null_dead
  null_unlinked := h.null_unlinked
  parent_live := h.parent_live
  child_live := h.child_live c List.mem_cons_self
  parent := h.parent c List.mem_cons_self
  siblings := h.threaded.1
  before d hd := ⟨hlast d hd, (h.last d hd).2 (hlast d hd)⟩
  after d hd := by
    have hmem := List.mem_of_head? hd
    exact ⟨h.child_live d (List.mem_cons_of_mem c hmem), h.threaded.2.isSome hmem⟩
  first := h.first
  count := h.count

/-- The next child may be removed. -/
theorem remove (h : L.Tended live p kept (c :: cs)) :
    (L.remove p c kept cs).Tended live p kept cs := by
  obtain ⟨hck, hccs, hne⟩ := h.head_not_mem
  obtain ⟨hnk, hncs, hdisj⟩ := List.nodup_append.1 h.nodup
  have hlive : ∀ x ∈ cs, live x = true := fun x hx => h.child_live x (List.mem_cons_of_mem c hx)
  -- The writes to the neighbours of the child leave the other links in place.
  have hsome : ∀ x, x ≠ c →
      ((L.remove p c kept cs).siblings? x).isSome = (L.siblings? x).isSome := fun x hx =>
    (congrArg Option.isSome (Function.update_of_ne hx ..)).trans
      (isSome_setPrev.trans isSome_setNext)
  constructor
  case null_dead => exact h.null_dead
  case null_unlinked =>
    rw [← Option.not_isSome_iff_eq_none, hsome .null hne.symm, h.null_unlinked]
    simp
  case parent_live => exact h.parent_live
  case parent_not_mem => exact fun hmem => h.parent_not_mem (List.mem_cons_of_mem c hmem)
  case nodup => exact h.nodup.sublist ((List.sublist_cons_self c cs).append_left kept)
  case room =>
    have hroom := h.room
    simp only [List.length_append, List.length_cons] at hroom ⊢
    omega
  case last =>
    intro d hd
    obtain ⟨hdn, hlinked⟩ := h.last d hd
    have hdc : d ≠ c := ne_of_mem_of_not_mem (List.mem_of_getLast? hd) hck
    exact ⟨hdn, fun hdl => (hsome d hdc).trans (hlinked hdl)⟩
  case child_live => exact hlive
  case parent =>
    intro x hx
    exact (Function.update_of_ne (ne_of_mem_of_not_mem hx hccs) ..).trans
      (h.parent x (List.mem_cons_of_mem c hx))
  case threaded =>
    refine h.threaded.2.remove_head hncs fun x hx => ne_getLast?_getD (fun hxk => ?_) ?_
    · exact hdisj x hxk x (List.mem_cons_of_mem c hx) rfl
    · rintro rfl
      simpa [h.null_dead] using hlive _ hx
  case first => exact Function.update_self ..
  case count => exact Function.update_self ..

/-- An entity may be released if it is neither the parent nor to come. -/
theorem forget (h : L.Tended live p kept cs) (hp : e ≠ p) (hcs : e ∉ cs) (hdead : live' e = false)
    (hlive : ∀ x, x ≠ e → live' x = live x) : (L.forget e).Tended live' p kept cs := by
  have hne : ∀ x ∈ cs, x ≠ e := fun x hx => ne_of_mem_of_not_mem hx hcs
  constructor
  case null_dead =>
    by_cases hn : Entity.null = e
    · rw [hn, hdead]
    · rw [hlive _ hn, h.null_dead]
  case null_unlinked =>
    simp [Links.forget, Function.update_apply, h.null_unlinked]
  case parent_live => rw [hlive p hp.symm, h.parent_live]
  case parent_not_mem => exact h.parent_not_mem
  case nodup => exact h.nodup
  case room => exact h.room
  case last =>
    intro d hd
    obtain ⟨hdn, hlinked⟩ := h.last d hd
    refine ⟨hdn, fun hdl => ?_⟩
    have hde : d ≠ e := by
      rintro rfl
      simp [hdead] at hdl
    have hsame : (L.forget e).siblings? d = L.siblings? d := Function.update_of_ne hde ..
    rw [hsame]
    exact hlinked (hlive d hde ▸ hdl)
  case child_live => exact fun x hx => (hlive x (hne x hx)).trans (h.child_live x hx)
  case parent => exact fun x hx => (Function.update_of_ne (hne x hx) ..).trans (h.parent x hx)
  case threaded => exact h.threaded.congr fun x hx => Function.update_of_ne (hne x hx) ..
  case first => exact (Function.update_of_ne hp.symm ..).trans h.first
  case count => exact (Function.update_of_ne hp.symm ..).trans h.count

end Tended

end Links

/-! ## What a choice does -/

namespace Store

open Contents

variable {m m' m'' : Contents S} {t : S.Tag} {p c d : Entity} {kept cs : List Entity}
  {choice : Choice} {ε α : Type}

/-- A child that was handed out may be destroyed. -/
theorem tended_release (h : (m.links t).Tended m.live p kept cs) (hp : c ≠ p) (hcs : c ∉ cs) :
    ((m.release c).links t).Tended (m.release c).live p kept cs := by
  rw [links_release]
  exact h.forget hp hcs live_release_self fun x hx => live_release_of_ne hx

/-- A child that is not to be unlinked is kept. -/
theorem settles_carryOut_of_kept (h : (m.links t).Tended m.live p kept (c :: cs))
    (hc : choice.unlinks = false) :
    ∃ m', (choice.carryOut t p c).Settles m (.ok true) m' ∧
      (m'.links t).Tended m'.live p (kept ++ [c]) cs ∧ (m'.live c = false ↔ choice = .destroy) := by
  have hlive : m.live c = true := h.child_live c List.mem_cons_self
  obtain ⟨-, hccs, -⟩ := h.head_not_mem
  have hcp : c ≠ p := fun heq => h.parent_not_mem (heq ▸ List.mem_cons_self)
  cases choice with
  | leave => exact ⟨m, settles_pure true, h.keep, by simp [hlive]⟩
  | destroy =>
    refine ⟨m.release c, (settles_destroy_of_live hlive).bind (settles_pure true), ?_, by simp⟩
    exact tended_release h.keep hcp hccs
  | unlink => cases hc
  | unlinkThenDestroy => cases hc

/-- A child that is to be unlinked is removed if the last that was kept is live. -/
theorem settles_carryOut_of_unlinks (h : (m.links t).Tended m.live p kept (c :: cs))
    (hc : choice.unlinks = true) (hlast : ∀ d, kept.getLast? = some d → m.live d = true) :
    ∃ m', (choice.carryOut t p c).Settles m (.ok true) m' ∧
      (m'.links t).Tended m'.live p kept cs ∧
      ∀ d, kept.getLast? = some d → m'.live d = true := by
  have hlive : m.live c = true := h.child_live c List.mem_cons_self
  obtain ⟨hck, hccs, -⟩ := h.head_not_mem
  have hcp : c ≠ p := fun heq => h.parent_not_mem (heq ▸ List.mem_cons_self)
  have hremove := settles_removeChild_of_listed (t := t) (h.listed hlast) h.room
  rw [relink_links] at hremove
  let u := m.relink t ((m.links t).remove p c kept cs)
  have hu : (u.links t).Tended u.live p kept cs := by
    rw [links_relink]
    exact h.remove
  cases choice with
  | leave => cases hc
  | destroy => cases hc
  | unlink => exact ⟨u, hremove, hu, hlast⟩
  | unlinkThenDestroy =>
    have hdestroy : (destroy c).Settles u (.ok ()) (u.release c) := settles_destroy_of_live hlive
    refine ⟨u.release c, hremove.bind (hdestroy.bind (settles_pure true)), ?_, fun d hd => ?_⟩
    · exact tended_release hu hcp hccs
    · have hdc : d ≠ c := ne_of_mem_of_not_mem (List.mem_of_getLast? hd) hck
      rw [live_release_of_ne hdc]
      exact hlast d hd

/-- A child that is to be unlinked cannot be if the last that was kept is dead. -/
theorem settles_carryOut_of_dead (h : (m.links t).Tended m.live p kept (c :: cs))
    (hc : choice.unlinks = true) (hd : kept.getLast? = some d) (hdead : m.live d = false) :
    (choice.carryOut t p c).Settles m (.error (.refused (.stale d))) m := by
  have hlive : m.live c = true := h.child_live c List.mem_cons_self
  have hedge := settles_hasEdge_of_links (t := t) h.parent_live (h.parent c List.mem_cons_self)
    (by simp [h.first, headOf]) (by simp [h.count, countOf])
  rw [relink_links] at hedge
  have hlinks : m.value? c (.siblingLinks t) =
      some ({ next := cs.head?.getD .null, prev := d } : SiblingLinks) := by
    have hthread := h.threaded.1
    rwa [hd] at hthread
  have hremove : (removeChild t p c).Settles m (.error (.refused (.stale d))) m := by
    refine hedge.bind ?_
    rw [if_pos rfl]
    exact Settles.bind (settles_get_of_some hlive hlinks)
      (settles_closeBefore_of_dead (h.last d hd).1 hdead).bind_error
  cases choice with
  | leave => cases hc
  | destroy => cases hc
  | unlink => exact hremove
  | unlinkThenDestroy => exact hremove.bind_error

/-! ## The walk -/

section

variable {visitor : Entity → Entity → Action (Store S) Fault α} {a : α} {rest : Visits α}

theorem settles_handEach_cons (hc : (visitor p c).Settles m (.ok a) m')
    (hcs : (handEach p visitor cs : Action (Store S) ε _).Settles m' (.ok rest) m'') :
    (handEach p visitor (c :: cs) : Action (Store S) ε _).Settles m
      (.ok { rest with visited := (c, a) :: rest.visited }) m'' :=
  hc.attempt.bind (hcs.bind (settles_pure _))

theorem settles_handEach_cons_of_error {f : Fault} (hc : (visitor p c).Settles m (.error f) m') :
    (handEach p visitor (c :: cs) : Action (Store S) ε _).Settles m
      (.ok { failure := some f }) m' :=
  hc.attempt.bind (settles_pure _)

end

/-- The children to come are handed out, unless the first of them is to be unlinked and the last
that was kept is dead. -/
theorem settles_handEach (choice : Entity → Choice) (h : (m.links t).Tended m.live p kept cs)
    (hlast : ∀ d, kept.getLast? = some d → m.live d = false →
      ∀ c ∈ cs.head?, (choice c).unlinks = false) :
    ∃ visits m', (handEach p (fun p c => (choice c).carryOut t p c) cs :
        Action (Store S) ε _).Settles m (.ok visits) m' ∧ Choice.Outcome choice cs visits := by
  induction cs generalizing kept m with
  | nil => exact ⟨{}, m, settles_pure _, .done⟩
  | cons c cs ih =>
    by_cases hfits : ∀ d ∈ cs.head?, (choice c).Fits (choice d)
    · cases hc : (choice c).unlinks with
      | false =>
        obtain ⟨u, hstep, hu, hdead⟩ := settles_carryOut_of_kept h hc
        obtain ⟨rest, m', hrest, houtcome⟩ := ih hu fun d hd hdl => by
          obtain rfl : c = d := by simpa using hd
          exact fun e he => hfits e he (hdead.1 hdl)
        exact ⟨_, m', settles_handEach_cons hstep hrest, .step hfits houtcome⟩
      | true =>
        have hlive : ∀ d, kept.getLast? = some d → m.live d = true := fun d hd => by
          by_contra hdl
          have hnot := hlast d hd (Bool.eq_false_iff.2 hdl) c rfl
          rw [hc] at hnot
          cases hnot
        obtain ⟨u, hstep, hu, hulive⟩ := settles_carryOut_of_unlinks h hc hlive
        obtain ⟨rest, m', hrest, houtcome⟩ := ih hu fun d hd hdl => by
          rw [hulive d hd] at hdl
          cases hdl
        exact ⟨_, m', settles_handEach_cons hstep hrest, .step hfits houtcome⟩
    · -- The child is destroyed, so it is dead when the next one is to be unlinked.
      push Not at hfits
      obtain ⟨d, hd, hnot⟩ := hfits
      obtain ⟨hdestroy, hunlinks⟩ := Choice.not_fits_iff.1 hnot
      cases cs with
      | nil => cases hd
      | cons e cs =>
        obtain rfl : e = d := Option.some.inj hd
        have hkept : (choice c).unlinks = false := by
          rw [hdestroy]
          rfl
        obtain ⟨u, hstep, hu, hdead⟩ := settles_carryOut_of_kept h hkept
        have hfails := settles_carryOut_of_dead hu hunlinks List.getLast?_concat (hdead.2 hdestroy)
        exact ⟨_, u, settles_handEach_cons hstep (settles_handEach_cons_of_error hfails),
          .stuck hdestroy hunlinks⟩

end Store

/-- Wherever a disciplined history leads, a walk over the children of a live parent may choose for
each child whether it is left alone, unlinked, destroyed, or unlinked and then destroyed.  If no
child that is to be unlinked comes directly after one that is to be destroyed, then every child is
handed out and nothing fails.  Otherwise the walk ends where that happens for the first time. -/
theorem History.Leads.tends_unless_destroyed_before {s : Store S} {ε : Type} {H : History S}
    {G : Forests S} {p : Entity} (h : H.Leads s G) (t : S.Tag) (hp : s.valid p = true)
    (choice : Entity → Choice) :
    ∃ cs, s.listChildren t p = .ok cs ∧ ∀ limit, cs.length ≤ limit → ∃ visits,
      ((Store.visitChildren limit t p fun p c => (choice c).carryOut t p c :
        Action (Store S) ε _).run s).result = .ok visits ∧
      ((cs.IsChain fun d c => (choice d).Fits (choice c)) →
        visits = { visited := cs.map fun c => (c, true) }) ∧
      ((¬ cs.IsChain fun d c => (choice d).Fits (choice c)) →
        ∃ l d c r, cs = l ++ d :: c :: r ∧ choice d = .destroy ∧ (choice c).unlinks = true ∧
          visits = { visited := (l ++ [d]).map fun c => (c, true),
                     failure := some (.refused (.stale d)) }) := by
  obtain ⟨hs, hG⟩ := h.shows
  have hlist := (hG t).listChildren_eq hs (.inl hp)
  refine ⟨G t p, hlist, fun limit hlimit => ?_⟩
  have hroom := (hG t).length_lt_size (p := p) hs
  have htended := Links.Shows.tended (hG t) hs.valid_null hp (by omega)
  obtain ⟨visits, m', hsettles, houtcome⟩ := Store.settles_handEach (ε := ε) choice htended nofun
  refine ⟨visits, ?_, houtcome.of_isChain, houtcome.of_not_isChain⟩
  rw [(hG t).run_visitChildren hs (.inl hp) hlist (fun c cs => (choice c).keeps_carryOut) hlimit]
  exact (hsettles s hs rfl).1

/-- The first of four children is unlinked and destroyed, the second is left alone, the third is
unlinked and the last is destroyed. -/
theorem History.Leads.tends_unless_destroyed_before_mixed :
    ∃ (H : History Schema.sample) (s : Store Schema.sample) (G : Forests Schema.sample)
      (visits : Store.Visits Bool), H.Leads s G ∧
      s.listChildren () ⟨0, 0⟩ = .ok [⟨4, 0⟩, ⟨3, 0⟩, ⟨2, 0⟩, ⟨1, 0⟩] ∧
      visits.visited = [(⟨4, 0⟩, true), (⟨3, 0⟩, true), (⟨2, 0⟩, true), (⟨1, 0⟩, true)] ∧
      visits.failure = none := by
  have hnew : History.Leads (S := Schema.sample) _ _ _ :=
    ((((History.Leads.new.step (.call .create) trivial).step (.call .create) trivial).step
      (.call .create) trivial).step (.call .create) trivial).step (.call .create) trivial
  have hrun : History.Leads (S := Schema.sample) _ _ _ :=
    (((hnew.step (.prependChild () ⟨0, 0⟩ ⟨1, 0⟩) trivial).step
      (.prependChild () ⟨0, 0⟩ ⟨2, 0⟩) trivial).step (.prependChild () ⟨0, 0⟩ ⟨3, 0⟩) trivial).step
      (.prependChild () ⟨0, 0⟩ ⟨4, 0⟩) trivial
  obtain ⟨cs, hcs, hwalk⟩ := hrun.tends_unless_destroyed_before (ε := Fault) (p := ⟨0, 0⟩) () rfl
    fun c =>
      if c = ⟨4, 0⟩ then .unlinkThenDestroy
      else if c = ⟨3, 0⟩ then .leave
      else if c = ⟨2, 0⟩ then .unlink
      else .destroy
  obtain rfl : [⟨4, 0⟩, ⟨3, 0⟩, ⟨2, 0⟩, ⟨1, 0⟩] = cs := Except.ok.inj hcs
  obtain ⟨visits, -, hfit, -⟩ := hwalk 4 (by decide)
  have hvisits := hfit (by decide)
  exact ⟨_, _, _, visits, hrun, hcs, congrArg _ hvisits, congrArg _ hvisits⟩

/-- The first of two children is destroyed, and then the second cannot be unlinked. -/
theorem History.Leads.not_tends_each :
    ∃ (H : History Schema.sample) (s : Store Schema.sample) (G : Forests Schema.sample),
      H.Leads s G ∧ s.valid ⟨0, 0⟩ = true ∧
      s.listChildren () ⟨0, 0⟩ = .ok [⟨2, 0⟩, ⟨1, 0⟩] ∧
      ((Store.visitChildren 2 () ⟨0, 0⟩ fun p c =>
        (if c = ⟨2, 0⟩ then Choice.destroy else .unlink).carryOut () p c :
        Action (Store Schema.sample) Fault _).run s).result =
        .ok { visited := [(⟨2, 0⟩, true)], failure := some (.refused (.stale ⟨2, 0⟩)) } := by
  have hrun : History.Leads (S := Schema.sample) _ _ _ :=
    ((((History.Leads.new.step (.call .create) trivial).step (.call .create) trivial).step
      (.call .create) trivial).step (.prependChild () ⟨0, 0⟩ ⟨1, 0⟩) trivial).step
      (.prependChild () ⟨0, 0⟩ ⟨2, 0⟩) trivial
  refine ⟨_, _, _, hrun, rfl, rfl, ?_⟩
  obtain ⟨hs, hG⟩ := hrun.shows
  have hlist := (hG ()).listChildren_eq (p := ⟨0, 0⟩) hs (.inl rfl)
  have hcs := hlist.trans (rfl : _ = Except.ok ([⟨2, 0⟩, ⟨1, 0⟩] : List Entity))
  rw [(hG ()).run_visitChildren hs (.inl rfl) hcs (fun c cs => Choice.keeps_carryOut _) (by decide)]
  rfl

end EntityStore
