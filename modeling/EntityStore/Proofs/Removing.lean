import EntityStore.Proofs.Histories
import EntityStore.Proofs.Rosters

/-!
# What a removal changes

The removal of a child from a parent answers whether there is such an edge.  If there is none, the
store stays exactly as it was.  If there is one, the removal writes to a few places
(`Store.Written`): both links of the child, the links that lead to it from its neighbours, or from
the parent where it is the first child, and the number of children.  `Store.Removed` says what it
leaves there, and that everything else is kept.
-/

namespace EntityStore

open Relation

variable {S : Schema}

/-! ## Links of the neighbours -/

namespace Links

variable {L : Links} {p c x : Entity} {l r : List Entity}

theorem siblings?_remove (hc : x ≠ c) : (L.remove p c l r).siblings? x =
    setPrev (setNext L.siblings? (l.getLast?.getD .null) (r.head?.getD .null))
      (r.head?.getD .null) (l.getLast?.getD .null) x := Function.update_of_ne hc ..

/-- Only the child and its neighbours have other neighbours after a removal. -/
theorem siblings?_remove_of_ne (hnull : L.siblings? .null = none) (hc : x ≠ c)
    (hl : l.getLast?.getD .null ≠ .null → x ≠ l.getLast?.getD .null)
    (hr : r.head?.getD .null ≠ .null → x ≠ r.head?.getD .null) :
    (L.remove p c l r).siblings? x = L.siblings? x := by
  rw [siblings?_remove hc]
  by_cases hx : x = .null
  · rw [hx, hnull, ← Option.not_isSome_iff_eq_none, isSome_setPrev, isSome_setNext, hnull]
    exact Bool.false_ne_true
  · rw [setPrev_of_ne fun h => hr (ne_of_eq_of_ne h.symm hx) h,
      setNext_of_ne fun h => hl (ne_of_eq_of_ne h.symm hx) h]

/-- The child before one that is removed is led on. -/
theorem siblings?_remove_last (hn : (l ++ c :: r).Nodup) (hnull : l.getLast?.getD .null ≠ .null) :
    (L.remove p c l r).siblings? (l.getLast?.getD .null) =
      (L.siblings? (l.getLast?.getD .null)).map fun v => { v with next := r.head?.getD .null } := by
  obtain ⟨-, -, hdisj⟩ := List.nodup_append.1 hn
  have hmem : l.getLast?.getD .null ∈ l := getLast?_getD_mem_of_ne hnull
  have hc : l.getLast?.getD .null ≠ c := hdisj _ hmem c List.mem_cons_self
  have hr : l.getLast?.getD .null ≠ r.head?.getD .null :=
    ne_head?_getD (fun hr => hdisj _ hmem _ (List.mem_cons_of_mem c hr) rfl) hnull
  rw [siblings?_remove hc, setPrev_of_ne hr, setNext, Function.update_self]

/-- The child after one that is removed is led back. -/
theorem siblings?_remove_head (hn : (l ++ c :: r).Nodup) (hnull : r.head?.getD .null ≠ .null) :
    (L.remove p c l r).siblings? (r.head?.getD .null) =
      (L.siblings? (r.head?.getD .null)).map fun v => { v with prev := l.getLast?.getD .null } := by
  obtain ⟨-, hncr, hdisj⟩ := List.nodup_append.1 hn
  have hmem : r.head?.getD .null ∈ r := head?_getD_mem_of_ne hnull
  have hc : r.head?.getD .null ≠ c := ne_of_mem_of_not_mem hmem (List.nodup_cons.1 hncr).1
  have hl : r.head?.getD .null ≠ l.getLast?.getD .null :=
    ne_getLast?_getD (fun hl => hdisj _ hl _ (List.mem_cons_of_mem c hmem) rfl) hnull
  rw [siblings?_remove hc, setPrev, Function.update_self, setNext_of_ne hl]

namespace Listed

variable {live : Entity → Bool}

/-- The child before one that is removed is led on to the one after it. -/
theorem exists_last (h : L.Listed live p c l r) (hn : (l ++ c :: r).Nodup)
    (hnull : l.getLast?.getD .null ≠ .null) :
    ∃ w : SiblingLinks, L.siblings? (l.getLast?.getD .null) = some w ∧
      (L.remove p c l r).siblings? (l.getLast?.getD .null) =
        some { w with next := r.head?.getD .null } := by
  obtain ⟨-, -, hsome⟩ := h.last (List.ne_nil_of_mem (getLast?_getD_mem_of_ne hnull))
  obtain ⟨w, hw⟩ := Option.isSome_iff_exists.1 hsome
  exact ⟨w, hw, by rw [siblings?_remove_last hn hnull, hw]; rfl⟩

/-- The child after one that is removed is led back to the one before it. -/
theorem exists_head (h : L.Listed live p c l r) (hn : (l ++ c :: r).Nodup)
    (hnull : r.head?.getD .null ≠ .null) :
    ∃ w : SiblingLinks, L.siblings? (r.head?.getD .null) = some w ∧
      (L.remove p c l r).siblings? (r.head?.getD .null) =
        some { w with prev := l.getLast?.getD .null } := by
  have hne : r ≠ [] := List.ne_nil_of_mem (head?_getD_mem_of_ne hnull)
  have hhead : r.head? = some (r.head?.getD .null) := by rw [List.head?_eq_some_head hne]; rfl
  obtain ⟨w, hw⟩ := Option.isSome_iff_exists.1 (h.after _ hhead).2
  exact ⟨w, hw, by rw [siblings?_remove_head hn hnull, hw]; rfl⟩

end Listed

end Links

/-- One child less is counted. -/
theorem exists_countOf {c : Entity} {l r : List Entity} (h : l ++ r ≠ []) :
    ∃ k : ChildCount, countOf (l ++ c :: r) = some k ∧ countOf (l ++ r) = some ⟨k.size - 1⟩ := by
  refine ⟨⟨UInt64.ofNat ((l ++ r).length + 1)⟩, ?_, ?_⟩
  · rw [countOf, if_neg (by simp)]
    simp [Nat.add_assoc]
  · rw [countOf, if_neg h, Store.ofNat_succ_sub_one]

/-! ## What is written -/

namespace Store

variable {s s' : Store S} {t : S.Tag} {F : Forest} {c p x : Entity} {v : SiblingLinks}
  {d : Component S} {l r : List Entity}

/-- The places that the removal of a child with the neighbours `v` writes to. -/
inductive Written (t : S.Tag) (p c : Entity) (v : SiblingLinks) : Entity → Component S → Prop where
  /-- The child loses its parent. -/
  | parent : Written t p c v c (.parentLink t)
  /-- The child loses its neighbours. -/
  | siblings : Written t p c v c (.siblingLinks t)
  /-- The child before it is led on. -/
  | before (h : v.prev ≠ .null) : Written t p c v v.prev (.siblingLinks t)
  /-- The child after it is led back. -/
  | after (h : v.next ≠ .null) : Written t p c v v.next (.siblingLinks t)
  /-- The parent has another first child. -/
  | first (h : v.prev = .null) : Written t p c v p (.firstChild t)
  /-- The parent has one child less. -/
  | count : Written t p c v p (.childCount t)

/-- A child with the neighbours `v` was removed from a parent. -/
structure Removed (t : S.Tag) (p c : Entity) (v : SiblingLinks) (s s' : Store S) : Prop where
  /-- The neighbours of the child are those that it had in the list of children. -/
  neighbours : ∃ l r, s.listChildren t p = .ok (l ++ c :: r) ∧
    s'.listChildren t p = .ok (l ++ r) ∧ v = ⟨r.head?.getD .null, l.getLast?.getD .null⟩
  parent : s'.lookup? c (.parentLink t) = none
  siblings : s'.lookup? c (.siblingLinks t) = none
  before : v.prev ≠ .null → ∃ w : SiblingLinks, s.lookup? v.prev (.siblingLinks t) = some w ∧
    s'.lookup? v.prev (.siblingLinks t) = some { w with next := v.next }
  after : v.next ≠ .null → ∃ w : SiblingLinks, s.lookup? v.next (.siblingLinks t) = some w ∧
    s'.lookup? v.next (.siblingLinks t) = some { w with prev := v.prev }
  /-- The parent loses both links exactly with its only child. -/
  first_gone : s'.lookup? p (.firstChild t) = none ↔ s.listChildren t p = .ok [c]
  count_gone : s'.lookup? p (.childCount t) = none ↔ s.listChildren t p = .ok [c]
  first : v.prev = .null → s.listChildren t p ≠ .ok [c] →
    s'.lookup? p (.firstChild t) = some (⟨v.next⟩ : FirstChild)
  count : s.listChildren t p ≠ .ok [c] → ∃ k : ChildCount,
    s.lookup? p (.childCount t) = some k ∧
    s'.lookup? p (.childCount t) = some (⟨k.size - 1⟩ : ChildCount)
  /-- All other values are kept. -/
  kept : ∀ x d, ¬ Written t p c v x d → s'.lookup? x d = s.lookup? x d
  /-- The child keeps its own children. -/
  own : ∀ d, d ≠ .parentLink t → d ≠ .siblingLinks t → s'.lookup? c d = s.lookup? c d
  offspring : ∀ x, s.parentOf? t x = .ok (some c) → ∀ d, s'.lookup? x d = s.lookup? x d
  /-- No pool comes or goes, and the slots and the pools of other components are the same. -/
  confined : s.Confined t s'

/-! ## What is left -/

namespace Shows

/-- A listed child is removed by a change of the links only. -/
theorem run_removeChild (hF : s.Shows t F) (h : s.Sound) (hsplit : F p = l ++ c :: r) :
    let removed := (removeChild t p c).run s
    removed.result = .ok true ∧ removed.state.Sound ∧
      removed.state.contents = s.contents.relink t ((s.contents.links t).remove p c l r) := by
  have hroom := hF.length_lt_size (p := p) h
  rw [hsplit] at hroom
  have hlisted : (s.contents.links t).Listed s.contents.live p c l r :=
    Links.Shows.listed hF h.valid_null hsplit
  obtain ⟨hr, hs, hm⟩ := settles_removeChild_of_listed (m := s.contents) (t := t) hlisted (by omega)
    s h Contents.relink_links.symm
  exact ⟨hr, hs.state, hm⟩

end Shows

/-- The places that a removal writes to are at the child, at other children and at the parent. -/
theorem Written.cases (h : Written t p c ⟨r.head?.getD .null, l.getLast?.getD .null⟩ x d) :
    x = c ∧ (d = .parentLink t ∨ d = .siblingLinks t) ∨ x ∈ l ++ r ∨ x = p := by
  cases h with
  | parent => exact .inl ⟨rfl, .inl rfl⟩
  | siblings => exact .inl ⟨rfl, .inr rfl⟩
  | before hne => exact .inr (.inl (List.mem_append_left r (getLast?_getD_mem_of_ne hne)))
  | after hne => exact .inr (.inl (List.mem_append_right l (head?_getD_mem_of_ne hne)))
  | first _ => exact .inr (.inr rfl)
  | count => exact .inr (.inr rfl)

/-- A removal writes to no other places. -/
theorem value?_remove_of_not_written {m : Contents S}
    (hnull : (m.links t).siblings? .null = none)
    (hfirst : (m.links t).first? p = headOf (l ++ c :: r))
    (hx : ¬ Written t p c ⟨r.head?.getD .null, l.getLast?.getD .null⟩ x d) :
    (m.relink t ((m.links t).remove p c l r)).value? x d = m.value? x d := by
  by_cases hd : OfTag t d
  · cases d with
    | data d => cases hd
    | mark k => cases hd
    | parentLink u =>
      obtain rfl : u = t := Option.some.inj hd
      have hc : x ≠ c := by rintro rfl; exact hx .parent
      exact Contents.parentLink_relink.trans (Function.update_of_ne hc ..)
    | siblingLinks u =>
      obtain rfl : u = t := Option.some.inj hd
      have hc : x ≠ c := by rintro rfl; exact hx .siblings
      refine Contents.siblingLinks_relink.trans (Links.siblings?_remove_of_ne hnull hc ?_ ?_)
      · rintro hl rfl
        exact hx (.before hl)
      · rintro hr rfl
        exact hx (.after hr)
    | firstChild u =>
      obtain rfl : u = t := Option.some.inj hd
      refine Contents.firstChild_relink.trans ?_
      by_cases hp : x = p
      · subst hp
        cases l with
        | nil => exact absurd (.first rfl) hx
        | cons a l => -- the list keeps its head
          exact (Function.update_self ..).trans hfirst.symm
      · exact Function.update_of_ne hp ..
    | childCount u =>
      obtain rfl : u = t := Option.some.inj hd
      have hp : x ≠ p := by rintro rfl; exact hx .count
      exact Contents.childCount_relink.trans (Function.update_of_ne hp ..)
  · exact Contents.value?_relink_of_tag hd

namespace Shows

/-- The parent that an entity answers with is the one that lists it. -/
theorem parentOf?_eq_ok_iff (hF : s.Shows t F) (h : s.Sound) :
    s.parentOf? t x = .ok (some p) ↔ x ∈ F p := by
  by_cases hx : s.Askable x
  · obtain ⟨o, ho, hiff⟩ := hF.exists_parentOf? h hx
    rw [ho, Except.ok.injEq, hiff]
  · rw [parentOf?_of_not_askable hx]
    exact iff_of_false nofun fun hmem => hx (.inl (hF.valid hmem).1)

/-- The children after a removal. -/
theorem remove_apply (hF : s.Shows t F) (hsplit : F p = l ++ c :: r) : F.remove p c p = l ++ r := by
  have hn := Links.Shows.nodup hF p
  rw [hsplit] at hn
  have hc : c ∉ l := fun hc => (List.nodup_append.1 hn).2.2 c hc c List.mem_cons_self rfl
  rw [Forest.remove, Forest.set_self, hsplit, List.erase_append_right _ hc, List.erase_cons_head]

/-- Neither the child that is removed nor its own children are other children of its parent, nor the
parent itself. -/
theorem not_written (hF : s.Shows t F) (hsplit : F p = l ++ c :: r)
    (hx : x = c ∧ d ≠ .parentLink t ∧ d ≠ .siblingLinks t ∨ x ∈ F c) :
    ¬ Written t p c ⟨r.head?.getD .null, l.getLast?.getD .null⟩ x d := by
  have hmem : c ∈ F p := by simp [hsplit]
  have hn : (c :: (l ++ r)).Nodup :=
    List.nodup_middle.1 (hsplit ▸ Links.Shows.nodup hF p)
  have hothers : ∀ x ∈ l ++ r, x ∈ F p := fun x hx => by
    rw [hsplit]
    exact List.perm_middle.mem_iff.2 (List.mem_cons_of_mem c hx)
  have hacyclic := Links.Shows.acyclic hF
  have hne : p ≠ c := by
    rintro rfl
    exact hacyclic p (.single hmem)
  intro hwritten
  rcases hx with ⟨rfl, hparent, hsiblings⟩ | hx
  · rcases hwritten.cases with ⟨-, rfl | rfl⟩ | hin | rfl
    · exact hparent rfl
    · exact hsiblings rfl
    · exact (List.nodup_cons.1 hn).1 hin
    · exact hne rfl
  · rcases hwritten.cases with ⟨rfl, -⟩ | hin | rfl
    · exact hacyclic x (.single hx)
    · exact hne (Links.Shows.eq_of_mem hF (hothers x hin) hx)
    · exact hacyclic x (.tail (.single hx) hmem)

/-- The removal of a listed child changes what it should. -/
theorem removed (hF : s.Shows t F) (h : s.Sound) (hsplit : F p = l ++ c :: r) :
    s.Removed t p c ⟨r.head?.getD .null, l.getLast?.getD .null⟩
      ((removeChild t p c).run s).state := by
  obtain ⟨-, hs', hm⟩ := hF.run_removeChild h hsplit
  have hconfined := confined_of_lifts (lifts_removeChild t p c s)
  -- The rest needs only what the state that is left holds.
  generalize ((removeChild t p c).run s).state = s' at *
  have hlisted : (s.contents.links t).Listed s.contents.live p c l r :=
    Links.Shows.listed hF h.valid_null hsplit
  have hn : (l ++ c :: r).Nodup := hsplit ▸ Links.Shows.nodup hF p
  have hp : s.Askable p := .inl hlisted.parent_live
  have hp' : s'.Askable p := askable_of_contents hm (.inl hlisted.parent_live)
  have hlist : s.listChildren t p = .ok (l ++ c :: r) := hsplit ▸ hF.listChildren_eq h hp
  have hF' : s'.Shows t (F.remove p c) :=
    shows_of_contents hm (Links.Shows.remove hF h.valid_null hsplit)
  have hlinks : s'.contents.links t = (s.contents.links t).remove p c l r := by
    rw [hm, Contents.links_relink]
  have honly : s.listChildren t p = .ok [c] ↔ l ++ r = [] := by
    rw [hlist]
    cases l <;> simp
  have hkept : ∀ x d, ¬ Written t p c ⟨r.head?.getD .null, l.getLast?.getD .null⟩ x d →
      s'.lookup? x d = s.lookup? x d := fun x d hx => by
    have hvalue := value?_remove_of_not_written hlisted.null_unlinked hlisted.first hx
    rwa [← hm] at hvalue
  have hsiblings : ∀ x, s'.lookup? x (.siblingLinks t) =
      ((s.contents.links t).remove p c l r).siblings? x := fun x => by rw [← hlinks]; rfl
  have hrest : F.remove p c p = l ++ r := hF.remove_apply hsplit
  have hfirst : s'.lookup? p (.firstChild t) = headOf (l ++ r) := hrest ▸ hF'.first?_eq
  have hcount : s'.lookup? p (.childCount t) = countOf (l ++ r) := hrest ▸ hF'.count?_eq
  constructor
  case neighbours =>
    exact ⟨l, r, hlist, hrest ▸ hF'.listChildren_eq hs' hp', rfl⟩
  case parent =>
    change (s'.contents.links t).parent? c = none
    rw [hlinks]
    exact Function.update_self ..
  case siblings =>
    rw [hsiblings]
    exact Function.update_self ..
  case before =>
    intro hnull
    rw [hsiblings]
    exact hlisted.exists_last hn hnull
  case after =>
    intro hnull
    rw [hsiblings]
    exact hlisted.exists_head hn hnull
  case first_gone => rw [hfirst, headOf_eq_none_iff, honly]
  case count_gone => rw [hcount, countOf_eq_none_iff, honly]
  case first =>
    intro hnull hmany
    obtain rfl : l = [] := by
      by_contra hne
      exact (hlisted.last hne).1 hnull
    rw [hfirst]
    exact headOf_of_ne_nil (mt honly.2 hmany)
  case count =>
    intro hmany
    rw [hcount]
    obtain ⟨k, hk, hk'⟩ := exists_countOf (c := c) (mt honly.2 hmany)
    exact ⟨k, hlisted.count.trans hk, hk'⟩
  case kept => exact hkept
  case own =>
    exact fun d hd hd' => hkept c d (hF.not_written hsplit (.inl ⟨rfl, hd, hd'⟩))
  case offspring =>
    exact fun x hx d => hkept x d (hF.not_written hsplit (.inr ((hF.parentOf?_eq_ok_iff h).1 hx)))
  case confined => exact hconfined

end Shows

/-- Where there is no edge, nothing is written. -/
theorem run_removeChild_of_not_edge (hedge : s.hasEdge t p c = .ok false) :
    (removeChild t p c).run s = ⟨.ok false, s, []⟩ := by
  simp [removeChild, Action.run_bind, hedge]

end Store

/-- Wherever a disciplined history leads, the removal of a child from a parent, both live or null,
does not fail.  It answers no exactly if the child has not this parent, and then it leaves the store
exactly as it was.  If it answers yes, it has written only to the links of the child, the links of
its neighbours or of the parent that lead to it, and the number of children. -/
theorem History.Leads.removal_exact {H : History S} {s : Store S} {G : Forests S}
    (h : H.Leads s G) (t : S.Tag) {p c : Entity} (hp : s.Askable p) (hc : s.Askable c) :
    let removed := (Store.removeChild t p c).run s
    ∃ b o, removed.result = .ok b ∧ s.parentOf? t c = .ok o ∧ (b = false ↔ o ≠ some p) ∧
      (b = false → removed.state = s) ∧
      (b = true → ∃ v : SiblingLinks, s.lookup? c (.siblingLinks t) = some v ∧
        s.Removed t p c v removed.state) := by
  obtain ⟨hs, hG⟩ := h.shows
  have hF := hG t
  obtain ⟨o, ho, hiff⟩ := hF.exists_parentOf? hs hc
  intro removed
  by_cases hmem : c ∈ G t p
  · obtain ⟨l, r, hsplit⟩ := List.append_of_mem hmem
    have hlisted := Links.Shows.listed hF hs.valid_null hsplit
    exact ⟨true, o, (hF.run_removeChild hs hsplit).1, ho, by simp [(hiff p).2 hmem], nofun,
      fun _ => ⟨_, hlisted.siblings, hF.removed hs hsplit⟩⟩
  · have hedge : s.hasEdge t p c = .ok false := by
      rw [hF.hasEdge_eq hs, Forest.hasEdge_of_askable hs.valid_null (fun _ _ => hF.valid) hp hc,
        decide_eq_false hmem]
    have hrun : removed = ⟨.ok false, s, []⟩ := Store.run_removeChild_of_not_edge hedge
    exact ⟨false, o, congrArg Outcome.result hrun, ho, by simp [hiff p, hmem],
      fun _ => congrArg Outcome.state hrun, nofun⟩

/-- The second of three children leaves and keeps its own child, from which it cannot be removed. -/
theorem History.Leads.removal_exact_middle :
    ∃ (H : History Schema.sample) (s : Store Schema.sample) (G : Forests Schema.sample),
      H.Leads s G ∧ s.Askable ⟨0, 0⟩ ∧ s.Askable ⟨2, 0⟩ ∧
      s.listChildren () ⟨0, 0⟩ = .ok [⟨3, 0⟩, ⟨2, 0⟩, ⟨1, 0⟩] ∧
      s.listChildren () ⟨2, 0⟩ = .ok [⟨4, 0⟩] ∧
      s.Removed () ⟨0, 0⟩ ⟨2, 0⟩ ⟨⟨1, 0⟩, ⟨3, 0⟩⟩
        ((Store.removeChild () ⟨0, 0⟩ ⟨2, 0⟩).run s).state ∧
      ((Store.removeChild () ⟨4, 0⟩ ⟨2, 0⟩).run s).state = s := by
  have hrun : History.Leads (S := Schema.sample) _ _ _ :=
    (((((((((History.Leads.new.step (.call .create) trivial).step (.call .create) trivial).step
      (.call .create) trivial).step (.call .create) trivial).step (.call .create) trivial).step
      (.prependChild () ⟨0, 0⟩ ⟨1, 0⟩) trivial).step
      (.prependChild () ⟨0, 0⟩ ⟨2, 0⟩) trivial).step
      (.prependChild () ⟨0, 0⟩ ⟨3, 0⟩) trivial).step
      (.prependChild () ⟨2, 0⟩ ⟨4, 0⟩) trivial)
  obtain ⟨b, -, hr, -, -, -, hyes⟩ :=
    hrun.removal_exact () (p := ⟨0, 0⟩) (c := ⟨2, 0⟩) (.inl rfl) (.inl rfl)
  obtain ⟨b', -, hr', -, -, hno, -⟩ :=
    hrun.removal_exact () (p := ⟨4, 0⟩) (c := ⟨2, 0⟩) (.inl rfl) (.inl rfl)
  obtain rfl : true = b := Except.ok.inj hr
  obtain rfl : false = b' := Except.ok.inj hr'
  obtain ⟨v, hv, hremoved⟩ := hyes rfl
  obtain rfl : ⟨⟨1, 0⟩, ⟨3, 0⟩⟩ = v := Option.some.inj hv
  exact ⟨_, _, _, hrun, .inl rfl, .inl rfl, rfl, rfl, hremoved, hno rfl⟩

end EntityStore
