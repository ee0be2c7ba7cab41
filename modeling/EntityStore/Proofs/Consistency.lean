import EntityStore.Proofs.Histories

/-!
# Agreement of the questions

The answers about a hierarchy come from four kinds of links on different entities: the parent of a
child, its neighbours, the first child of a parent and the number of its children.  Wherever a
disciplined history leads, all of them can be read off one list of children a parent
(`Store.Concordant`).

A walk goes along that list.  Its place is determined by the children that still come
(`Children.before`), and so are the bounds that it gives on their number.
-/

namespace EntityStore

variable {S : Schema}

/-- The place before some children, which are the last ones of a list. -/
def Children.before (cs : List Entity) : Children := ⟨cs.head?.getD .null, cs.length⟩

namespace Trail

variable {α : Type} {next : α → Option α} {a b z : α} {as : List α}

theorem start_eq (h : Trail next a as z) : a = as.head?.getD z := by
  cases h with
  | last => rfl
  | step => rfl

/-- A trail through an element goes on to the one that is listed after it. -/
theorem of_cons (h : Trail next b (a :: as) z) :
    next a = some (as.head?.getD z) ∧ Trail next (as.head?.getD z) as z := by
  cases h with
  | step hab rest =>
    obtain rfl := rest.start_eq
    exact ⟨hab, rest⟩

end Trail

namespace Store

variable {H : History S} {s : Store S} {G : Forests S} {t : S.Tag} {F : Forest} {c p : Entity}
  {cs : List Entity} {w w' : Children} {j k : Nat}

/-- The place on the children of a parent after a number of steps. -/
def placeAfter (s : Store S) (t : S.Tag) (p : Entity) : Nat → Except Fault Children
  | 0 => s.children t p
  | k + 1 => do
    let w ← s.placeAfter t p k
    let (_, w') ← s.nextChild t w
    pure w'

/-- What a place shows of the children that still come. -/
structure Foretells (s : Store S) (t : S.Tag) (p : Entity) (w : Children)
    (cs : List Entity) : Prop where
  /-- A walk from the place on finds them. -/
  rest : s.listFrom t p (s.listBound t) w = .ok cs
  /-- The next step finds the first of them, and nothing if there are none. -/
  next : ∃ w', s.nextChild t w = .ok (cs.head?, w')
  lower : w.sizeHint.1 ≤ cs.length
  upper : w.sizeHint.2 = cs.length

/-- All answers about a parent agree with one list of children. -/
structure Concordant (s : Store S) (t : S.Tag) (p : Entity) (cs : List Entity) : Prop where
  list : s.listChildren t p = .ok cs
  count : ∃ n, s.childCount t p = .ok n ∧ n.toNat = cs.length
  head : s.firstChildOf? t p = .ok cs.head?
  isParent : s.isParent t p = .ok (decide (cs ≠ []))
  edge : ∀ c, s.Askable c →
    s.isChildOf t p c = .ok (decide (c ∈ cs)) ∧ s.hasChild t p c = .ok (decide (c ∈ cs)) ∧
    ∃ o, s.parentOf? t c = .ok o ∧ (o = some p ↔ c ∈ cs) ∧ s.isChild t c = .ok o.isSome
  /-- After any number of steps, the place shows the rest of the list. -/
  walk : ∀ k, ∃ w, s.placeAfter t p k = .ok w ∧ s.Foretells t p w (cs.drop k)
  /-- A walk that came to its end stays there. -/
  fused : ∀ j k w w', j ≤ k → s.placeAfter t p j = .ok w → s.placeAfter t p k = .ok w' →
    (∃ v, s.nextChild t w = .ok (none, v)) → ∃ v, s.nextChild t w' = .ok (none, v)

/-! ## Places -/

theorem sizeHint_before (hne : ∀ x ∈ cs, x ≠ .null) :
    (Children.before cs).sizeHint = (min cs.length 1, cs.length) := by
  cases cs with
  | nil => rfl
  | cons c cs =>
    have hc : Entity.isNull c = false := by
      simpa [Entity.isNull] using hne c List.mem_cons_self
    simp [Children.before, Children.sizeHint, hc]

/-- A step leads to the place before the rest of the children. -/
theorem Sound.nextChild_before (h : s.Sound)
    (htrail : Trail (s.contents.links t).nextOf? (cs.head?.getD .null) cs .null) :
    s.nextChild t (.before cs) = .ok (cs.head?, .before cs.tail) := by
  cases cs with
  | nil => exact nextChild_null rfl
  | cons c cs => exact h.nextChild_eq htrail.of_cons.1

theorem Sound.foretells_before (h : s.Sound)
    (htrail : Trail (s.contents.links t).nextOf? (cs.head?.getD .null) cs .null)
    (hlen : cs.length < s.listBound t) (hne : ∀ x ∈ cs, x ≠ .null) :
    s.Foretells t p (.before cs) cs where
  rest := h.listFrom_eq (w := .before cs) htrail h.valid_null hlen
  next := ⟨_, h.nextChild_before htrail⟩
  lower := by rw [sizeHint_before hne]; exact Nat.min_le_left _ _
  upper := by rw [sizeHint_before hne]

namespace Shows

/-- What is left of the list of children is a trail to the null handle. -/
theorem trail_drop (hF : s.Shows t F) (h : s.Sound) (p : Entity) (k : Nat) :
    Trail (s.contents.links t).nextOf? (((F p).drop k).head?.getD .null) ((F p).drop k) .null := by
  induction k with
  | zero => exact hF.trail h p
  | succ k ih =>
    rw [← List.tail_drop]
    generalize (F p).drop k = cs at ih ⊢
    cases cs with
    | nil => exact ih
    | cons c cs => exact ih.of_cons.2

theorem placeAfter_eq (hF : s.Shows t F) (h : s.Sound) (hp : s.Askable p) (k : Nat) :
    s.placeAfter t p k = .ok (.before ((F p).drop k)) := by
  induction k with
  | zero =>
    have hroom := hF.length_lt_size h (p := p)
    rw [placeAfter, hF.children_eq h hp, UInt64.toNat_ofNat_of_lt' (by omega)]
    rfl
  | succ k ih =>
    rw [placeAfter, ih, ← List.tail_drop]
    change (s.nextChild t _ >>= _) = _
    rw [h.nextChild_before (hF.trail_drop h p k)]
    rfl

theorem foretells (hF : s.Shows t F) (h : s.Sound) (p : Entity) (k : Nat) :
    s.Foretells t p (.before ((F p).drop k)) ((F p).drop k) := by
  have hsub : (F p).drop k ⊆ F p := List.drop_subset k (F p)
  refine h.foretells_before (hF.trail_drop h p k) ?_ fun x hx => (hF.live_ne_null h x (hsub hx)).1
  exact Nat.lt_of_le_of_lt (by simp) (hF.length_lt_listBound h (p := p))

/-- Where the links of a tag show a forest, all answers about a parent agree with the list that the
forest has for it. -/
theorem concordant (hF : s.Shows t F) (h : s.Sound) (hp : s.Askable p) :
    s.Concordant t p (F p) where
  list := hF.listChildren_eq h hp
  count := by
    have hroom := hF.length_lt_size h (p := p)
    exact ⟨_, hF.childCount_eq h hp, UInt64.toNat_ofNat_of_lt' (by omega)⟩
  head := hF.firstChildOf?_eq h hp
  isParent := hF.isParent_eq h hp
  edge c hc := by
    obtain ⟨o, ho, hiff⟩ := hF.exists_parentOf? h hc
    refine ⟨hF.isChildOf_eq h hc, hF.hasChild_eq h hp, o, ho, hiff p, ?_⟩
    rw [h.parentOf?_eq hc, Except.ok.injEq] at ho
    rw [hF.isChild_eq h hc, ← ho, Option.isSome_map]
  walk k := ⟨_, hF.placeAfter_eq h hp k, hF.foretells h p k⟩
  fused j k w w' hjk hw hw' hend := by
    rw [hF.placeAfter_eq h hp, Except.ok.injEq] at hw hw'
    subst hw hw'
    obtain ⟨v, hv⟩ := hend
    rw [h.nextChild_before (hF.trail_drop h p j), Except.ok.injEq, Prod.mk.injEq,
      List.head?_eq_none_iff, List.drop_eq_nil_iff] at hv
    have hnil : (F p).drop k = [] := List.drop_eq_nil_iff.2 (Nat.le_trans hv.1 hjk)
    obtain ⟨v', hv'⟩ := (hF.foretells h p k).next
    exact ⟨v', by rw [hv', hnil]; rfl⟩

end Shows

end Store

/-- Wherever a disciplined history leads, all questions about a parent agree with one list of its
children: the links up, the walk along the list, the first child, the number and the presence of
links, and each place of a walk, for all live or null handles. -/
theorem History.Leads.questions_agree {H : History S} {s : Store S} {G : Forests S}
    (h : H.Leads s G) (t : S.Tag) {p : Entity} (hp : s.Askable p) :
    ∃ cs, s.Concordant t p cs :=
  ⟨G t p, (h.shows.2 t).concordant h.shows.1 hp⟩

/-- Three children are linked under a parent, and the second of them leaves again. -/
theorem History.Leads.questions_agree_siblings :
    ∃ (H : History Schema.sample) (s : Store Schema.sample) (G : Forests Schema.sample),
      H.Leads s G ∧ s.Askable ⟨0, 0⟩ ∧ s.listChildren () ⟨0, 0⟩ = .ok [⟨3, 0⟩, ⟨1, 0⟩] ∧
      ∃ cs, s.Concordant () ⟨0, 0⟩ cs := by
  have hrun : History.Leads (S := Schema.sample) _ _ _ :=
    (((((((History.Leads.new.step (.call .create) trivial).step (.call .create) trivial).step
      (.call .create) trivial).step (.call .create) trivial).step
      (.prependChild () ⟨0, 0⟩ ⟨1, 0⟩) trivial).step
      (.prependChild () ⟨0, 0⟩ ⟨2, 0⟩) trivial).step
      (.prependChild () ⟨0, 0⟩ ⟨3, 0⟩) trivial).step (.removeChild () ⟨0, 0⟩ ⟨2, 0⟩) trivial
  exact ⟨_, _, _, hrun, .inl rfl, rfl, hrun.questions_agree () (.inl rfl)⟩

end EntityStore
