import EntityStore.Proofs.Roaming

/-!
# When a child can be linked

A new first child is written in six steps, each of which could fail.  After a roaming history only
the first can: the old first child may be dead, and it is asked for before anything is written.  The
last step, which counts the child, could fail only if the number of children were too great to go
up.

The number that is recorded for a parent may be greater than the number of its children, since
children that are destroyed are still counted.  But each of them has a handle of its own, which is
past (`Links.Tallied`), and there are fewer handles than the greatest number
(`Entity.length_le_of_index_lt`).  So a new child is refused for one of six reasons, and nothing
changes, or it is linked (`History.Takes.prepends_or_refuses`).
-/

namespace EntityStore

open EntityStore.Action

/-! ## Handles -/

/-- There are 2^32 handles to a slot. -/
theorem Entity.length_le_of_index_lt {n : Nat} {es : List Entity} (hn : es.Nodup)
    (hlt : ∀ e ∈ es, e.index.toNat < n) : es.length ≤ n * 2 ^ 32 := by
  have hinj : (es.map fun e => e.index.toNat * 2 ^ 32 + e.generation.toNat).Nodup := by
    refine hn.map fun x y hxy => ?_
    have hx := x.generation.toNat_lt
    have hy := y.generation.toNat_lt
    have hindex : x.index.toNat = y.index.toNat := by omega
    have hgeneration : x.generation.toNat = y.generation.toNat := by omega
    cases x
    cases y
    simp_all [UInt32.toNat_inj]
  have hsub : (es.map fun e => e.index.toNat * 2 ^ 32 + e.generation.toNat) ⊆
      List.range (n * 2 ^ 32) := by
    intro i hi
    obtain ⟨e, he, rfl⟩ := List.mem_map.1 hi
    have hindex := hlt e he
    have hgeneration := e.generation.toNat_lt
    rw [List.mem_range]
    omega
  simpa using (List.subperm_of_subset hinj hsub).length_le

/-! ## Numbers of children -/

namespace Links

variable {L L' : Links} {live : Entity → Bool} {past past' : Entity → Prop}
  {c e h n p u : Entity} {k : ChildCount} {kids : List Entity}

/-- There are as many handles as children are recorded for a parent, and each is a child of the
parent or past. -/
def Tallied (L : Links) (past : Entity → Prop) : Prop :=
  ∀ p, ∃ cs : List Entity, cs.Nodup ∧ (∀ x ∈ cs, L.parentOf? x = some p ∨ past x) ∧
    L.sizeOf p ≤ cs.length

namespace Tallied

/-- Where children and numbers stay as they are, and what was past still is. -/
theorem mono (hT : L.Tallied past) (hpast : ∀ x, past x → past' x) : L.Tallied past' := by
  intro q
  obtain ⟨cs, hn, hcs, hle⟩ := hT q
  exact ⟨cs, hn, fun x hx => (hcs x hx).imp_right (hpast x), hle⟩

/-- An entity becomes past and loses its links. -/
theorem forget (hT : L.Tallied past) (hpast : ∀ x, past' x ↔ x = e ∨ past x) :
    (L.forget e).Tallied past' := by
  intro q
  obtain ⟨cs, hn, hcs, hle⟩ := hT q
  refine ⟨cs, hn, fun x hx => ?_, ?_⟩
  · rw [parentOf?_forget, hpast]
    by_cases hxe : x = e
    · exact .inr (.inl hxe)
    · rw [if_neg hxe]
      exact (hcs x hx).imp_right .inr
  · rw [sizeOf_forget]
    split
    · exact Nat.zero_le _
    · exact hle

/-- A new child was neither a child of the parent nor past. -/
theorem link (hT : L.Tallied past) (hL : L.Frayed live past) (hl : L.Linkable live p c h)
    (hk : k.size.toNat ≤ L.sizeOf p + 1) : (L.link p c h k).Tallied past := by
  intro q
  obtain ⟨cs, hn, hcs, hle⟩ := hT q
  have hnew : c ∉ cs := by
    intro hmem
    rcases hcs c hmem with hparent | hpast
    · rw [hl.root] at hparent
      cases hparent
    · exact hL.not_past hl.child_live hpast
  have hcs' : ∀ x ∈ cs, (L.link p c h k).parentOf? x = some q ∨ past x := by
    intro x hx
    rw [parentOf?_link, if_neg fun hxc : x = c => hnew (hxc ▸ hx)]
    exact hcs x hx
  by_cases hqp : q = p
  · subst hqp
    refine ⟨c :: cs, List.nodup_cons.2 ⟨hnew, hn⟩, List.forall_mem_cons.2 ⟨.inl ?_, hcs'⟩, ?_⟩
    · rw [parentOf?_link, if_pos rfl]
    · rw [sizeOf_link, if_pos rfl, List.length_cons]
      omega
  · refine ⟨cs, hn, hcs', ?_⟩
    rw [sizeOf_link, if_neg hqp]
    exact hle

/-- A child that is taken out is one less, and so is the number. -/
theorem unlink (hT : L.Tallied past) (hL : L.Frayed live past) (hc : L.Between live p c u n)
    (hp : live p = true) (hk : L.count? p = some k) : (L.unlink p c u n k).Tallied past := by
  have hsize := sizeOf_of_count? hk
  have hne := hL.count_ne_zero hp hc.parent hk
  intro q
  obtain ⟨cs, hn, hcs, hle⟩ := hT q
  refine ⟨cs.erase c, hn.erase c, fun x hx => ?_, ?_⟩
  · obtain ⟨hxc, hx⟩ := hn.mem_erase_iff.1 hx
    rw [parentOf?_unlink, if_neg hxc]
    exact hcs x hx
  · rw [sizeOf_unlink hne]
    split
    · next hqp =>
      rw [hqp, hsize] at hle
      rw [List.length_erase]
      split
      · omega
      · omega
    · next hqp =>
      have hnot : c ∉ cs := by
        intro hmem
        rcases hcs c hmem with hparent | hpast
        · exact hqp (Option.some.inj (hparent.symm.trans hc.parent))
        · exact hL.not_past (hL.child_live c p hc.parent) hpast
      rw [List.erase_of_not_mem hnot]
      exact hle

theorem clear (hT : L.Tallied past) (hkids : ∀ x, x ∈ kids ↔ L.parentOf? x = some p) :
    (L.clear p kids).Tallied past := by
  intro q
  by_cases hqp : q = p
  · refine ⟨[], List.nodup_nil, nofun, ?_⟩
    rw [sizeOf_clear, if_pos hqp]
    exact Nat.le_refl 0
  · obtain ⟨cs, hn, hcs, hle⟩ := hT q
    refine ⟨cs, hn, fun x hx => (hcs x hx).imp_left fun hparent => ?_, ?_⟩
    · have hnot : x ∉ kids := fun hmem =>
        hqp (Option.some.inj (hparent.symm.trans ((hkids x).1 hmem)))
      rw [parentOf?_clear, if_neg hnot]
      exact hparent
    · rw [sizeOf_clear, if_neg hqp]
      exact hle

/-- Edits that take edges away keep the numbers accounted for. -/
theorem wears (hT : L.Tallied past) (hL : L.Frayed live past)
    (h : Relation.ReflTransGen (Loses live past) L L') : L'.Tallied past := by
  induction h with
  | refl => exact hT
  | tail before h ih =>
    have hF := hL.wears before
    cases h with
    | stall hc hn => exact ih
    | unlink hc hn hp hk => exact ih.unlink hF hc hp hk
    | clear hkids => exact ih.clear hkids

end Tallied

end Links

/-! ## Roaming histories -/

variable {S : Schema} {s s' u : Store S} {t : S.Tag} {H : History S} {k : Op S} {p c : Entity}

namespace Store

/-- The numbers of children of a hierarchy are accounted for. -/
def Tallied (s : Store S) (t : S.Tag) : Prop := (s.contents.links t).Tallied s.allocator.Past

theorem tallied_new : ({} : Store S).Tallied t :=
  fun _ => ⟨[], List.nodup_nil, nofun, Nat.le_refl 0⟩

/-- The number of children of a parent can go up. -/
theorem Tallied.sizeOf_lt (hT : s.Tallied t) (hs : s.Sound) (hF : s.Frayed t) :
    (s.contents.links t).sizeOf p + 1 < UInt64.size := by
  obtain ⟨cs, hn, hcs, hle⟩ := hT p
  have hlt : ∀ x ∈ cs, x.index.toNat < s.slotCount := by
    intro x hx
    rcases hcs x hx with hparent | ⟨g, hg, -⟩
    · exact Allocator.index_lt_slotCount (Links.Frayed.child_live hF x p hparent)
    · exact (Array.getElem?_eq_some_iff.1 hg).1
  have hlen := Entity.length_le_of_index_lt hn hlt
  have hcount := hs.slotCount_le
  unfold Allocator.slotLimit at hcount
  unfold UInt64.size
  omega

/-- A new first child, or a refusal. -/
theorem Tallied.prependChild (hT : s.Tallied t) (hs : s.Sound) (hF : s.Frayed t) :
    ((prependChild t p c).run s).state.Tallied t := by
  have halloc := ((edits_prependChild t p c).local.spares s).allocator
  have hend := ends_prependChild (p := p) (c := c) hs Contents.relink_links.symm hF
  unfold Ends at hend
  rcases hend with ⟨-, hsame, -⟩ | ⟨h, n, hl, hm, hn⟩
  · rw [hsame]
    exact hT
  · unfold Tallied
    rw [hm, Contents.links_relink, ← halloc]
    refine Links.Tallied.link hT hF hl ?_
    rcases hn with ⟨-, hn⟩ | ⟨-, hn, -⟩
    · exact Nat.le_of_eq hn
    · exact Nat.le_succ_of_le (Nat.le_of_eq hn)

/-- Everything else that an indirect operation can do keeps the numbers accounted for. -/
theorem Moves.tallied (hmoves : s.Moves t k s') (hF : s.Frayed t)
    (hroom : ∀ e, k.Releases e → s.valid e = true → e.generation.toNat + 1 < 2 ^ 32)
    (hk : ∀ p c, k ≠ .prependChild t p c) (hT : s.Tallied t) : s'.Tallied t := by
  unfold Tallied
  cases hmoves with
  | keep ha hl =>
    rw [ha, hl]
    exact hT
  | issue hrun hl =>
    rw [hl]
    exact Links.Tallied.mono hT fun x => ((Allocator.past_allocate hrun).2.1 x).2
  | @release e hrel he hrun hl =>
    rw [hl]
    exact Links.Tallied.forget hT (Allocator.past_deallocate he (hroom e hrel he) hrun).1
  | link hprepend => exact absurd hprepend (hk _ _)
  | wear _ ha hl =>
    rw [ha]
    exact Links.Tallied.wears hT hF hl

end Store

/-- Roaming operations keep the numbers accounted for. -/
theorem Op.Roams.tallied (hk : k.Roams s) (hs : s.Sound) (hF : s.Frayed t) (hT : s.Tallied t) :
    (k.run.run s).state.Tallied t := by
  by_cases hprepend : ∃ p c, k = .prependChild t p c
  · obtain ⟨p, c, rfl⟩ := hprepend
    exact hT.prependChild hs hF
  · have hmoves := hk.indirect.moves hs fun _ => hF
    exact hmoves.tallied hF hk.room (fun p c heq => hprepend ⟨p, c, heq⟩) hT

theorem History.Takes.tallied (h : Takes Op.Roams {} H s) : s.Tallied t := by
  induction h with
  | start => exact Store.tallied_new
  | step before k hk ih =>
    obtain ⟨hs, hF⟩ := before.frayed (t := t) Store.sound_empty Store.frayed_new
    exact hk.tallied hs hF ih

/-! ## A new first child -/

namespace Store

/-- Why a new first child is refused. -/
inductive Refuses (s : Store S) (t : S.Tag) (p c : Entity) : Prop where
  /-- The parent is not live. -/
  | deadParent (h : s.valid p = false)
  /-- The child is not live. -/
  | deadChild (h : s.valid c = false)
  /-- They are the same. -/
  | ownChild (h : p = c)
  /-- The child has a parent. -/
  | alreadyChild (h : (s.lookup? c (.parentLink t)).isSome = true)
  /-- The child lies above the parent, one or more steps up. -/
  | wouldCycle (h : Relation.TransGen
      (Steps fun x => (s.lookup? x (.parentLink t)).map ParentLink.parent) p c)
  /-- The first child that is recorded for the parent is not live. -/
  | deadHead {head : FirstChild} (h : s.lookup? p (.firstChild t) = some head)
      (hdead : s.valid head.first = false)

/-- A child was made the first one of a parent. -/
structure Prepended (s : Store S) (t : S.Tag) (p c : Entity) (s' : Store S) : Prop where
  /-- The child is the first one. -/
  first : s'.lookup? p (.firstChild t) = some (⟨c⟩ : FirstChild)
  /-- It names the parent. -/
  parent : s'.lookup? c (.parentLink t) = some (⟨p⟩ : ParentLink)
  /-- It comes before the old first child, if there was one, and after none. -/
  links : s'.lookup? c (.siblingLinks t) = some ({
    next := ((s.lookup? p (.firstChild t)).map FirstChild.first).getD .null } : SiblingLinks)
  /-- The old first child leads back to it. -/
  back : ∀ head : FirstChild, s.lookup? p (.firstChild t) = some head →
    ∃ l : SiblingLinks, s.lookup? head.first (.siblingLinks t) = some l ∧
      s'.lookup? head.first (.siblingLinks t) = some ({ l with prev := c } : SiblingLinks)
  /-- The number of children, zero where none was recorded, has grown by one. -/
  count : ∃ n : ChildCount, s'.lookup? p (.childCount t) = some n ∧
    n.size.toNat = ((s.lookup? p (.childCount t)).map (·.size.toNat)).getD 0 + 1

/-- A new first child is not refused if it can be linked, and only then. -/
theorem refuses_iff :
    s.Refuses t p c ↔ ∀ h, ¬ (s.contents.links t).Linkable s.valid p c h := by
  constructor
  · intro hrefuses h hl
    cases hrefuses with
    | deadParent hdead => simp [hl.parent_live] at hdead
    | deadChild hdead => simp [hl.child_live] at hdead
    | ownChild hsame => exact hl.not_above (hsame ▸ .refl)
    | alreadyChild hparent =>
      have hroot : s.lookup? c (.parentLink t) = none := Option.map_eq_none_iff.1 hl.root
      simp [hroot] at hparent
    | wouldCycle habove => exact hl.not_above habove.to_reflTransGen
    | @deadHead head hhead hdead =>
      have hfirst : (s.contents.links t).headOf? p = some head.first :=
        congrArg (Option.map FirstChild.first) hhead
      rcases hl.head with ⟨hnone, -⟩ | ⟨hsome, hlive⟩
      · rw [hnone] at hfirst
        cases hfirst
      · obtain rfl := Option.some.inj (hsome.symm.trans hfirst)
        rw [hlive] at hdead
        cases hdead
  · intro hno
    by_contra hnot
    have hp : s.valid p = true := eq_true_of_ne_false (mt .deadParent hnot)
    have hc : s.valid c = true := eq_true_of_ne_false (mt .deadChild hnot)
    have hroot : (s.contents.links t).parentOf? c = none := by
      rw [← Option.not_isSome_iff_eq_none, Links.isSome_parentOf?]
      exact mt .alreadyChild hnot
    have hbelow : ¬ Relation.ReflTransGen (Steps (s.contents.links t).parentOf?) p c := by
      intro hreach
      rcases Relation.reflTransGen_iff_eq_or_transGen.1 hreach with hsame | habove
      · exact hnot (.ownChild hsame.symm)
      · exact hnot (.wouldCycle habove)
    cases hhead : s.lookup? p (.firstChild t) with
    | none =>
      have hnone : (s.contents.links t).headOf? p = none :=
        congrArg (Option.map FirstChild.first) hhead
      exact hno .null ⟨hp, hc, hroot, hbelow, .inl ⟨hnone, rfl⟩⟩
    | some head =>
      have hsome : (s.contents.links t).headOf? p = some (FirstChild.first head) :=
        congrArg (Option.map FirstChild.first) hhead
      have hlive : s.valid (FirstChild.first head) = true :=
        eq_true_of_ne_false (mt (.deadHead hhead) hnot)
      exact hno _ ⟨hp, hc, hroot, hbelow, .inr ⟨hsome, hlive⟩⟩

/-- What the links of a new first child say. -/
theorem prepended_of_link {h : Entity} {n : ChildCount} (hF : s.Frayed t)
    (hl : (s.contents.links t).Linkable s.valid p c h)
    (hm : s'.contents = s.contents.relink t ((s.contents.links t).link p c h n))
    (hn : n.size.toNat = (s.contents.links t).sizeOf p + 1) : s.Prepended t p c s' := by
  have hlinks : s'.contents.links t = (s.contents.links t).link p c h n := by
    rw [hm, Contents.links_relink]
  have hhead : ((s.contents.links t).headOf? p).getD .null = h := by
    rcases hl.head with ⟨hnone, hnull⟩ | ⟨hsome, -⟩
    · rw [hnone, hnull]
      rfl
    · rw [hsome]
      rfl
  constructor
  case first =>
    show (s'.contents.links t).first? p = _
    rw [hlinks]
    exact Function.update_self ..
  case parent =>
    show (s'.contents.links t).parent? c = _
    rw [hlinks]
    exact Function.update_self ..
  case links =>
    show (s'.contents.links t).siblings? c = some ({
      next := ((s.contents.links t).headOf? p).getD .null } : SiblingLinks)
    rw [hlinks, hhead]
    exact Function.update_self ..
  case back =>
    intro head hsome
    have hfirst : (s.contents.links t).headOf? p = some head.first :=
      congrArg (Option.map FirstChild.first) hsome
    obtain rfl : head.first = h := by rw [← hhead, hfirst, Option.getD_some]
    have hnull : head.first ≠ .null := by
      rcases hl.head with ⟨hnone, -⟩ | ⟨-, hlive⟩
      · rw [hnone] at hfirst
        cases hfirst
      · exact Links.Frayed.ne_null hF hlive
    obtain ⟨hprev, hparent⟩ := (Links.Frayed.head_of_linkable hF hl).resolve_left hnull
    obtain ⟨l, hold, -⟩ := Option.map_eq_some_iff.1 hprev
    refine ⟨l, hold, ?_⟩
    have hne : head.first ≠ c := by
      intro hsame
      rw [hsame, hl.root] at hparent
      cases hparent
    show (s'.contents.links t).siblings? head.first = _
    rw [hlinks]
    show Function.update (setPrev (s.contents.links t).siblings? head.first c) c _ head.first = _
    rw [Function.update_of_ne hne, setPrev, Function.update_self, hold, Option.map_some]
  case count =>
    refine ⟨n, ?_, hn⟩
    show (s'.contents.links t).count? p = _
    rw [hlinks]
    exact Function.update_self ..

end Store

/-- After a roaming history a new first child is refused for one of six reasons, and only then.  A
refusal leaves the store as it was, so nothing was written before it.  Where the child is not
refused, it is linked before the old first child and counted. -/
theorem History.Takes.prepends_or_refuses (h : Takes Op.Roams {} H s) (t : S.Tag) (p c : Entity) :
    ((∃ f, ((Store.prependChild t p c).run s).result = .error f) ↔ s.Refuses t p c) ∧
    ((∃ f, ((Store.prependChild t p c).run s).result = .error f) →
      ((Store.prependChild t p c).run s).state = s) ∧
    (((Store.prependChild t p c).run s).result = .ok () →
      s.Prepended t p c ((Store.prependChild t p c).run s).state) := by
  obtain ⟨hs, hF⟩ := h.frayed (t := t) Store.sound_empty Store.frayed_new
  have hroom := h.tallied.sizeOf_lt (p := p) hs hF
  have hend := Store.ends_prependChild (p := p) (c := c) hs Contents.relink_links.symm hF
  unfold Ends at hend
  rw [Store.refuses_iff]
  rcases hend with ⟨⟨f, hf⟩, hsame, hno⟩ | ⟨x, n, hl, hm, ⟨hok, hn⟩ | ⟨-, -, hfull⟩⟩
  · refine ⟨iff_of_true ⟨f, hf⟩ hno, fun _ => hsame, fun hok => ?_⟩
    rw [hf] at hok
    cases hok
  · have hnone : ¬ ∃ f, ((Store.prependChild t p c).run s).result = .error f := by
      rintro ⟨f, hf⟩
      rw [hok] at hf
      cases hf
    exact ⟨iff_of_false hnone fun hno => hno x hl, fun hf => absurd hf hnone,
      fun _ => Store.prepended_of_link hF hl hm hn⟩
  · omega

/-- The first child of a parent was destroyed, so no other can be linked before it.  Elsewhere the
same entity can be linked. -/
theorem History.Takes.prepends_or_refuses_dead_head :
    ∃ (H : History Schema.sample) (s : Store Schema.sample), Takes Op.Roams {} H s ∧
      s.Refuses () ⟨0, 0⟩ ⟨2, 0⟩ ∧ ((Store.prependChild () ⟨0, 0⟩ ⟨2, 0⟩).run s).state = s ∧
      s.Prepended () ⟨3, 0⟩ ⟨2, 0⟩ ((Store.prependChild () ⟨3, 0⟩ ⟨2, 0⟩).run s).state := by
  have hnew : Takes (S := Schema.sample) Op.Roams {} _ _ :=
    (((Takes.start.step (.call .create) Op.roams_create).step (.call .create)
      Op.roams_create).step (.call .create) Op.roams_create).step (.call .create) Op.roams_create
  have hrun : Takes (S := Schema.sample) Op.Roams {} _ _ :=
    (hnew.step (.prependChild () ⟨0, 0⟩ ⟨1, 0⟩) (Op.roams_of_tag? rfl)).step
      (.call (.destroy ⟨1, 0⟩)) (Op.roams_destroy (by decide))
  obtain ⟨hiff, hsame, -⟩ := hrun.prepends_or_refuses () ⟨0, 0⟩ ⟨2, 0⟩
  obtain ⟨-, -, hlinked⟩ := hrun.prepends_or_refuses () ⟨3, 0⟩ ⟨2, 0⟩
  exact ⟨_, _, hrun, hiff.1 ⟨_, rfl⟩, hsame ⟨_, rfl⟩, hlinked rfl⟩

end EntityStore
