import EntityStore.Proofs.Damage
import EntityStore.Proofs.Scripts

/-!
# What an operation does to a hierarchy

An operation is *indirect* if it writes to links through edits of hierarchies only.  It may destroy
entities that are linked.

`Store.Moves s t k s'` says what an indirect operation `k` can do to the slots and to the links of
one tag: nothing, issue an entity, release an entity and take its links away, link a new first
child, or take edges away.  Where the links of a tag are frayed, every indirect operation does one
of these (`Op.Indirect.moves`), and all of these leave frayed links (`Store.Moves.frayed`), as long
as no generation wraps around.
-/

namespace EntityStore

open EntityStore.Action

variable {S : Schema} {s s' : Store S} {t : S.Tag} {k : Op S} {e f p c h x : Entity}

/-- Whether a call writes to no links. -/
def Call.Indirect : Call S → Prop
  | .attach _ c _ | .tryAttach _ c _ | .attachOrReplace _ c _ | .getOrAttach _ c _
  | .update _ c _ | .tryUpdate _ c _ | .update? _ c _ | .detach _ c | .tryDetach _ c
  | .detach? _ c | .updateAll c _ => c.tag? = none
  | .create | .destroy _ | .tryDestroy _ | .has _ _ | .get _ _ | .fetch _ _ | .get? _ _
  | .view _ => True

namespace Op

/-- Whether an operation writes to links through edits only. -/
def Indirect : Op S → Prop
  | .call k => k.Indirect
  | _ => True

/-- The hierarchy that an operation edits, if it edits one. -/
def tag? : Op S → Option S.Tag
  | .prependChild t _ _ | .removeChild t _ _ | .detachChild t _ | .clearSelection t _ => some t
  | _ => none

/-- The operation is the release of an entity. -/
def Releases (k : Op S) (e : Entity) : Prop := k = .call (.destroy e) ∨ k = .call (.tryDestroy e)

end Op

/-! ## Operations that leave a hierarchy alone -/

/-- The links of a tag are among the components that are the same. -/
theorem Store.Agree.links_eq (h : s.Agree (OfTag t) s') :
    s'.contents.links t = s.contents.links t :=
  Contents.links_eq_of_value? fun x _ hd => (h.lookup? hd x).symm

namespace Store

variable {d : Component S} {ε : Type}

theorem spares_overwrite (hd : d.tag? ≠ some t) (e : Entity) (g : d.Value → d.Value) :
    Spares (OfTag t) (overwrite e d g : Action (Store S) ε Unit) :=
  spares_modify fun _ => agree_editPool hd (·.modify e g)

theorem spares_drop (hd : d.tag? ≠ some t) (e : Entity) :
    Spares (OfTag t) (drop e d : Action (Store S) ε Unit) :=
  spares_modify fun _ => agree_editPool hd (·.erase e)

theorem spares_detach? (hd : d.tag? ≠ some t) (e : Entity) : Spares (OfTag t) (detach? e d) :=
  (spares_query _).bind fun _ => (spares_drop hd e).bind fun _ => spares_pure _

theorem spares_attachOrReplace (hd : d.tag? ≠ some t) (e : Entity) (v : d.Value) :
    Spares (OfTag t) (attachOrReplace e d v) :=
  (local_attachOrReplace (L := (· = d)) rfl e v).spares.mono fun _ hc hcd => hd (hcd ▸ hc)

theorem spares_detach (hd : d.tag? ≠ some t) (e : Entity) : Spares (OfTag t) (detach e d) :=
  (local_detach (L := (· = d)) rfl e).spares.mono fun _ hc hcd => hd (hcd ▸ hc)

theorem spares_detachEach (hd : d.tag? ≠ some t) (es : List Entity) :
    Spares (OfTag t) (detachEach d es) := by
  induction es with
  | nil => exact spares_pure _
  | cons e es ih => exact (spares_detach hd e).bind fun _ => ih

theorem tag?_mark_ne (k : Mark) : (Kind.mark k : Component S).tag? ≠ some t := by
  simp [Kind.tag?]

theorem spares_beginConstruction (e : Entity) : Spares (OfTag t) (beginConstruction (S := S) e) :=
  (spares_attachOrReplace (tag?_mark_ne .unfinished) e ()).bind fun _ =>
    (spares_detach? (tag?_mark_ne .finished) e).bind fun _ => spares_pure ()

theorem spares_finishConstruction (e : Entity) :
    Spares (OfTag t) (finishConstruction (S := S) e) := by
  refine (spares_detach? (tag?_mark_ne .unfinished) e).bind fun o => ?_
  cases o with
  | none => exact spares_pure false
  | some _ =>
    exact (spares_attachOrReplace (tag?_mark_ne .finished) e ()).bind fun _ => spares_pure true

theorem spares_clearFinished : Spares (OfTag t) (clearFinished (S := S)) := by
  refine spares_state.bind fun s => (spares_detachEach (tag?_mark_ne .finished) _).bind fun _ => ?_
  split
  · exact spares_pure _
  · exact Spares.bind (fun s => .refl s) fun _ => spares_pure _

theorem agree_context {K : Component S → Prop}
    {v : Table (Component S) fun c => Variable c.Value} : s.Agree K { s with context := v } :=
  ⟨rfl, fun _ _ => rfl, fun _ _ => rfl⟩

theorem spares_setContext (c : Component S) (name : String) (v : c.Value) :
    Spares (OfTag t) (setContext c name v : Action (Store S) ε c.Value) := by
  have hset : Spares (OfTag t) (do
      Action.modify fun s => { s with context := s.context.insert c ⟨name, v⟩ }
      pure v : Action (Store S) ε c.Value) :=
    (spares_modify fun _ => agree_context).bind fun _ => spares_pure v
  refine spares_state.bind fun s => ?_
  split
  · exact Spares.bind (fun s => .refl s) fun _ => hset
  · exact hset

theorem spares_updateContext (c : Component S) (g : c.Value → c.Value) :
    Spares (OfTag t) (updateContext c g) := by
  refine (spares_modifyGet fun _ => agree_context).bind fun o => ?_
  cases o with
  | some v => exact spares_pure v
  | none => exact spares_fail _

theorem spares_getOrSetContext (c : Component S) (name : String)
    (make : Unit → Except Fault c.Value) : Spares (OfTag t) (getOrSetContext c name make) := by
  refine spares_state.bind fun s => ?_
  cases s.contextValue? c with
  | some old => exact spares_pure _
  | none =>
    exact (spares_query _).bind fun v =>
      (spares_modify fun _ => agree_context).bind fun _ => spares_pure _

theorem spares_checkWhitelist (e : Entity) (w : Whitelist S) :
    Spares (OfTag t) (checkWhitelist e w) := by
  refine (spares_query _).bind fun names => (spares_reportAll _).bind fun _ => ?_
  split
  · exact spares_pure _
  · exact spares_pure _

end Store

open Store in
/-- A call that writes to no links, and issues and releases no entity, spares the links. -/
theorem Call.Indirect.spares {k : Call S} (hk : k.Indirect) (hcreate : k ≠ .create)
    (hdestroy : ∀ e, ¬ (Op.call k).Releases e) : Spares (OfTag t) k.run := by
  have hne : ∀ {d : Component S}, d.tag? = none → ∀ c, OfTag t c → ¬ c = d := by
    rintro d hd c hc rfl
    cases hd.symm.trans hc
  have htag : ∀ {d : Component S}, d.tag? = none → d.tag? ≠ some t := by
    rintro d hd hc
    cases hd.symm.trans hc
  cases k with
  | create => exact absurd rfl hcreate
  | destroy e => exact absurd (.inl rfl) (hdestroy e)
  | tryDestroy e => exact absurd (.inr rfl) (hdestroy e)
  | attach e d v => exact (local_attach (L := (· = d)) rfl e v).spares.mono (hne hk)
  | tryAttach e d v =>
    exact fun s => (local_tryAttach (L := (· = d)) rfl e v).spares.mono (hne hk) s
  | attachOrReplace e d v => exact spares_attachOrReplace (htag hk) e v
  | getOrAttach e d make => exact (local_getOrAttach (L := (· = d)) rfl e make).spares.mono (hne hk)
  | update e d g => exact (local_update (L := (· = d)) rfl e g).spares.mono (hne hk)
  | tryUpdate e d g =>
    exact fun s => (local_tryUpdate (L := (· = d)) rfl e g).spares.mono (hne hk) s
  | update? e d g =>
    exact (spares_query _).bind fun _ => (spares_overwrite (htag hk) e g).bind fun _ =>
      spares_pure _
  | detach e d => exact spares_detach (htag hk) e
  | tryDetach e d => exact fun s => (local_tryDetach (L := (· = d)) rfl e).spares.mono (hne hk) s
  | detach? e d => exact spares_detach? (htag hk) e
  | updateAll d g => exact spares_modifyGet fun _ => agree_editPool (htag hk) (·.mapValues g)
  | has e d => exact spares_query _
  | get e d => exact spares_query _
  | fetch e d => exact fun s => .refl s
  | get? e d => exact spares_query _
  | view d => exact spares_query _

namespace Store

/-- What an operation can do to the slots and to the links of a tag. -/
inductive Moves (s : Store S) (t : S.Tag) (k : Op S) (s' : Store S) : Prop where
  /-- It leaves them as they were. -/
  | keep (ha : s'.allocator = s.allocator) (hl : s'.contents.links t = s.contents.links t)
  /-- It issues an entity. -/
  | issue {e : Entity} (hrun : s.allocator.allocate = (some e, s'.allocator))
      (hl : s'.contents.links t = s.contents.links t)
  /-- It releases an entity, which loses its links. -/
  | release {e : Entity} (hk : k.Releases e) (he : s.valid e = true)
      (hrun : s.allocator.deallocate e = (true, s'.allocator))
      (hl : s'.contents.links t = (s.contents.links t).forget e)
  /-- It links a new first child.  The number of children goes up, or it is as great as can be. -/
  | link {p c h : Entity} {n : ChildCount} (hk : k = .prependChild t p c)
      (ha : s'.allocator = s.allocator) (hlinkable : (s.contents.links t).Linkable s.valid p c h)
      (hn : (s.contents.links t).sizeOf p + 1 ≤ n.size.toNat ∨ UInt64.size ≤ n.size.toNat + 1)
      (hl : s'.contents.links t = (s.contents.links t).link p c h n)
  /-- It takes edges away. -/
  | wear (hk : k.tag? = some t) (ha : s'.allocator = s.allocator)
      (hl : Relation.ReflTransGen (Links.Loses s.valid s.allocator.Past) (s.contents.links t)
        (s'.contents.links t))

/-- The links of a tag are frayed, where the handles that were released are past. -/
def Frayed (s : Store S) (t : S.Tag) : Prop :=
  (s.contents.links t).Frayed s.valid s.allocator.Past

/-- What spares the components of a tag keeps its links. -/
theorem moves_of_spares {x : Action (Store S) Fault k.Answer} (hx : Spares (OfTag t) x) :
    s.Moves t k (x.run s).state := .keep (hx s).allocator.symm (hx s).links_eq

/-- An edit of another hierarchy spares the links of a tag. -/
theorem moves_of_edits {u : S.Tag} {x : Action (Store S) Fault k.Answer} (hx : Edits u x)
    (hu : u ≠ t) : s.Moves t k (x.run s).state :=
  moves_of_spares (hx.local.spares.mono fun _ hc hcu => hu (Option.some.inj (hcu.symm.trans hc)))

theorem moves_create (h : s.Sound) : s.Moves t (.call .create) (create.run s).state := by
  rw [run_create]
  rcases h.slots.allocate_cases with ⟨e, a, hrun, -⟩ | ⟨hrun, -⟩
  · rw [hrun]
    exact .issue hrun rfl
  · rw [hrun]
    exact .keep rfl rfl

/-- The links of an entity go with it. -/
theorem links_strip (h : s.Sound) (e : Entity) :
    (s.strip e).contents.links t = (s.contents.links t).forget e := by
  have hlookup : ∀ d : Component S,
      (fun x => (s.strip e).lookup? x d) = Function.update (fun x => s.lookup? x d) e none := by
    intro d
    funext x
    rw [Function.update_apply, h.lookup?_strip]
  ext1
  · exact hlookup (.parentLink t)
  · exact hlookup (.siblingLinks t)
  · exact hlookup (.firstChild t)
  · exact hlookup (.childCount t)

/-- A destruction is one move: the handle goes, and the links that it carried. -/
theorem moves_tryDestroy (h : s.Sound) (hk : k.Releases e) :
    s.Moves t k ((tryDestroy e).run s).state := by
  cases he : s.valid e with
  | true =>
    obtain ⟨a, hrun, -⟩ := h.slots.deallocate_cases he
    have hcheck : ((query (·.check e) : Action (Store S) StoreError Unit).run s).result = .ok () :=
      if_pos he
    have hstate : ((tryDestroy e).run s).state =
        { s.strip e with allocator := (s.allocator.deallocate e).2 } :=
      (run_bind_of_ok _ hcheck).2
    rw [hstate, hrun]
    exact .release hk he hrun (links_strip h e)
  | false =>
    have hcheck : ((query (·.check e) : Action (Store S) StoreError Unit).run s).result =
        .error (.stale e) := by
      rw [run_query, check, he]
      rfl
    have hstate : ((tryDestroy e).run s).state = s := (run_bind_of_error _ hcheck).2
    rw [hstate]
    exact .keep rfl rfl

/-- A prepending makes a link or none, also where the links show no forest. -/
theorem moves_prependChild (h : s.Sound) (hF : s.Frayed t) :
    s.Moves t (.prependChild t p c) ((prependChild t p c).run s).state := by
  have halloc := ((edits_prependChild t p c).local.spares s).allocator.symm
  have hm : s.contents = s.contents.relink t (s.contents.links t) := Contents.relink_links.symm
  have hend := ends_prependChild (p := p) (c := c) h hm hF
  unfold Ends at hend
  rcases hend with ⟨-, hsame, -⟩ | ⟨q, n, hlinkable, hm', hn⟩
  · exact .keep halloc (by rw [hsame])
  · refine .link rfl halloc hlinkable ?_ (by rw [hm', Contents.links_relink])
    rcases hn with ⟨-, hn⟩ | ⟨-, hn, hfull⟩
    · exact .inl (Nat.le_of_eq hn.symm)
    · exact .inr (hn ▸ hfull)

/-- An edit that takes edges away from frayed links. -/
theorem moves_of_wears {x : Action (Store S) Fault k.Answer} (hk : k.tag? = some t)
    (ha : (x.run s).state.allocator = s.allocator)
    (hx : x.Ends s fun _ s' => ∃ L', Relation.ReflTransGen
      (Links.Loses s.valid s.allocator.Past) (s.contents.links t) L' ∧
        s'.contents = s.contents.relink t L') : s.Moves t k (x.run s).state := by
  obtain ⟨L', hloses, hm⟩ := hx
  refine .wear hk ha ?_
  rw [hm, Contents.links_relink]
  exact hloses

end Store

/-- An indirect operation does one of these things, where the links that it edits are frayed. -/
theorem Op.Indirect.moves (hk : k.Indirect) (h : s.Sound) (hF : k.tag? = some t → s.Frayed t) :
    s.Moves t k (k.run.run s).state := by
  have hm : s.contents = s.contents.relink t (s.contents.links t) := Contents.relink_links.symm
  cases k with
  | call k =>
    by_cases hcreate : k = .create
    · subst hcreate
      exact Store.moves_create h
    by_cases hdestroy : ∃ e, (Op.call k).Releases e
    · obtain ⟨e, hrel⟩ := hdestroy
      have hmoves := Store.moves_tryDestroy (t := t) h hrel
      rcases hrel with heq | heq
      · cases heq
        exact hmoves
      · cases heq
        exact hmoves
    · exact Store.moves_of_spares (Call.Indirect.spares hk hcreate (not_exists.1 hdestroy))
  | setName c name => exact .keep rfl rfl
  | setContext c name v =>
    exact Store.moves_of_spares (k := .setContext c name v) (Store.spares_setContext c name v)
  | updateContext? c g => exact .keep rfl rfl
  | updateContext c g =>
    exact Store.moves_of_spares (k := .updateContext c g) (Store.spares_updateContext c g)
  | getOrSetContext c name make =>
    exact Store.moves_of_spares (k := .getOrSetContext c name make)
      (Store.spares_getOrSetContext c name make)
  | removeContext c => exact .keep rfl rfl
  | checkWhitelist e w =>
    exact Store.moves_of_spares (k := .checkWhitelist e w) (Store.spares_checkWhitelist e w)
  | beginConstruction e =>
    exact Store.moves_of_spares (k := .beginConstruction e) (Store.spares_beginConstruction e)
  | finishConstruction e =>
    exact Store.moves_of_spares (k := .finishConstruction e) (Store.spares_finishConstruction e)
  | clearFinished => exact Store.moves_of_spares (k := .clearFinished) Store.spares_clearFinished
  | prependChild u p c =>
    by_cases hu : u = t
    · subst hu
      exact Store.moves_prependChild h (hF rfl)
    · exact Store.moves_of_edits (k := .prependChild u p c) (Store.edits_prependChild u p c) hu
  | removeChild u p c =>
    by_cases hu : u = t
    · subst hu
      exact Store.moves_of_wears rfl ((Store.edits_removeChild u p c).local.spares s).allocator.symm
        (Store.ends_removeChild_wears h hm (hF rfl))
    · exact Store.moves_of_edits (k := .removeChild u p c) (Store.edits_removeChild u p c) hu
  | detachChild u c =>
    by_cases hu : u = t
    · subst hu
      exact Store.moves_of_wears rfl ((Store.edits_detachChild u c).local.spares s).allocator.symm
        (Store.ends_detachChild_wears h hm (hF rfl))
    · exact Store.moves_of_edits (k := .detachChild u c) (Store.edits_detachChild u c) hu
  | clearSelection u sel =>
    have hspares : ∀ {K : Component S → Prop}, (∀ c, K c → ¬ OfTag u c) →
        Spares K (Store.clearSelection u sel) := Store.spares_clearSelection
    by_cases hu : u = t
    · subst hu
      exact Store.moves_of_wears rfl (hspares (K := fun _ => False) (by simp) s).allocator.symm
        ((Store.ends_clearSelection h hm (hF rfl) sel).imp fun _ _ hend => hend.2)
    · exact Store.moves_of_spares (k := .clearSelection u sel)
        (hspares fun _ hc hcu => hu (Option.some.inj (hcu.symm.trans hc)))

namespace Store.Moves

/-- All of these leave frayed links, unless the generation of a released entity wraps around. -/
theorem frayed (hmoves : s.Moves t k s') (h : s.Sound) (hF : s.Frayed t)
    (hroom : ∀ e, k.Releases e → s.valid e = true → e.generation.toNat + 1 < 2 ^ 32) :
    s'.Frayed t := by
  have hkeep : s'.allocator = s.allocator → s'.valid = s.valid := fun ha => by
    funext x
    rw [valid, ha]
    rfl
  cases hmoves with
  | keep ha hl =>
    unfold Frayed
    rw [hl, ha, hkeep ha]
    exact hF
  | @issue e hrun hl =>
    obtain ⟨hnot, hpast, -⟩ := Allocator.past_allocate hrun
    unfold Frayed
    rw [hl, funext fun x => propext (hpast x)]
    rcases h.slots.allocate_cases with ⟨f, a, hrun', hcoh, hdead, halive⟩ | ⟨hrun', -⟩
    · rw [hrun, Prod.mk.injEq, Option.some.injEq] at hrun'
      obtain ⟨rfl, rfl⟩ := hrun'
      exact Links.Frayed.issue hF halive (hcoh.ne_null ((halive e).2 (.inl rfl))) hdead hnot
    · rw [hrun] at hrun'
      cases hrun'
  | @release e hk he hrun hl =>
    obtain ⟨hpast, -⟩ := Allocator.past_deallocate he (hroom e hk he) hrun
    obtain ⟨a, hrun', -, halive⟩ := h.slots.deallocate_cases he
    rw [hrun, Prod.mk.injEq] at hrun'
    obtain ⟨-, rfl⟩ := hrun'
    unfold Frayed
    rw [hl]
    exact Links.Frayed.release hF he halive hpast
  | link hk ha hlinkable hn hl =>
    unfold Frayed
    rw [hl, ha, hkeep ha]
    refine Links.Frayed.link hF hlinkable (hn.imp_right fun hfull cs hcs hlive => ?_)
    have hle := length_le_slotCount hcs hlive
    have hcount := h.slotCount_le
    have hlimit : Allocator.slotLimit + 1 < UInt64.size := by decide
    omega
  | wear hk ha hl =>
    unfold Frayed
    rw [ha, hkeep ha]
    exact Links.Frayed.wears hF hl

/-- A handle that no link leads to is led to only after it is linked. -/
theorem not_mentions (hmoves : s.Moves t k s') (hf : f ≠ .null)
    (hk : ∀ p c, k = .prependChild t p c → p ≠ f ∧ c ≠ f)
    (hnot : ¬ (s.contents.links t).Mentions f) : ¬ (s'.contents.links t).Mentions f := by
  cases hmoves with
  | keep ha hl => rwa [hl]
  | issue hrun hl => rwa [hl]
  | release hrel he hrun hl =>
    rw [hl]
    exact fun hm => hnot hm.of_forget
  | link hprepend ha hlinkable hn hl =>
    obtain ⟨hp, hc⟩ := hk _ _ hprepend
    rw [hl]
    intro hm
    rcases Links.Mentions.of_link hlinkable hm with hold | hnull | rfl | rfl
    · exact hnot hold
    · exact hf hnull
    · exact hp rfl
    · exact hc rfl
  | wear htag ha hl =>
    exact fun hm => hnot (hm.of_wears hl)

/-- Without an edit of the hierarchy, no neighbour gets another neighbour after it. -/
theorem nextOf?_of_ne (hmoves : s.Moves t k s') (hk : k.tag? ≠ some t)
    (hnext : (s'.contents.links t).nextOf? x = some e) :
    (s.contents.links t).nextOf? x = some e := by
  cases hmoves with
  | keep ha hl => rwa [hl] at hnext
  | issue hrun hl => rwa [hl] at hnext
  | release hrel he hrun hl =>
    rw [hl, Links.nextOf?_forget] at hnext
    split at hnext
    · cases hnext
    · exact hnext
  | link hprepend => exact absurd (hprepend ▸ rfl) hk
  | wear htag => exact absurd htag hk

end Store.Moves

end EntityStore
