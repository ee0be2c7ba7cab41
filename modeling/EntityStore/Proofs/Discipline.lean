import EntityStore.Proofs.Clearing
import EntityStore.Proofs.Refinement
import EntityStore.Proofs.Runs

/-!
# Disciplined operations

An operation is *disciplined* if it destroys only entities without edges and writes to the links of
a hierarchy only through the edits of hierarchies.  Its handles, components, tags and selectors are
arbitrary otherwise, and it may fail.

A disciplined operation on a store whose links show forests leaves a store whose links show
forests: the ones that `Forests.after` gives (`Op.Disciplined.shows`).  An operation that is no
edit leaves all links alone, and an edit leaves the links of other tags alone.
-/

namespace EntityStore

variable {S : Schema}

/-- A forest for each tag. -/
abbrev Forests (S : Schema) := S.Tag → Forest

/-- What an operation that ended with some result makes of the forests.  An edit that failed, and
anything that is no edit, leaves them alone. -/
def Forests.after (G : Forests S) (s : Store S) :
    (k : Op S) → Except Fault k.Answer → Forests S
  | .prependChild t p c, .ok _ => Function.update G t ((G t).prepend p c)
  | .removeChild t p c, .ok _ => Function.update G t ((G t).remove p c)
  | .detachChild t c, .ok _ => Function.update G t ((G t).detach c)
  | .clearSelection t sel, .ok _ => Function.update G t ((G t).clear (s.passes sel))
  | _, _ => G

/-- The entity has no edge under any tag. -/
def Store.Unlinked (s : Store S) (e : Entity) : Prop :=
  ∀ t, s.lookup? e (.parentLink t) = none ∧ s.lookup? e (.firstChild t) = none

/-- Whether a call destroys only an entity without edges and writes to no links. -/
def Call.Disciplined (s : Store S) : Call S → Prop
  | .destroy e | .tryDestroy e => s.Unlinked e
  | .attach _ c _ | .tryAttach _ c _ | .attachOrReplace _ c _ | .getOrAttach _ c _
  | .update _ c _ | .tryUpdate _ c _ | .update? _ c _ | .detach _ c | .tryDetach _ c
  | .detach? _ c | .updateAll c _ => c.tag? = none
  | .create | .has _ _ | .get _ _ | .fetch _ _ | .get? _ _ | .view _ => True

/-- Whether an operation destroys only an entity without edges and writes to links through edits
only. -/
def Op.Disciplined (s : Store S) : Op S → Prop
  | .call k => k.Disciplined s
  | _ => True

/-! ## Calls -/

/-- A disciplined call that is about a link of an entity destroys that entity. -/
theorem Call.Disciplined.destroys {s : Store S} {k : Call S} (hk : k.Disciplined s) {x : Entity}
    {d : Component S} {t : S.Tag} (hd : d.tag? = some t) (hc : k.Concerns x d) :
    s.Unlinked x ∧ (k = .destroy x ∨ k = .tryDestroy x) := by
  have hfalse : ∀ c : Component S, c.tag? = none → d ≠ c := by
    rintro c hnone rfl
    simp [hnone] at hd
  cases k with
  | destroy e =>
    obtain rfl : x = e := hc
    exact ⟨hk, .inl rfl⟩
  | tryDestroy e =>
    obtain rfl : x = e := hc
    exact ⟨hk, .inr rfl⟩
  | attach e c v => exact absurd hc.2 (hfalse c hk)
  | tryAttach e c v => exact absurd hc.2 (hfalse c hk)
  | attachOrReplace e c v => exact absurd hc.2 (hfalse c hk)
  | getOrAttach e c make => exact absurd hc.2 (hfalse c hk)
  | update e c f => exact absurd hc.2 (hfalse c hk)
  | tryUpdate e c f => exact absurd hc.2 (hfalse c hk)
  | update? e c f => exact absurd hc.2 (hfalse c hk)
  | detach e c => exact absurd hc.2 (hfalse c hk)
  | tryDetach e c => exact absurd hc.2 (hfalse c hk)
  | detach? e c => exact absurd hc.2 (hfalse c hk)
  | updateAll c f => exact absurd hc (hfalse c hk)
  | create => exact hc.elim
  | has e c => exact hc.elim
  | get e c => exact hc.elim
  | fetch e c => exact hc.elim
  | get? e c => exact hc.elim
  | view c => exact hc.elim

namespace Store

variable {s s' : Store S} {t : S.Tag} {F : Forest} {e : Entity}

/-- The same links show the same forest if the entities that occur stay live. -/
theorem Shows.of_links (hF : s.Shows t F) (hlinks : s'.contents.links t = s.contents.links t)
    (hlive : ∀ p, ∀ c ∈ F p, s'.valid c = true ∧ s'.valid p = true) : s'.Shows t F := by
  rw [Shows, hlinks]
  exact Links.Shows.of_live hF hlive

/-- An entity without edges has no links and occurs in no list. -/
theorem Shows.lookup?_of_unlinked (hF : s.Shows t F) (he : s.Unlinked e) {d : Component S}
    (hd : d.tag? = some t) : s.lookup? e d = none := by
  obtain ⟨hparent, hfirst⟩ := he t
  cases d with
  | data d => simp [Kind.tag?] at hd
  | mark k => simp [Kind.tag?] at hd
  | parentLink u => obtain rfl : u = t := Option.some.inj hd; exact hparent
  | siblingLinks u =>
    obtain rfl : u = t := Option.some.inj hd
    exact Links.Shows.siblings?_eq_none hF hparent
  | firstChild u => obtain rfl : u = t := Option.some.inj hd; exact hfirst
  | childCount u =>
    obtain rfl : u = t := Option.some.inj hd
    have hnil : F e = [] := (Links.Shows.first?_eq_none_iff hF).1 hfirst
    rw [hF.count?_eq, hnil]
    rfl

/-- An entity without hierarchy components has no place in the forest. -/
theorem Shows.ne_of_unlinked (hF : s.Shows t F) (he : s.Unlinked e) :
    ∀ p, ∀ c ∈ F p, c ≠ e ∧ p ≠ e := by
  intro p c hc
  refine ⟨?_, ?_⟩
  · rintro rfl
    exact Links.Shows.not_mem_of_parent? hF (he t).1 hc
  · rintro rfl
    rw [(Links.Shows.first?_eq_none_iff hF).1 (he t).2] at hc
    exact List.not_mem_nil hc

end Store

/-- A disciplined call leaves all links alone. -/
theorem Call.Disciplined.shows {s : Store S} {k : Call S} (hk : k.Disciplined s) (h : s.Sound)
    {t : S.Tag} {F : Forest} (hF : s.Shows t F) : (k.run.run s).state.Shows t F := by
  obtain ⟨hsound, hallowed⟩ := k.allowed h
  refine hF.of_links (Contents.links_eq_of_value? fun x d hd => ?_) fun p c hc => ?_
  · by_cases hconcern : k.Concerns x d
    · obtain ⟨hun, hdestroy⟩ := hk.destroys hd hconcern
      have hnone : s.contents.value? x d = none := hF.lookup?_of_unlinked hun hd
      have hrelease : (s.contents.onLive x (.ok (), s.contents.release x)).2.value? x d =
          s.contents.value? x d := Contents.value?_onLive (by simp [hnone])
      rcases hdestroy with rfl | rfl
      · rw [hallowed.2, hrelease]
      · rw [hallowed.2, hrelease]
    · exact hallowed.value?_eq hconcern
  · have hne : ∀ e, k = .destroy e ∨ k = .tryDestroy e → c ≠ e ∧ p ≠ e := by
      rintro e (rfl | rfl)
      · exact hF.ne_of_unlinked hk p c hc
      · exact hF.ne_of_unlinked hk p c hc
    obtain ⟨hvc, hvp⟩ := hF.valid hc
    exact ⟨hallowed.live_of_live (fun e he => (hne e he).1) hvc,
      hallowed.live_of_live (fun e he => (hne e he).2) hvp⟩

/-! ## Edits -/

namespace Store

variable {s : Store S} {t u : S.Tag} {G : Forests S} {p c : Entity}

/-- An edit of one hierarchy leaves the others alone. -/
theorem shows_relink {s' : Store S} {L : Links} {F : Forest} (hG : ∀ t, s.Shows t (G t))
    (hm : s'.contents = s.contents.relink t L) (hL : L.Shows s.valid F) :
    ∀ u, s'.Shows u (Function.update G t F u) := by
  have hlive : s'.valid = s.valid := congrArg Contents.live hm
  intro u
  by_cases hu : u = t
  · subst hu
    rw [Function.update_self, Shows, hm, Contents.links_relink, hlive]
    exact hL
  · rw [Function.update_of_ne hu]
    refine (hG u).of_links (by rw [hm, Contents.links_relink_of_ne hu]) fun q x hx => ?_
    rw [hlive]
    exact (hG u).valid hx

end Store

/-! ## Operations that leave all links alone -/

namespace Store

variable {s : Store S} {t : S.Tag} {F : Forest} {ε α : Type} {x : Action (Store S) ε α}

/-- What writes no link component leaves the forest shown. -/
theorem Shows.of_quiet (hF : s.Shows t F) (h : s.Sound) (hx : x.Quiet) :
    (x.run s).state.Shows t F := by
  obtain ⟨-, hlive, hvalue⟩ := hx s h
  refine hF.of_links (Contents.links_eq_of_value? fun x d _ => by rw [hvalue]) fun p c hc => ?_
  rw [← live_contents, hlive]
  exact hF.valid hc

theorem Shows.of_settles (hF : s.Shows t F) (h : s.Sound) {r : Except ε α} {m : Contents S}
    (hx : x.Settles s.contents r m) (hlive : m.live = s.valid)
    (hlinks : m.links t = s.contents.links t) : (x.run s).state.Shows t F := by
  obtain ⟨-, -, hm⟩ := hx s h rfl
  refine hF.of_links (by rw [hm, hlinks]) fun p c hc => ?_
  rw [← live_contents, hm, hlive]
  exact hF.valid hc

theorem links_beginConstruction (m : Contents S) (e : Entity) :
    (m.beginConstruction e).links t = m.links t := by
  rw [Contents.beginConstruction, Contents.links_assign_of_tag (by simp [Kind.tag?]),
    Contents.links_assign_of_tag (by simp [Kind.tag?])]

theorem links_finishConstruction (m : Contents S) (e : Entity) :
    (m.finishConstruction e).2.links t = m.links t := by
  unfold Contents.finishConstruction
  split
  · rfl
  · rw [Contents.links_assign_of_tag (by simp [Kind.tag?]),
      Contents.links_assign_of_tag (by simp [Kind.tag?])]

theorem Shows.beginConstruction (hF : s.Shows t F) (h : s.Sound) (e : Entity) :
    ((Store.beginConstruction e).run s).state.Shows t F := by
  refine hF.of_settles h settles_beginConstruction ?_ ?_
  · unfold Contents.onLive
    split <;> rfl
  · unfold Contents.onLive
    split
    · exact links_beginConstruction ..
    · rfl

theorem Shows.finishConstruction (hF : s.Shows t F) (h : s.Sound) (e : Entity) :
    ((Store.finishConstruction e).run s).state.Shows t F := by
  refine hF.of_settles h settles_finishConstruction ?_ ?_
  · unfold Contents.onLive Contents.finishConstruction
    split
    · split <;> rfl
    · rfl
  · unfold Contents.onLive
    split
    · exact links_finishConstruction ..
    · rfl

theorem Shows.clearFinished (hF : s.Shows t F) (h : s.Sound) :
    (Store.clearFinished.run s).state.Shows t F := by
  obtain ⟨es, -, -, -, -, hm⟩ := h.run_clearFinished
  refine hF.of_links (Contents.links_eq_of_value? fun x d hd => ?_) fun p c hc => ?_
  · rw [hm]
    refine Contents.value?_without_of_ne ?_
    rintro rfl
    simp [Kind.tag?] at hd
  · rw [← live_contents, hm]
    exact hF.valid hc

end Store

/-! ## All disciplined operations -/

namespace Op

variable {s : Store S} {G : Forests S} {k : Op S} {t : S.Tag} {p c : Entity}

/-- Every forest stays shown through a prepending, whether it succeeds or not. -/
theorem shows_prependChild (h : s.Sound) (hG : ∀ t, s.Shows t (G t)) (u : S.Tag) :
    ((Store.prependChild t p c).run s).state.Shows u
      (G.after s (.prependChild t p c) ((Store.prependChild t p c).run s).result u) := by
  obtain ⟨L, F', hL, hm, hcases⟩ := h.run_prependChild (p := p) (c := c) (hG t)
  have hafter : G.after s (.prependChild t p c) ((Store.prependChild t p c).run s).result =
      Function.update G t F' := by
    rcases hcases with ⟨-, hr, rfl⟩ | ⟨-, ⟨f, hr⟩, rfl⟩
    · rw [hr]
      rfl
    · rw [hr, Function.update_eq_self]
      rfl
  rw [hafter]
  exact Store.shows_relink hG hm hL u

/-- Every forest stays shown through a removal, whether it succeeds or not. -/
theorem shows_removeChild (h : s.Sound) (hG : ∀ t, s.Shows t (G t)) (u : S.Tag) :
    ((Store.removeChild t p c).run s).state.Shows u
      (G.after s (.removeChild t p c) ((Store.removeChild t p c).run s).result u) := by
  obtain ⟨hr, L, hL, hm⟩ := h.run_removeChild (p := p) (c := c) (hG t)
  have hafter : G.after s (.removeChild t p c) ((Store.removeChild t p c).run s).result =
      Function.update G t ((G t).remove p c) := by
    cases hres : ((Store.removeChild t p c).run s).result with
    | ok b => rfl
    | error f =>
      -- Where there is an edge the answer is that there is one.
      have hnot : c ∉ G t p := fun hmem => by
        have htrue := (Forest.hasEdge_eq_ok_true_iff h.valid_null (hG t).live).2 hmem
        rw [hr, htrue] at hres
        simp at hres
      rw [Forest.remove_of_not_mem hnot, Function.update_eq_self]
      rfl
  rw [hafter]
  exact Store.shows_relink hG hm hL u

theorem shows_detachChild (h : s.Sound) (hG : ∀ t, s.Shows t (G t)) (u : S.Tag) :
    ((Store.detachChild t c).run s).state.Shows u
      (G.after s (.detachChild t c) ((Store.detachChild t c).run s).result u) := by
  obtain ⟨⟨L, hL, hm⟩, hask, -⟩ := h.run_detachChild (c := c) (hG t)
  have hafter : G.after s (.detachChild t c) ((Store.detachChild t c).run s).result =
      Function.update G t ((G t).detach c) := by
    cases hres : ((Store.detachChild t c).run s).result with
    | ok b => rfl
    | error f =>
      -- A handle that may not be asked about occurs in no list.
      have hnot : ∀ p, c ∉ G t p := fun p hmem => by
        obtain ⟨b, hr, -⟩ := hask (.inl ((hG t).valid hmem).1)
        simp [hres] at hr
      rw [Forest.detach_of_not_mem hnot, Function.update_eq_self]
      rfl
  rw [hafter]
  exact Store.shows_relink hG hm hL u

theorem shows_clearSelection {sel : Selector S} (h : s.Sound) (hG : ∀ t, s.Shows t (G t))
    (u : S.Tag) :
    ((Store.clearSelection t sel).run s).state.Shows u
      (G.after s (.clearSelection t sel) ((Store.clearSelection t sel).run s).result u) := by
  obtain ⟨L, hL, hr, -, hm⟩ := h.run_clearSelection (hG t) sel
  rw [hr]
  exact Store.shows_relink hG hm hL u

/-- A disciplined operation on links that show forests leaves links that show forests. -/
theorem Disciplined.shows (hk : k.Disciplined s) (h : s.Sound) (hG : ∀ t, s.Shows t (G t)) :
    ∀ u, (k.run.run s).state.Shows u (G.after s k (k.run.run s).result u) := by
  cases k with
  | call k => exact fun u => Call.Disciplined.shows hk h (hG u)
  | setName c name => exact fun u => (hG u).of_quiet h (Store.quiet_setName c name)
  | setContext c name v => exact fun u => (hG u).of_quiet h (Store.quiet_setContext c name v)
  | updateContext? c f => exact fun u => (hG u).of_quiet h (Store.quiet_updateContext? c f)
  | updateContext c f => exact fun u => (hG u).of_quiet h (Store.quiet_updateContext c f)
  | getOrSetContext c name make =>
    exact fun u => (hG u).of_quiet h (Store.quiet_getOrSetContext c name make)
  | removeContext c => exact fun u => (hG u).of_quiet h (Store.quiet_removeContext c)
  | checkWhitelist e w => exact fun u => (hG u).of_quiet h (Store.quiet_checkWhitelist e w)
  | beginConstruction e => exact fun u => (hG u).beginConstruction h e
  | finishConstruction e => exact fun u => (hG u).finishConstruction h e
  | clearFinished => exact fun u => (hG u).clearFinished h
  | prependChild t p c => exact shows_prependChild h hG
  | removeChild t p c => exact shows_removeChild h hG
  | detachChild t c => exact shows_detachChild h hG
  | clearSelection t sel => exact shows_clearSelection h hG

end Op

end EntityStore
