import EntityStore.Proofs.Roaming

/-!
# Every child is visited

A walk over the children of a parent reads the child after a child, and then hands the child to its
visitor.  What the visitor does to the child edits the links of its neighbours and of the parent.
It may fail half-way, and it may leave links that lead to destroyed entities.  So nothing is left
that could be said about the children that were visited before.

But the walk needs the children that are still to come only.  They name the parent, and each of them
leads on to the next (`Links.Ahead`).  An edit of the child that was handed out takes none of this
away: it writes to the neighbour before the child, which is not to come any more, and in the
neighbour after it to the link that leads back (`Links.Handed`, `Store.keeps_removeChild`).  So the
walk does what it would do if it had listed all children in advance (`History.Leads.visits_each`).
-/

namespace EntityStore

open EntityStore.Action

variable {S : Schema}

/-! ## Children to come -/

namespace Links

variable {L L' : Links} {p c d e q : Entity} {cs : List Entity} {v : SiblingLinks}

/-- The children of a parent that a walk will come to. -/
structure Ahead (L : Links) (p : Entity) (cs : List Entity) : Prop where
  /-- None comes twice. -/
  nodup : cs.Nodup
  /-- Each names the parent. -/
  parent : ∀ x ∈ cs, L.parent? x = some ⟨p⟩
  /-- Each leads on to the next.  The first may lead back to any entity that is not to come. -/
  threaded : ∃ before, before ∉ cs ∧ Threaded L.siblings? before cs .null

/-- A child that was handed to a visitor, before the children to come. -/
structure Handed (L : Links) (p c : Entity) (cs : List Entity) : Prop where
  /-- The children to come. -/
  ahead : L.Ahead p cs
  /-- The child does not come again. -/
  not_mem : c ∉ cs
  /-- If the child is linked, it leads on to the next child, and back to none that is to come. -/
  siblings : ∀ v, L.siblings? c = some v → v.next = cs.head?.getD .null ∧ v.prev ∉ cs

/-- The first of the children to come may be handed out. -/
theorem Ahead.handed (h : L.Ahead p (c :: cs)) : L.Handed p c cs := by
  obtain ⟨hnot, hn⟩ := List.nodup_cons.1 h.nodup
  obtain ⟨before, hbefore, hc, hcs⟩ := h.threaded
  refine ⟨⟨hn, fun x hx => h.parent x (List.mem_cons_of_mem c hx), c, hnot, hcs⟩, hnot, ?_⟩
  intro v hv
  obtain rfl := Option.some.inj (hv.symm.trans hc)
  exact ⟨rfl, fun hmem => hbefore (List.mem_cons_of_mem c hmem)⟩

namespace Handed

/-- Only the links of the children matter. -/
theorem congr (h : L.Handed p c cs) (hparent : ∀ x ∈ cs, L'.parent? x = L.parent? x)
    (hsiblings : ∀ x ∈ cs, L'.siblings? x = L.siblings? x)
    (hc : ∀ v, L'.siblings? c = some v → v.next = cs.head?.getD .null ∧ v.prev ∉ cs) :
    L'.Handed p c cs := by
  obtain ⟨before, hbefore, hthread⟩ := h.ahead.threaded
  exact ⟨⟨h.ahead.nodup, fun x hx => (hparent x hx).trans (h.ahead.parent x hx), before, hbefore,
    hthread.congr hsiblings⟩, h.not_mem, hc⟩

/-- An entity that is not to come may get other neighbours. -/
theorem update (h : L.Handed p c cs) (he : e ∉ cs)
    (hv : e = c → v.next = cs.head?.getD .null ∧ v.prev ∉ cs) :
    Handed { L with siblings? := Function.update L.siblings? e (some v) } p c cs := by
  refine h.congr (fun _ _ => rfl)
    (fun x hx => Function.update_of_ne (ne_of_mem_of_not_mem hx he) ..) fun w hw => ?_
  by_cases hce : c = e
  · subst hce
    obtain rfl : v = w := by simpa using hw
    exact hv rfl
  · exact h.siblings w (by simpa [Function.update_of_ne hce] using hw)

/-- The next child may be led back to an entity that is not to come. -/
theorem update_head (h : L.Handed p c (d :: cs)) (hv : L.siblings? d = some v)
    (hq : q ∉ d :: cs) :
    Handed { L with siblings? := Function.update L.siblings? d (some { v with prev := q }) } p c
      (d :: cs) := by
  obtain ⟨before, -, hd, hcs⟩ := h.ahead.threaded
  obtain ⟨hnot, -⟩ := List.nodup_cons.1 h.ahead.nodup
  obtain rfl := Option.some.inj (hv.symm.trans hd)
  have hcd : c ≠ d := fun heq => h.not_mem (heq ▸ List.mem_cons_self)
  refine ⟨⟨h.ahead.nodup, h.ahead.parent, q, hq, Function.update_self .., ?_⟩, h.not_mem,
    fun w hw => h.siblings w ?_⟩
  · exact hcs.congr fun x hx => Function.update_of_ne (ne_of_mem_of_not_mem hx hnot) ..
  · simpa [Function.update_of_ne hcd] using hw

/-- The child may lose links. -/
theorem forget (h : L.Handed p c cs) : (L.forget c).Handed p c cs := by
  have hne : ∀ x ∈ cs, x ≠ c := fun x hx hxc => h.not_mem (hxc ▸ hx)
  refine h.congr (fun x hx => Function.update_of_ne (hne x hx) ..)
    (fun x hx => Function.update_of_ne (hne x hx) ..) fun v hv => ?_
  simp [Links.forget] at hv

end Handed

end Links

/-! ## What actions keep -/

namespace Action

variable {ε α β : Type} {I : Contents S → Prop}

/-- To answer something else changes nothing. -/
theorem state_bind_pure {σ : Type} {x : Action σ ε α} {b : β} {s : σ} :
    ((x >>= fun _ => pure b).run s).state = (x.run s).state := by
  cases hr : (x.run s).result with
  | ok a => exact (run_bind_of_ok _ hr).2
  | error e => exact (run_bind_of_error _ hr).2

/-- Whatever the action does to a sound store with contents of some kind, it leaves such a
store. -/
def Keeps (I : Contents S → Prop) (x : Action (Store S) ε α) : Prop :=
  ∀ s : Store S, s.Sound → I s.contents → x.Ends s fun _ s' => s'.Sound ∧ I s'.contents

/-- What each step keeps, a sequence of steps keeps. -/
theorem Keeps.bind {x : Action (Store S) ε α} {f : α → Action (Store S) ε β} (hx : x.Keeps I)
    (hf : ∀ a, (f a).Keeps I) : (x >>= f).Keeps I := by
  intro s hs hI
  refine ends_bind ((hx s hs hI).imp fun r s' hkept => ?_)
  cases r with
  | ok a => exact hf a s' hkept.1 hkept.2
  | error e => exact hkept

/-- An action that asks first goes on with an answer that some store of the kind gives. -/
theorem keeps_query_bind {q : Store S → Except ε α} {f : α → Action (Store S) ε β}
    (hf : ∀ s a, s.Sound → I s.contents → q s = .ok a → (f a).Keeps I) :
    (query q >>= f).Keeps I := fun s hs hI =>
  ends_query_bind (fun _ _ => ⟨hs, hI⟩) fun a ha => hf s a hs hI ha s hs hI

theorem keeps_pure (a : α) : (pure a : Action (Store S) ε α).Keeps I := fun _ hs hI => ⟨hs, hI⟩

theorem keeps_query (q : Store S → Except ε α) : (query q).Keeps I := fun _ hs hI => ⟨hs, hI⟩

theorem keeps_require (b : Bool) (e : ε) : (require b e : Action (Store S) ε Unit).Keeps I := by
  cases b with
  | true => exact keeps_pure ()
  | false => exact fun _ hs hI => ⟨hs, hI⟩

/-- An action whose outcome is known on contents is judged there. -/
theorem keeps_of_settles {x : Action (Store S) ε α}
    (hx : ∀ m, I m → ∃ r m', x.Settles m r m' ∧ I m') : x.Keeps I := by
  intro s hs hI
  obtain ⟨r, m', hsettles, hI'⟩ := hx _ hI
  exact hsettles.ends hs rfl fun s' hs' hm' => ⟨hs', hm' ▸ hI'⟩

end Action

namespace Store

open Contents

variable {s u : Store S} {t : S.Tag} {p c d e q : Entity} {cs : List Entity} {ε α : Type}
  {v : SiblingLinks}

section

variable {I : Contents S → Prop} {d : Component S}

/-- A change of a value keeps what it keeps where the value is there. -/
theorem keeps_update {f : d.Value → d.Value}
    (h : ∀ m w, I m → m.value? e d = some w → I (m.assign e d (some (f w)))) :
    (Store.update e d f).Keeps I := by
  refine keeps_of_settles fun m hI => ⟨_, _, settles_update f, ?_⟩
  cases he : m.live e with
  | false => rwa [withValue, onLive_of_dead he]
  | true =>
    rw [withValue, onLive_of_live he]
    cases hw : m.value? e d with
    | none => exact hI
    | some w => exact h m w hI hw

theorem keeps_detach (h : ∀ m, I m → I (m.assign e d none)) : (Store.detach e d).Keeps I := by
  refine keeps_of_settles fun m hI => ⟨_, _, settles_detach, ?_⟩
  cases he : m.live e with
  | false => rwa [withValue, onLive_of_dead he]
  | true =>
    rw [withValue, onLive_of_live he]
    cases hw : m.value? e d with
    | none => exact hI
    | some w => exact h m hI

end

/-! ## What edits of a child keep

Each lemma says that the children to come after a child that was handed out are as they should be,
whatever else is left. -/

section Edits

variable {f : SiblingLinks → SiblingLinks}

/-- The write before the gap is to an entity that is not to come. -/
theorem keeps_closeBefore (hnext : v.next = cs.head?.getD .null) (hprev : v.prev ∉ cs) :
    (closeBefore t q c v).Keeps fun m => (m.links t).Handed p d cs := by
  unfold closeBefore
  split
  · refine (keeps_query _).bind fun _ => (keeps_require _ _).bind fun _ => ?_
    refine Keeps.bind (keeps_update fun m w hI _ => ?_) fun _ => keeps_pure ()
    rw [links_assign_firstChild]
    exact hI.congr (fun _ _ => rfl) (fun _ _ => rfl) hI.siblings
  · refine Keeps.bind (keeps_update fun m w hI hw => ?_) fun _ => keeps_pure ()
    rw [links_assign_siblingLinks]
    refine hI.update hprev ?_
    rintro rfl
    exact ⟨hnext, (hI.siblings w hw).2⟩

/-- The write after the gap is to the link of the next child that leads back. -/
theorem keeps_closeAfter (hnext : v.next = cs.head?.getD .null) (hprev : v.prev ∉ cs) :
    (closeAfter t v).Keeps fun m => (m.links t).Handed p d cs := by
  unfold closeAfter
  split
  · exact keeps_pure ()
  · next hne =>
    cases cs with
    | nil => exact absurd (Entity.isNull_iff.2 hnext) hne
    | cons x cs =>
      obtain rfl : v.next = x := hnext
      refine Keeps.bind (keeps_update fun m w hI hw => ?_) fun _ => keeps_pure ()
      rw [links_assign_siblingLinks]
      exact hI.update_head hw hprev

/-- The count of a parent has nothing to do with the children to come. -/
theorem keeps_countDown : (countDown t q).Keeps fun m => (m.links t).Handed p d cs := by
  refine (keeps_query _).bind fun count => (keeps_require _ _).bind fun _ => ?_
  refine Keeps.bind (keeps_update fun m w hI _ => ?_) fun _ => ?_
  · rw [links_assign_childCount]
    exact hI.congr (fun _ _ => rfl) (fun _ _ => rfl) hI.siblings
  split
  · refine (keeps_query _).bind fun head => (keeps_require _ _).bind fun _ => ?_
    refine Keeps.bind (keeps_detach fun m hI => ?_) fun _ =>
      Keeps.bind (keeps_detach fun m hI => ?_) fun _ => keeps_pure ()
    · rw [links_assign_firstChild]
      exact hI.congr (fun _ _ => rfl) (fun _ _ => rfl) hI.siblings
    · rw [links_assign_childCount]
      exact hI.congr (fun _ _ => rfl) (fun _ _ => rfl) hI.siblings
  · exact keeps_pure ()

/-- The child that loses its links is not to come. -/
theorem keeps_dropChildLinks : (dropChildLinks t d).Keeps fun m => (m.links t).Handed p d cs := by
  refine Keeps.bind (keeps_detach fun m hI => ?_) fun _ =>
    Keeps.bind (keeps_detach fun m hI => ?_) fun _ => keeps_pure ()
  · rw [links_assign_parentLink]
    refine hI.congr (fun x hx => ?_) (fun _ _ => rfl) hI.siblings
    exact Function.update_of_ne (ne_of_mem_of_not_mem hx hI.not_mem) ..
  · rw [links_assign_siblingLinks]
    refine hI.congr (fun _ _ => rfl) (fun x hx => ?_) fun w hw => ?_
    · exact Function.update_of_ne (ne_of_mem_of_not_mem hx hI.not_mem) ..
    · simp at hw

/-- The removal of the child in hand, from whatever parent, leaves the children ahead in order. -/
theorem keeps_removeChild : (removeChild t q d).Keeps fun m => (m.links t).Handed p d cs := by
  refine (keeps_query _).bind fun b => ?_
  split
  · refine keeps_query_bind fun s v _ hI hget => ?_
    obtain ⟨hnext, hprev⟩ := hI.siblings v (get_eq_ok_iff.1 hget).2
    exact (keeps_closeBefore hnext hprev).bind fun _ =>
      (keeps_closeAfter hnext hprev).bind fun _ => keeps_countDown.bind fun _ =>
        keeps_dropChildLinks.bind fun _ => keeps_pure true
  · exact keeps_pure false

theorem keeps_detachChild : (detachChild t d).Keeps fun m => (m.links t).Handed p d cs := by
  refine (keeps_query _).bind fun parent => ?_
  cases parent with
  | some q => exact keeps_removeChild
  | none => exact keeps_pure false

/-- The walk stands wherever the child in hand is destroyed. -/
theorem keeps_tryDestroy : (tryDestroy d).Keeps fun m => (m.links t).Handed p d cs := by
  refine keeps_of_settles fun m hI => ⟨_, _, settles_tryDestroy, ?_⟩
  cases hd : m.live d with
  | false => rwa [onLive_of_dead hd]
  | true =>
    rw [onLive_of_live hd, links_release]
    exact hI.forget

end Edits

/-! ## The walk -/

/-- Hands each of some children of a parent to a visitor, in order, until it fails. -/
def handEach (p : Entity) (visitor : Entity → Entity → Action (Store S) Fault α) :
    List Entity → Action (Store S) ε (Visits α)
  | [] => pure {}
  | c :: cs => do
    match ← (visitor p c).attempt with
    | .error f => pure { failure := some f }
    | .ok a =>
      let rest ← handEach p visitor cs
      pure { rest with visited := (c, a) :: rest.visited }

/-- The walk finds the child after the first of the children to come. -/
theorem Sound.successor_eq (hs : s.Sound) (hA : (s.contents.links t).Ahead p (c :: cs)) :
    s.successor t p c = .ok cs.head? := by
  obtain ⟨before, -, hlinks, -⟩ := hA.threaded
  have hparent : s.lookup? c (.parentLink t) = some (⟨p⟩ : ParentLink) :=
    hA.parent c List.mem_cons_self
  have hlive : s.valid c = true := hs.valid_of_lookup? hparent
  have hchild : s.isChildOf t p c = .ok true := by
    rw [isChildOf, hs.parentOf?_eq (.inl hlive), hparent]
    exact congrArg Except.ok (decide_eq_true rfl)
  have hget := get_of_lookup? hlive hlinks
  have hnext : (cs.head?.getD .null).nonNull? = cs.head? := by
    cases cs with
    | nil => rfl
    | cons x cs =>
      have hx := hA.parent x (List.mem_cons_of_mem c List.mem_cons_self)
      exact Entity.nonNull?_eq_some_iff.2 ⟨hs.ne_null (hs.valid_of_lookup? hx), rfl⟩
  rw [successor, hchild]
  change (s.get c (.siblingLinks t) >>= _) = _
  rw [hget]
  exact congrArg Except.ok hnext

/-- The walk hands out the children to come, if its visitor keeps those that are left. -/
theorem Sound.run_visitFrom_eq_handEach {visitor : Entity → Entity → Action (Store S) Fault α}
    (hvisitor : ∀ c cs, (visitor p c).Keeps fun m => (m.links t).Handed p c cs) {n : Nat}
    (hs : s.Sound) (hA : (s.contents.links t).Ahead p cs) (hn : cs.length ≤ n) :
    (visitFrom t p visitor n cs.head? : Action (Store S) ε _).run s =
      (handEach p visitor cs).run s := by
  induction cs generalizing n s with
  | nil => rw [List.head?_nil, visitFrom, handEach]
  | cons c cs ih =>
    obtain ⟨n, rfl⟩ := Nat.exists_eq_add_of_le' hn
    have hstep : n + (c :: cs).length = n + cs.length + 1 := rfl
    obtain ⟨hs', hI⟩ := hvisitor c cs s hs hA.handed
    have hrest := ih hs' hI.ahead (Nat.le_add_left cs.length n)
    rw [List.head?_cons, hstep, run_visitFrom_succ (hs.successor_eq hA), handEach, run_bind,
      run_bind, run_attempt]
    cases hr : ((visitor p c).run s).result with
    | error f => rfl
    | ok a => simp only [run_bind, hrest]

/-- The children of a parent are ahead of a walk that starts. -/
theorem Shows.ahead {F : Forest} (hF : s.Shows t F) (hs : s.Sound) :
    (s.contents.links t).Ahead p (F p) where
  nodup := Links.Shows.nodup hF p
  parent _ hx := hF.parent?_eq hx
  threaded := ⟨.null, fun hmem => (hF.live_ne_null hs .null hmem).1 rfl, Links.Shows.threaded hF p⟩

/-- The walk hands out the children that were listed before it. -/
theorem Shows.run_visitChildren {F : Forest} (hF : s.Shows t F) (hs : s.Sound) (hp : s.Askable p)
    (hcs : s.listChildren t p = .ok cs) {visitor : Entity → Entity → Action (Store S) Fault α}
    (hvisitor : ∀ c cs, (visitor p c).Keeps fun m => (m.links t).Handed p c cs) {n : Nat}
    (hn : cs.length ≤ n) :
    (visitChildren n t p visitor : Action (Store S) ε _).run s =
      (handEach p visitor cs).run s := by
  rw [hF.listChildren_eq hs hp] at hcs
  obtain rfl := Except.ok.inj hcs
  have hwalk := hs.run_visitFrom_eq_handEach (ε := ε) hvisitor (hF.ahead hs) hn
  simp [visitChildren, run_bind, hF.firstChildOf?_eq hs hp, hwalk]

/-- A visitor that does not fail is handed every child. -/
theorem run_handEach_of_ok {visitor : Entity → Entity → Action (Store S) Fault α}
    (hok : ∀ c v, ∃ a, ((visitor p c).run v).result = .ok a) :
    ∃ visits : Visits α,
      ((handEach p visitor cs : Action (Store S) ε _).run s).result = .ok visits ∧
      visits.visited.map Prod.fst = cs ∧ visits.failure = none := by
  induction cs generalizing s with
  | nil => exact ⟨{}, rfl, rfl, rfl⟩
  | cons c cs ih =>
    obtain ⟨a, ha⟩ := hok c s
    obtain ⟨rest, hrest, hfst, hnone⟩ := ih (s := ((visitor p c).run s).state)
    refine ⟨{ rest with visited := (c, a) :: rest.visited }, ?_, ?_, hnone⟩
    · simp only [handEach, run_bind, run_attempt, run_pure, ha, hrest]
    · rw [List.map_cons, hfst]

end Store

/-! ## Visitors -/

variable {s u : Store S} {t : S.Tag} {p c : Entity} {cs : List Entity} {K : History S}

/-- What a visitor may do while it has a child: it may unlink or destroy the child, in any way, and
do anything else that leaves the links of the hierarchy alone. -/
inductive Op.Tends (t : S.Tag) (c : Entity) : Op S → Store S → Prop where
  /-- It unlinks the child. -/
  | remove {s : Store S} (p : Entity) : Tends t c (.removeChild t p c) s
  /-- It unlinks the child from the parent that it has. -/
  | detach {s : Store S} : Tends t c (.detachChild t c) s
  /-- It destroys the child. -/
  | release {k : Op S} {s : Store S} (hk : k.Releases c) : Tends t c k s
  /-- It leaves the hierarchy alone. -/
  | spare {k : Op S} {s : Store S}
      (hk : (k.run.run s).state.contents.links t = s.contents.links t) : Tends t c k s

/-- Whatever a tending visitor does to the child in hand, the children ahead stay in their order. -/
theorem Op.Tends.handed {k : Op S} (hk : k.Tends t c s) (hs : s.Sound)
    (h : (s.contents.links t).Handed p c cs) :
    ((k.run.run s).state.contents.links t).Handed p c cs := by
  cases hk with
  | remove q => exact (Store.keeps_removeChild s hs h).2
  | detach => exact (Store.keeps_detachChild s hs h).2
  | release hk =>
    rcases hk with rfl | rfl
    · exact (Store.keeps_tryDestroy s hs h).2
    · exact (Store.keeps_tryDestroy s hs h).2
  | spare hk => rwa [hk]

/-- What a visitor does to a child keeps the children to come. -/
theorem History.Takes.handed (h : Takes (Op.Tends t c) s K u) (hs : s.Sound)
    (hI : (s.contents.links t).Handed p c cs) :
    u.Sound ∧ (u.contents.links t).Handed p c cs := by
  induction h with
  | start => exact ⟨hs, hI⟩
  | step before k hk ih => exact ⟨(k.safe _ ih.1).state, hk.handed ih.1 ih.2⟩

/-! ## Choices -/

/-- What a visitor does to a child. -/
inductive Choice where
  /-- It leaves the child alone. -/
  | leave
  /-- It unlinks the child. -/
  | unlink
  /-- It destroys the child. -/
  | destroy
  /-- It unlinks the child, and then destroys it. -/
  | unlinkThenDestroy
  deriving DecidableEq, Repr

namespace Choice

/-- Does to a child what was chosen.  Answers whether the child was unlinked, if it was to be. -/
def carryOut (t : S.Tag) (p c : Entity) : Choice → Action (Store S) Fault Bool
  | leave => pure true
  | unlink => Store.removeChild t p c
  | destroy => do
    Store.destroy c
    pure true
  | unlinkThenDestroy => do
    let removed ← Store.removeChild t p c
    Store.destroy c
    pure removed

/-- Whatever is chosen, a visitor may do it. -/
theorem takes (choice : Choice) (p : Entity) :
    ∃ K, History.Takes (Op.Tends t c) s K ((choice.carryOut t p c).run s).state := by
  cases choice with
  | leave => exact ⟨[], .start⟩
  | unlink => exact ⟨_, History.Takes.start.step (.removeChild t p c) (Op.Tends.remove p)⟩
  | destroy =>
    rw [carryOut, state_bind_pure]
    exact ⟨_, History.Takes.start.step (.call (.destroy c)) (Op.Tends.release (.inl rfl))⟩
  | unlinkThenDestroy =>
    have hremove : History.Takes (Op.Tends t c) s _ _ :=
      History.Takes.start.step (.removeChild t p c) (Op.Tends.remove p)
    cases hr : ((Store.removeChild t p c).run s).result with
    | ok removed =>
      rw [carryOut, (run_bind_of_ok _ hr).2, state_bind_pure]
      exact ⟨_, hremove.step (.call (.destroy c)) (Op.Tends.release (.inl rfl))⟩
    | error f =>
      rw [carryOut, (run_bind_of_error _ hr).2]
      exact ⟨_, hremove⟩

/-- Whatever is chosen, the children to come are kept. -/
theorem keeps_carryOut (choice : Choice) :
    (choice.carryOut t p c).Keeps fun m => (m.links t).Handed p c cs := by
  intro v hv hI
  obtain ⟨K, htakes⟩ := choice.takes p
  exact htakes.handed hv hI

/-- Does to each child what was chosen for it, and catches what fails. -/
def attempts (t : S.Tag) (choice : Entity → Choice) (p c : Entity) :
    Action (Store S) Fault (Except Fault Bool) :=
  ((choice c).carryOut t p c).attempt

end Choice

/-! ## Walks -/

/-- Wherever a disciplined history leads, a walk over the children of a parent hands each child to
its visitor, in the order in which they were listed before the walk, as long as the visitor does not
fail.  The visitor may unlink and destroy the child that it was handed, and do anything else that
leaves the hierarchy alone.  The steps of the walk itself never fail. -/
theorem History.Leads.visits_each {ε α : Type} {H : History S} {G : Forests S} (h : H.Leads s G)
    (t : S.Tag) (hp : s.Askable p) (visitor : Entity → Entity → Action (Store S) Fault α)
    (hvisitor : ∀ c v, v.Sound → ∃ K, Takes (Op.Tends t c) v K ((visitor p c).run v).state) :
    ∃ cs, s.listChildren t p = .ok cs ∧ ∀ limit, cs.length ≤ limit →
      (Store.visitChildren limit t p visitor : Action (Store S) ε _).run s =
        (Store.handEach p visitor cs).run s ∧
      ((∀ c v, ∃ a, ((visitor p c).run v).result = .ok a) → ∃ visits : Store.Visits α,
        ((Store.visitChildren limit t p visitor : Action (Store S) ε _).run s).result =
          .ok visits ∧ visits.visited.map Prod.fst = cs ∧ visits.failure = none) := by
  obtain ⟨hs, hG⟩ := h.shows
  have hkeeps : ∀ c cs, (visitor p c).Keeps fun m => (m.links t).Handed p c cs := by
    intro c cs v hv hI
    obtain ⟨K, htakes⟩ := hvisitor c v hv
    exact htakes.handed hv hI
  have hlist := (hG t).listChildren_eq hs hp
  refine ⟨G t p, hlist, fun limit hlimit => ?_⟩
  have hrun := (hG t).run_visitChildren (ε := ε) hs hp hlist hkeeps hlimit
  refine ⟨hrun, fun hok => ?_⟩
  rw [hrun]
  exact Store.run_handEach_of_ok hok

/-- The first of three children is unlinked and the second is destroyed, and so the attempt to
unlink the third fails.  All three are visited. -/
theorem History.Leads.visits_each_dangling :
    ∃ (H : History Schema.sample) (s : Store Schema.sample) (G : Forests Schema.sample)
      (visits : Store.Visits (Except Fault Bool)), H.Leads s G ∧
      s.listChildren () ⟨0, 0⟩ = .ok [⟨3, 0⟩, ⟨2, 0⟩, ⟨1, 0⟩] ∧
      visits.visited = [(⟨3, 0⟩, .ok true), (⟨2, 0⟩, .ok true),
        (⟨1, 0⟩, .error (.refused (.stale ⟨2, 0⟩)))] ∧
      visits.visited.map Prod.fst = [⟨3, 0⟩, ⟨2, 0⟩, ⟨1, 0⟩] ∧ visits.failure = none := by
  have hnew : History.Leads (S := Schema.sample) _ _ _ :=
    (((History.Leads.new.step (.call .create) trivial).step (.call .create) trivial).step
      (.call .create) trivial).step (.call .create) trivial
  have hrun : History.Leads (S := Schema.sample) _ _ _ :=
    ((hnew.step (.prependChild () ⟨0, 0⟩ ⟨1, 0⟩) trivial).step
      (.prependChild () ⟨0, 0⟩ ⟨2, 0⟩) trivial).step (.prependChild () ⟨0, 0⟩ ⟨3, 0⟩) trivial
  obtain ⟨cs, hcs, hwalk⟩ := hrun.visits_each (ε := Fault) (p := ⟨0, 0⟩) () (.inl rfl)
    (Choice.attempts () fun c => if c = ⟨2, 0⟩ then .destroy else .unlink)
    fun c v _ => Choice.takes _ _
  obtain rfl : [⟨3, 0⟩, ⟨2, 0⟩, ⟨1, 0⟩] = cs := Except.ok.inj hcs
  obtain ⟨heach, hvisits⟩ := hwalk 3 (by decide)
  obtain ⟨visits, hresult, hfst, hnone⟩ := hvisits fun c v => ⟨_, rfl⟩
  refine ⟨_, _, _, visits, hrun, hcs, ?_, hfst, hnone⟩
  rw [heach] at hresult
  obtain rfl : { visited := [(⟨3, 0⟩, .ok true), (⟨2, 0⟩, .ok true),
    (⟨1, 0⟩, .error (.refused (.stale ⟨2, 0⟩)))] } = visits := Except.ok.inj hresult
  rfl

end EntityStore
