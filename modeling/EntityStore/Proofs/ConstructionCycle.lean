import EntityStore.Proofs.Roaming

/-!
# The cycle of construction

An entity that is put together in several steps goes through a cycle: its construction begins, is
completed, and is seen by a sweep.  A *turn* (`Turn`) is what an operation did to this cycle.  The
turns can be read off a history, since they are told by the results of its operations.

The two marks of an entity follow from the turns alone (`History.Takes.marks_eq`), provided that
nothing but the steps of construction and destruction writes to them (`Op.Builds`).  So the last
turn of an entity tells which mark it carries, and each sweep counts the entities completed since
the sweep before (`History.Takes.construction_cycle`).
-/

namespace EntityStore

variable {S : Schema} {s s' u : Store S} {H : History S} {e x : Entity} {k : Op S}

/-! ## Turns -/

/-- What an operation did to the construction of entities. -/
inductive Turn where
  /-- The construction of an entity was begun. -/
  | begins (e : Entity)
  /-- The construction of an entity was completed. -/
  | completes (e : Entity)
  /-- An entity was released. -/
  | releases (e : Entity)
  /-- A sweep counted a number of completed entities. -/
  | sweeps (n : Nat)
  /-- Nothing of the kind. -/
  | other
deriving DecidableEq

namespace Turn

/-- Whether the turn is one of an entity. -/
def isOf (e : Entity) : Turn → Bool
  | begins x | completes x | releases x => x = e
  | sweeps _ | other => false

/-- Whether the turn is a sweep. -/
def isSweep : Turn → Bool
  | sweeps _ => true
  | begins _ | completes _ | releases _ | other => false

/-- Whether the turn is a completion. -/
def isCompletion : Turn → Bool
  | completes _ => true
  | begins _ | releases _ | sweeps _ | other => false

/-- The number of entities that a sweep counted. -/
def counted : Turn → Nat
  | sweeps n => n
  | begins _ | completes _ | releases _ | other => 0

/-- Whether an entity carries the mark `unfinished` and whether it carries the mark `finished`,
after a turn. -/
def after (e : Entity) : Turn → Bool × Bool → Bool × Bool
  | begins x, p => if x = e then (true, false) else p
  | completes x, p => if x = e then (false, true) else p
  | releases x, p => if x = e then (false, false) else p
  | sweeps _, p => (p.1, false)
  | other, p => p

/-- The marks of an entity after some turns, the latest of which comes first. -/
def marks (ts : List Turn) (e : Entity) : Bool × Bool := ts.foldr (after e) (false, false)

variable {ts : List Turn}

/-- No entity has both marks. -/
theorem marks_ne (ts : List Turn) (e : Entity) : marks ts e ≠ (true, true) := by
  induction ts with
  | nil => simp [marks]
  | cons t ts ih =>
    change after e t (marks ts e) ≠ (true, true)
    cases t with
    | begins x => by_cases hx : x = e <;> simp [after, hx, ih]
    | completes x => by_cases hx : x = e <;> simp [after, hx, ih]
    | releases x => by_cases hx : x = e <;> simp [after, hx, ih]
    | sweeps n => simp [after]
    | other => exact ih

/-- The mark `unfinished` tells that the last turn of the entity began its construction. -/
theorem marks_fst_iff : (marks ts e).1 = true ↔ ts.find? (isOf e) = some (begins e) := by
  induction ts with
  | nil => simp [marks]
  | cons t ts ih =>
    change (after e t (marks ts e)).1 = true ↔ _
    cases t with
    | begins x => by_cases hx : x = e <;> simp [after, isOf, hx, ih]
    | completes x => by_cases hx : x = e <;> simp [after, isOf, hx, ih]
    | releases x => by_cases hx : x = e <;> simp [after, isOf, hx, ih]
    | sweeps n => simpa [after, isOf] using ih
    | other => simpa [after, isOf] using ih

/-- The mark `finished` tells that the last turn of the entity completed its construction, and that
no sweep came after it. -/
theorem marks_snd_iff : (marks ts e).2 = true ↔
    ts.find? (fun t => t.isOf e || t.isSweep) = some (completes e) := by
  induction ts with
  | nil => simp [marks]
  | cons t ts ih =>
    change (after e t (marks ts e)).2 = true ↔ _
    cases t with
    | begins x => by_cases hx : x = e <;> simp [after, isOf, isSweep, hx, ih]
    | completes x => by_cases hx : x = e <;> simp [after, isOf, isSweep, hx, ih]
    | releases x => by_cases hx : x = e <;> simp [after, isOf, isSweep, hx, ih]
    | sweeps n => simp [after, isOf, isSweep]
    | other => simpa [after, isOf, isSweep] using ih

end Turn

/-- What a call that ended with some result did to the construction of entities. -/
def Call.turn : (k : Call S) → Except Fault k.Answer → Turn
  | .destroy e, .ok _ => .releases e
  | .tryDestroy e, .ok r =>
    match (r : Except StoreError Unit) with
    | .ok _ => .releases e
    | .error _ => .other
  | _, _ => .other

/-- What an operation that ended with some result did to the construction of entities. -/
def Op.turn : (k : Op S) → Except Fault k.Answer → Turn
  | .call k, r => k.turn r
  | .beginConstruction e, .ok _ => .begins e
  | .finishConstruction e, .ok r =>
    match (r : Bool) with
    | true => .completes e
    | false => .other
  | .clearFinished, .ok n => .sweeps n
  | _, _ => .other

/-- The turns of a history, the latest first. -/
def History.turns (H : History S) : List Turn := H.map fun y => y.1.turn y.2

/-- The construction of an entity was begun in its last turn. -/
def History.Begun (H : History S) (e : Entity) : Prop :=
  H.turns.find? (Turn.isOf e) = some (.begins e)

/-- The construction of an entity was completed in its last turn, and no sweep came after that. -/
def History.Completed (H : History S) (e : Entity) : Prop :=
  H.turns.find? (fun t => t.isOf e || t.isSweep) = some (.completes e)

/-- The call may write to the marks of construction only by releasing the entity that carries
them. -/
def Call.Builds (k : Call S) : Prop :=
  ∀ x m, m = .unfinished ∨ m = .finished → k.Concerns x (.mark m) →
    k = .destroy x ∨ k = .tryDestroy x

/-- The operation writes to the marks of construction only as a step of construction or by
releasing an entity. -/
def Op.Builds : Op S → Store S → Prop
  | .call k, _ => k.Builds
  | _, _ => True

/-! ## What an operation does to the marks -/

/-- Whether an entity has the mark `unfinished` and whether it has the mark `finished`. -/
def Contents.marks (m : Contents S) (e : Entity) : Bool × Bool :=
  ((m.value? e (.mark .unfinished)).isSome, (m.value? e (.mark .finished)).isSome)

namespace Store

/-- Whether an entity carries the mark `unfinished` and whether it carries the mark `finished`. -/
def marks (s : Store S) (e : Entity) : Bool × Bool :=
  (s.carries e (.mark .unfinished), s.carries e (.mark .finished))

/-- The entities that carry the mark `finished`, in the order of its pool. -/
def finished (s : Store S) : List Entity := (s.pool? (.mark .finished)).elim [] (·.entities)

/-- The marks of an entity are part of the contents. -/
theorem Sound.marks_eq (h : s.Sound) (e : Entity) : s.marks e = s.contents.marks e := by
  rw [marks, h.carries_eq, h.carries_eq, Contents.marks, value?_contents]

theorem Sound.nodup_finished (h : s.Sound) : s.finished.Nodup := h.owners_elim.1

/-- The sweep finds exactly the entities with the mark of the end. -/
theorem Sound.mem_finished_iff (h : s.Sound) : e ∈ s.finished ↔ (s.marks e).2 = true := by
  rw [h.marks_eq, Contents.marks, value?_contents]
  exact h.owners_elim.2 e

end Store

/-- A turn can have led from one store to another. -/
structure Turn.Leads (t : Turn) (s s' : Store S) : Prop where
  /-- The marks of each entity are those after the turn. -/
  marks : ∀ e, s'.marks e = t.after e (s.marks e)
  /-- A sweep counted the entities that carried the mark `finished`. -/
  counted : ∀ n, t = .sweeps n → n = s.finished.length

namespace Turn

/-- A turn that is no sweep counts nothing. -/
theorem leads_of_marks {t : Turn} (h : ∀ e, s'.marks e = t.after e (s.marks e))
    (ht : t.isSweep = false) : t.Leads s s' where
  marks := h
  counted n hn := by
    subst hn
    cases ht

/-- An operation that writes to no marks makes no turn. -/
theorem leads_other (h : ∀ e, s'.marks e = s.marks e) : other.Leads s s' := leads_of_marks h rfl

end Turn

open EntityStore.Action Store

/-- An operation that is quiet about the marks makes no turn. -/
theorem leads_other_of_quiet {α : Type} {y : Action (Store S) Fault α} (hy : y.Quiet)
    (h : s.Sound) : Turn.other.Leads s (y.run s).state := by
  obtain ⟨hsound, -, hvalue⟩ := hy s h
  refine Turn.leads_other fun e => ?_
  rw [hsound.state.marks_eq, h.marks_eq, Contents.marks, hvalue, Contents.marks]

/-- An edit of hierarchies makes no turn. -/
theorem leads_other_of_edits {α : Type} {t : S.Tag} {y : Action (Store S) Fault α}
    (hy : Spares (fun c => ¬ OfTag t c) y) : Turn.other.Leads s (y.run s).state := by
  refine Turn.leads_other fun e => ?_
  have hmark : ∀ m : Mark, (y.run s).state.carries e (.mark m) = s.carries e (.mark m) :=
    fun m => ((hy s).carries (tag?_mark_ne m) e).symm
  rw [marks, hmark, hmark, marks]

/-- A call that is no destruction makes no turn. -/
theorem Call.turn_eq_other {k : Call S} (hk : ∀ e, ¬ (Op.call k).Releases e)
    (r : Except Fault k.Answer) : k.turn r = .other := by
  cases k with
  | destroy e => exact absurd (.inl rfl) (hk e)
  | tryDestroy e => exact absurd (.inr rfl) (hk e)
  | _ => rfl

/-! ### Destruction and the steps of construction -/

namespace Contents

variable {m : Contents S} {es : List Entity}

/-- A released entity has no marks. -/
theorem marks_release (m : Contents S) (e x : Entity) :
    (m.release e).marks x = (Turn.releases e).after x (m.marks x) := by
  by_cases hx : e = x
  · subst hx
    simp [Turn.after, marks]
  · simp [Turn.after, hx, marks, value?_release_of_ne (Ne.symm hx)]

/-- The begin puts on the one mark and takes off the other. -/
theorem marks_beginConstruction (m : Contents S) (e x : Entity) :
    (m.beginConstruction e).marks x = (Turn.begins e).after x (m.marks x) := by
  by_cases hx : e = x
  · subst hx
    simp [Turn.after, beginConstruction, marks, value?_assign_of_ne]
  · simp [Turn.after, hx, beginConstruction, marks, value?_assign_of_ne_entity (Ne.symm hx)]

/-- The end exchanges the marks. -/
theorem marks_finishConstruction (he : m.value? e (.mark .unfinished) = some ()) (x : Entity) :
    (m.finishConstruction e).2.marks x = (Turn.completes e).after x (m.marks x) := by
  by_cases hx : e = x
  · subst hx
    simp [Turn.after, finishConstruction, he, marks, value?_assign_of_ne]
  · simp [Turn.after, hx, finishConstruction, he, marks, value?_assign_of_ne_entity (Ne.symm hx)]

/-- The sweep takes the marks of the end off all entities. -/
theorem marks_without (hes : ∀ e, e ∈ es ↔ (m.value? e (.mark .finished)).isSome = true)
    (x : Entity) (n : Nat) :
    (m.without (.mark .finished) es).marks x = (Turn.sweeps n).after x (m.marks x) := by
  have hunfinished : (m.without (.mark .finished) es).value? x (.mark .unfinished) =
      m.value? x (.mark .unfinished) := value?_without_of_ne (by simp)
  rw [marks, hunfinished, Turn.after, marks]
  congr 1
  by_cases hx : x ∈ es
  · simp [without, hx]
  · simpa [without, hx] using (hes x).not.1 hx

end Contents

/-- An operation on an entity that must be live makes no turn where it refuses. -/
theorem Store.Sound.leads_onLive {α : Type} (h : s.Sound) (hs' : s'.Sound) {m' : Contents S}
    {r : Except StoreError α} (turn : Except StoreError α → Turn)
    (hdead : turn (.error (.stale e)) = .other) (hsweep : (turn r).isSweep = false)
    (hmarks : ∀ x, m'.marks x = (turn r).after x (s.contents.marks x))
    (hm : s'.contents = (s.contents.onLive e (r, m')).2) :
    (turn (s.contents.onLive e (r, m')).1).Leads s s' := by
  cases he : s.valid e with
  | false =>
    rw [Contents.onLive_of_dead he] at hm ⊢
    rw [hdead]
    exact Turn.leads_other fun x => by rw [hs'.marks_eq, h.marks_eq, hm]
  | true =>
    rw [Contents.onLive_of_live he] at hm ⊢
    exact Turn.leads_of_marks (fun x => by rw [hs'.marks_eq, h.marks_eq, hm, hmarks]) hsweep

theorem Call.Builds.leads {k : Call S} (hk : k.Builds) (h : s.Sound) :
    (k.turn (k.run.run s).result).Leads s (k.run.run s).state := by
  obtain ⟨hsound, hallowed⟩ := k.allowed h
  by_cases hrel : ∃ e, (Op.call k).Releases e
  · obtain ⟨e, hrel⟩ := hrel
    rcases hrel with heq | heq
    · cases heq
      rw [hallowed.1]
      exact h.leads_onLive hsound.state (fun r => (Call.destroy e).turn (r.mapError .refused)) rfl
        rfl (Contents.marks_release _ e) hallowed.2
    · cases heq
      rw [hallowed.1]
      exact h.leads_onLive hsound.state (fun r => (Call.tryDestroy e).turn (.ok r)) rfl rfl
        (Contents.marks_release _ e) hallowed.2
  · rw [Call.turn_eq_other (not_exists.1 hrel)]
    refine Turn.leads_other fun x => ?_
    have hnot : ∀ m, m = .unfinished ∨ m = .finished → ¬ k.Concerns x (.mark m) :=
      fun m hm hc => hrel ⟨x, (hk x m hm hc).imp (congrArg _) (congrArg _)⟩
    rw [hsound.state.marks_eq, h.marks_eq, Contents.marks,
      hallowed.value?_eq (hnot _ (.inl rfl)), hallowed.value?_eq (hnot _ (.inr rfl)),
      Contents.marks]

namespace Op

/-- The begin of a construction is the turn that it is told as. -/
theorem leads_beginConstruction (h : s.Sound) (e : Entity) :
    ((beginConstruction (S := S) e).turn ((Store.beginConstruction e).run s).result).Leads s
      ((Store.beginConstruction e).run s).state := by
  obtain ⟨hr, hsound, hm⟩ := settles_beginConstruction (e := e) s h rfl
  rw [hr]
  exact h.leads_onLive hsound.state
    (fun r => (beginConstruction (S := S) e).turn (r.mapError .refused)) rfl rfl
    (Contents.marks_beginConstruction _ e) hm

/-- The end of a construction is the turn that it is told as. -/
theorem leads_finishConstruction (h : s.Sound) (e : Entity) :
    ((finishConstruction (S := S) e).turn ((Store.finishConstruction e).run s).result).Leads s
      ((Store.finishConstruction e).run s).state := by
  obtain ⟨hr, hsound, hm⟩ := settles_finishConstruction (e := e) s h rfl
  rw [hr]
  cases hv : s.contents.value? e (.mark .unfinished) with
  | none =>
    rw [Contents.finishConstruction, hv] at hm ⊢
    exact h.leads_onLive hsound.state
      (fun r => (finishConstruction (S := S) e).turn (r.mapError .refused)) rfl rfl
      (fun _ => rfl) hm
  | some v =>
    have hmarks := Contents.marks_finishConstruction hv
    rw [Contents.finishConstruction, hv] at hm hmarks ⊢
    exact h.leads_onLive hsound.state
      (fun r => (finishConstruction (S := S) e).turn (r.mapError .refused)) rfl rfl hmarks hm

/-- The sweep is the turn that it is told as. -/
theorem leads_clearFinished (h : s.Sound) :
    ((clearFinished (S := S)).turn (Store.clearFinished.run s).result).Leads s
      (Store.clearFinished.run s).state := by
  obtain ⟨es, hn, hes, hr, hsound, hm⟩ := h.run_clearFinished
  rw [hr]
  refine ⟨fun x => ?_, fun n hsweep => ?_⟩
  · rw [hsound.state.marks_eq, h.marks_eq, hm]
    exact Contents.marks_without hes x _
  · obtain rfl : es.length = n := Turn.sweeps.inj hsweep
    refine ((List.perm_ext_iff_of_nodup hn h.nodup_finished).2 fun x => ?_).length_eq
    rw [hes, h.mem_finished_iff, h.marks_eq, Contents.marks, value?_contents]

/-- Every operation that keeps to the steps of construction makes the turn that its result
tells. -/
theorem Builds.leads (hk : k.Builds s) (h : s.Sound) :
    (k.turn (k.run.run s).result).Leads s (k.run.run s).state := by
  cases k with
  | call k => exact Call.Builds.leads hk h
  | beginConstruction e => exact leads_beginConstruction h e
  | finishConstruction e => exact leads_finishConstruction h e
  | clearFinished => exact leads_clearFinished h
  | setName c name => exact leads_other_of_quiet (quiet_setName c name) h
  | setContext c name v => exact leads_other_of_quiet (quiet_setContext c name v) h
  | updateContext? c f => exact leads_other_of_quiet (quiet_updateContext? c f) h
  | updateContext c f => exact leads_other_of_quiet (quiet_updateContext c f) h
  | getOrSetContext c name make =>
    exact leads_other_of_quiet (quiet_getOrSetContext c name make) h
  | removeContext c => exact leads_other_of_quiet (quiet_removeContext c) h
  | checkWhitelist e w => exact leads_other_of_quiet (quiet_checkWhitelist e w) h
  | prependChild t p c => exact leads_other_of_edits (edits_prependChild t p c).local.spares
  | removeChild t p c => exact leads_other_of_edits (edits_removeChild t p c).local.spares
  | detachChild t c => exact leads_other_of_edits (edits_detachChild t c).local.spares
  | clearSelection t sel =>
    exact leads_other_of_edits (spares_clearSelection (K := fun c => ¬ OfTag t c) fun _ hc => hc)

end Op

/-! ## Histories -/

/-- An entity with the mark `finished` was just completed, or it had the mark before a turn that is
no sweep. -/
theorem Turn.after_snd {t : Turn} {p : Bool × Bool} (h : (t.after e p).2 = true) :
    t = .completes e ∨ p.2 = true ∧ t.isSweep = false := by
  cases t with
  | begins x =>
    by_cases hx : x = e
    · simp [after, hx] at h
    · exact .inr ⟨by simpa [after, hx] using h, rfl⟩
  | completes x =>
    by_cases hx : x = e
    · exact .inl (congrArg completes hx)
    · exact .inr ⟨by simpa [after, hx] using h, rfl⟩
  | releases x =>
    by_cases hx : x = e
    · simp [after, hx] at h
    · exact .inr ⟨by simpa [after, hx] using h, rfl⟩
  | sweeps n => simp [after] at h
  | other => exact .inr ⟨h, rfl⟩

/-- A sweep takes the mark `finished` from as many entities as it counts, and only a completion
adds an entity that carries it. -/
theorem Turn.Leads.length_finished {t : Turn} (ht : t.Leads s s') (h : s.Sound) (h' : s'.Sound) :
    t.counted + s'.finished.length ≤ [t].countP Turn.isCompletion + s.finished.length := by
  have hmem : ∀ x ∈ s'.finished, t = .completes x ∨ x ∈ s.finished ∧ t.isSweep = false := by
    intro x hx
    rw [h'.mem_finished_iff, ht.marks] at hx
    rw [h.mem_finished_iff]
    exact Turn.after_snd hx
  have hle : ∀ {l : List Entity}, s'.finished ⊆ l → s'.finished.length ≤ l.length :=
    fun hsub => (h'.nodup_finished.subperm hsub).length_le
  rw [List.countP_singleton]
  cases t with
  | completes x =>
    have hlength := hle (l := x :: s.finished) fun y hy => by
      rcases hmem y hy with heq | ⟨hold, -⟩
      · cases heq
        exact List.mem_cons_self
      · exact List.mem_cons_of_mem x hold
    simpa [Turn.counted, Turn.isCompletion, Nat.add_comm] using hlength
  | sweeps n =>
    have hlength := hle (l := []) fun y hy => by
      rcases hmem y hy with heq | ⟨-, hsweep⟩
      · cases heq
      · cases hsweep
    have hcounted := ht.counted n rfl
    simp only [Turn.counted, List.length_nil] at hlength ⊢
    omega
  | begins x | releases x | other =>
    have hlength := hle fun y hy => ((hmem y hy).resolve_left nofun).1
    simpa [Turn.counted, Turn.isCompletion] using hlength

theorem History.turns_cons (r : Except Fault k.Answer) :
    turns (⟨k, r⟩ :: H) = k.turn r :: H.turns := rfl

namespace History.Takes

/-- The marks of an entity follow from the turns. -/
theorem marks_eq (h : Takes Op.Builds ({} : Store S) H s) :
    s.Sound ∧ ∀ e, s.marks e = Turn.marks H.turns e := by
  induction h with
  | start => exact ⟨sound_empty, fun e => rfl⟩
  | @step H u before k hk ih =>
    obtain ⟨hu, hmarks⟩ := ih
    refine ⟨(k.safe u hu).state, fun e => ?_⟩
    rw [(Op.Builds.leads hk hu).marks, hmarks]
    rfl

/-- The sweeps counted no more entities than were completed, even together with those that the
next sweep is to count. -/
theorem counted_le (h : Takes Op.Builds ({} : Store S) H s) :
    (H.turns.map Turn.counted).sum + s.finished.length ≤ H.turns.countP Turn.isCompletion := by
  induction h with
  | start => exact Nat.le_refl 0
  | @step H u before k hk ih =>
    have hu := before.marks_eq.1
    have hstep := (Op.Builds.leads hk hu).length_finished hu (k.safe u hu).state
    rw [List.countP_singleton] at hstep
    rw [turns_cons, List.map_cons, List.sum_cons, List.countP_cons]
    omega

end History.Takes

/-- Starting from a new store, whatever is done, if only the steps of construction and destruction
write to the marks of construction:

* no entity carries both marks, and the last turn of an entity tells which one it carries;
* construction begins on every live entity, and is completed on those where it was begun;
* a sweep counts the live entities completed since the sweep before, and the sweeps together count
  no more entities than were completed. -/
theorem History.Takes.construction_cycle (h : Takes Op.Builds ({} : Store S) H s) :
    (∀ e, ¬ (s.carries e (.mark .unfinished) = true ∧ s.carries e (.mark .finished) = true)) ∧
    (∀ e, s.carries e (.mark .unfinished) = true ↔ H.Begun e) ∧
    (∀ e, s.carries e (.mark .finished) = true ↔ H.Completed e) ∧
    (∀ e, ((beginConstruction e).run s).result =
      if s.valid e then .ok () else .error (.refused (.stale e))) ∧
    (∀ e, ((finishConstruction e).run s).result =
      if s.valid e then .ok (s.carries e (.mark .unfinished))
      else .error (.refused (.stale e))) ∧
    ∃ es : List Entity, es.Nodup ∧ (∀ e, e ∈ es ↔ s.valid e = true ∧ H.Completed e) ∧
      (clearFinished.run s).result = .ok es.length ∧
      (H.turns.map Turn.counted).sum + es.length ≤ H.turns.countP Turn.isCompletion := by
  obtain ⟨hs, hmarks⟩ := h.marks_eq
  have hfinished : ∀ e, s.carries e (.mark .finished) = true ↔ H.Completed e := fun e => by
    rw [Completed, ← Turn.marks_snd_iff, ← hmarks]
    rfl
  refine ⟨fun e ⟨hu, hf⟩ => ?_, fun e => ?_, hfinished, fun e => ?_, fun e => ?_, ?_⟩
  · exact Turn.marks_ne H.turns e ((hmarks e).symm.trans (Prod.ext hu hf))
  · rw [Begun, ← Turn.marks_fst_iff, ← hmarks]
    rfl
  · rw [(settles_beginConstruction s hs rfl).1]
    cases he : s.valid e with
    | false => rw [Contents.onLive_of_dead he]; rfl
    | true => rw [Contents.onLive_of_live he]; rfl
  · rw [(settles_finishConstruction s hs rfl).1, hs.carries_eq, Contents.finishConstruction]
    cases he : s.valid e with
    | false => rw [Contents.onLive_of_dead he]; rfl
    | true =>
      rw [Contents.onLive_of_live he, value?_contents]
      cases s.lookup? e (.mark .unfinished) <;> rfl
  · obtain ⟨es, hn, hes, hr, -⟩ := hs.run_clearFinished
    have hmem : ∀ e, e ∈ es ↔ e ∈ s.finished := fun e => (hes e).trans (hs.owners_elim.2 e).symm
    refine ⟨es, hn, fun e => ?_, hr, ?_⟩
    · rw [← hfinished, hs.carries_eq, hes]
      refine ⟨fun hsome => ⟨?_, hsome⟩, And.right⟩
      obtain ⟨v, hv⟩ := Option.isSome_iff_exists.1 hsome
      exact hs.valid_of_lookup? hv
    · rw [((List.perm_ext_iff_of_nodup hn hs.nodup_finished).2 hmem).length_eq]
      exact h.counted_le

/-- An entity is completed and destroyed before a sweep, and another one is completed in its
slot. -/
theorem History.Takes.construction_cycle_reused :
    ∃ (H : History Schema.sample) (s : Store Schema.sample), Takes Op.Builds {} H s ∧
      (clearFinished.run s).result = .ok 1 ∧ s.carries ⟨0, 1⟩ (.mark .finished) = true := by
  have hcreate : (Op.call .create : Op Schema.sample).Builds {} := fun _ _ _ hc => hc.elim
  have hdestroy : ∀ s, (Op.call (.destroy ⟨0, 0⟩) : Op Schema.sample).Builds s := by
    rintro s x m - rfl
    exact .inl rfl
  have hrun : Takes Op.Builds ({} : Store Schema.sample) _ _ :=
    (((((((Takes.start.step (.call .create) hcreate).step (.beginConstruction ⟨0, 0⟩) trivial).step
      (.finishConstruction ⟨0, 0⟩) trivial).step (.call (.destroy ⟨0, 0⟩)) (hdestroy _)).step
      (.call .create) hcreate).step (.beginConstruction ⟨0, 1⟩) trivial).step
      (.finishConstruction ⟨0, 1⟩) trivial)
  exact ⟨_, _, hrun, rfl, (hrun.construction_cycle.2.2.1 ⟨0, 1⟩).2 rfl⟩

end EntityStore
