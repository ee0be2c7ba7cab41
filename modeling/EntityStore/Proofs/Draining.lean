import EntityStore.Sequence.Runner
import Mathlib.Data.List.Flatten
import Mathlib.Data.List.Perm.Basic

/-!
# How manual runners are drained

A task of a manual runner is any code.  It may post tasks, close runners, ask how many tasks wait
and drain runners, its own as well, and it may end in a failure.  A failure ends the drain that ran
the task, and goes on in the code that drained, which may catch it or not.

A `Bench` has the runners and the drains that have not ended, the innermost first.  `Moves` says
what can happen next: outside a drain and inside a task anything that code may do, and between two
tasks what the loop of the drain does.  So the runs of `Bench.Takes` are those of all programs on
one thread, up to any moment.

In each run the tasks of a runner leave its queue in the order in which they were accepted, each of
them once: it starts, or it is dropped when the runner is closed (`Bench.Takes.orderly`).
-/

namespace EntityStore

/-- A drain that has not ended. -/
structure Drain where
  /-- The runner that is drained. -/
  runner : Nat
  /-- A number that no other drain has. -/
  number : Nat
  /-- How many of its tasks have returned. -/
  ran : Nat := 0
  /-- Whether one of its tasks runs. -/
  busy : Bool := false

/-- Manual runners, and the drains that have not ended, the innermost first. -/
structure Bench (τ : Type) where
  /-- The runners. -/
  runners : Array (Manual τ) := #[]
  /-- The drains. -/
  drains : List Drain := []
  /-- The number of the next drain. -/
  next : Nat := 0

namespace Bench

variable {τ : Type}

/-! ## Runs -/

/-- What happens at runners. -/
inductive Event (τ : Type) where
  /-- A runner was made. -/
  | made (r : Nat)
  /-- A runner took a task. -/
  | accepted (r : Nat) (t : τ)
  /-- A runner refused a task. -/
  | refused (r : Nat) (t : τ)
  /-- A runner was closed and dropped the tasks that waited. -/
  | closed (r : Nat) (dropped : List τ)
  /-- Somebody was told how many tasks wait. -/
  | counted (r n : Nat)
  /-- A drain began. -/
  | begun (r d : Nat)
  /-- A drain started a task. -/
  | started (r d : Nat) (t : τ)
  /-- The task that a drain had started returned. -/
  | finished (r d : Nat)
  /-- A drain returned, and told how many tasks it ran. -/
  | returned (r d n : Nat)
  /-- The task that a drain had started failed, which ended the drain. -/
  | broken (r d : Nat)

/-- Whether code is in control that may do anything, and not the loop of a drain. -/
def Free (b : Bench τ) : Prop := ∀ x ∈ b.drains.head?, x.busy = true

/-- The bench with another runner in the place of one. -/
def set (b : Bench τ) (r : Nat) (m : Manual τ) : Bench τ :=
  { b with runners := b.runners.setIfInBounds r m }

/-- The tasks that wait at a runner, in order. -/
def waiting (b : Bench τ) (r : Nat) : List τ := b.runners[r]?.elim [] (·.queue.toList)

/-- One thing happens. -/
inductive Moves (b : Bench τ) : Event τ → Bench τ → Prop where
  /-- A runner is made. -/
  | make (hfree : b.Free) (q : SequenceId) :
      Moves b (.made b.runners.size) { b with runners := b.runners.push { id := q } }
  /-- A task is posted and taken. -/
  | accept {r : Nat} {t : τ} {m m' : Manual τ} (hfree : b.Free) (hm : b.runners[r]? = some m)
      (ht : m.post? t = some m') : Moves b (.accepted r t) (b.set r m')
  /-- A task is posted and refused. -/
  | refuse {r : Nat} {t : τ} {m : Manual τ} (hfree : b.Free) (hm : b.runners[r]? = some m)
      (ht : m.post? t = none) : Moves b (.refused r t) b
  /-- A runner is closed. -/
  | close {r : Nat} {m : Manual τ} (hfree : b.Free) (hm : b.runners[r]? = some m) :
      Moves b (.closed r m.queue.toList) (b.set r m.close)
  /-- A runner is asked for the number of tasks that wait. -/
  | count {r : Nat} {m : Manual τ} (hfree : b.Free) (hm : b.runners[r]? = some m) :
      Moves b (.counted r m.pending) b
  /-- A runner is drained. -/
  | begin {r : Nat} {m : Manual τ} (hfree : b.Free) (hm : b.runners[r]? = some m) :
      Moves b (.begun r b.next)
        { b with drains := { runner := r, number := b.next } :: b.drains, next := b.next + 1 }
  /-- The loop starts the task that has waited longest. -/
  | start {r d n : Nat} {ds : List Drain} {t : τ} {m m' : Manual τ}
      (hd : b.drains = ⟨r, d, n, false⟩ :: ds) (hm : b.runners[r]? = some m)
      (ht : m.next? = some (t, m')) :
      Moves b (.started r d t) { b.set r m' with drains := ⟨r, d, n, true⟩ :: ds }
  /-- The task returns to the loop. -/
  | finish {r d n : Nat} {ds : List Drain} (hd : b.drains = ⟨r, d, n, true⟩ :: ds) :
      Moves b (.finished r d) { b with drains := ⟨r, d, n + 1, false⟩ :: ds }
  /-- No task waits, and the loop ends. -/
  | stop {r d n : Nat} {ds : List Drain} {m : Manual τ}
      (hd : b.drains = ⟨r, d, n, false⟩ :: ds) (hm : b.runners[r]? = some m)
      (hidle : m.next? = none) : Moves b (.returned r d n) { b with drains := ds }
  /-- The task fails, which ends the loop. -/
  | fail {r d n : Nat} {ds : List Drain} (hd : b.drains = ⟨r, d, n, true⟩ :: ds) :
      Moves b (.broken r d) { b with drains := ds }

/-- Events lead from a bench to a bench.  The latest comes first. -/
inductive Takes (b : Bench τ) : List (Event τ) → Bench τ → Prop where
  /-- Nothing happened. -/
  | refl : Takes b [] b
  /-- An event comes last. -/
  | step {H : List (Event τ)} {a c : Bench τ} {e : Event τ} (before : Takes b H a)
      (last : a.Moves e c) : Takes b (e :: H) c

variable {a b b' c : Bench τ} {e : Event τ} {H K : List (Event τ)} {r d : Nat} {m m' : Manual τ}

theorem Moves.takes (h : b.Moves e b') : b.Takes [e] b' := .step .refl h

theorem Takes.trans (hH : a.Takes H b) (hK : b.Takes K c) : a.Takes (K ++ H) c := by
  induction hK with
  | refl => exact hH
  | step _ last ih => exact .step ih last

/-- A run can be stopped at any event. -/
theorem Takes.split (h : a.Takes (K ++ H) c) : ∃ b, a.Takes H b ∧ b.Takes K c := by
  induction K generalizing c with
  | nil => exact ⟨c, h, .refl⟩
  | cons e K ih =>
    cases h with
    | step before last =>
      obtain ⟨b, hH, hK⟩ := ih before
      exact ⟨b, hH, .step hK last⟩

theorem size_set (b : Bench τ) (r : Nat) (m : Manual τ) :
    (b.set r m).runners.size = b.runners.size := Array.size_setIfInBounds

theorem lt_size (hm : b.runners[r]? = some m) : r < b.runners.size :=
  (Array.getElem?_eq_some_iff.1 hm).1

theorem runner?_set (hm : b.runners[r]? = some m) (x : Nat) :
    (b.set r m').runners[x]? = if r = x then some m' else b.runners[x]? := by
  show (b.runners.setIfInBounds r m')[x]? = _
  rw [Array.getElem?_setIfInBounds, if_pos (lt_size hm)]

/-- Runners stay. -/
theorem Moves.size_le (h : b.Moves e b') : b.runners.size ≤ b'.runners.size := by
  cases h with
  | make _ q =>
    show _ ≤ (b.runners.push { id := q }).size
    rw [Array.size_push]
    exact Nat.le_succ _
  | accept => exact Nat.le_of_eq (size_set ..).symm
  | close => exact Nat.le_of_eq (size_set ..).symm
  | start => exact Nat.le_of_eq (size_set ..).symm
  | _ => exact Nat.le_refl _

/-- Runners stay. -/
theorem Takes.size_le (h : b.Takes K c) : b.runners.size ≤ c.runners.size := by
  induction h with
  | refl => exact Nat.le_refl _
  | step _ last ih => exact Nat.le_trans ih last.size_le

/-- A runner that was made is there at any later moment. -/
theorem Takes.runner? (h : b.Takes K c) (hm : b.runners[r]? = some m) :
    ∃ m', c.runners[r]? = some m' :=
  ⟨_, Array.getElem?_eq_getElem (Nat.lt_of_lt_of_le (lt_size hm) h.size_le)⟩

/-! ## The queue of a runner -/

/-- The task that a runner took. -/
def Event.accepts (r : Nat) : Event τ → List τ
  | .accepted x t => if x = r then [t] else []
  | _ => []

/-- The task of a runner that was started. -/
def Event.starts (r : Nat) : Event τ → List τ
  | .started x _ t => if x = r then [t] else []
  | _ => []

/-- The tasks that a runner dropped. -/
def Event.drops (r : Nat) : Event τ → List τ
  | .closed x ts => if x = r then ts else []
  | _ => []

/-- The tasks of a runner that do not wait any more. -/
def Event.removes (r : Nat) (e : Event τ) : List τ := e.starts r ++ e.drops r

/-- The tasks that a runner took, in order. -/
def accepted (r : Nat) (H : List (Event τ)) : List τ := H.reverse.flatMap (Event.accepts r)

/-- The tasks of a runner that were started, in order. -/
def started (r : Nat) (H : List (Event τ)) : List τ := H.reverse.flatMap (Event.starts r)

/-- The tasks that a runner dropped, in order. -/
def dropped (r : Nat) (H : List (Event τ)) : List τ := H.reverse.flatMap (Event.drops r)

/-- The tasks that were started and those that were dropped, in one order. -/
def removed (r : Nat) (H : List (Event τ)) : List τ := H.reverse.flatMap (Event.removes r)

/-- The tasks that were started at any runner, in order. -/
def startedTasks (H : List (Event τ)) : List τ :=
  H.reverse.flatMap fun
    | .started _ _ t => [t]
    | _ => []

theorem startedTasks_append :
    startedTasks (K ++ H) = startedTasks H ++ startedTasks K := by
  simp [startedTasks]

theorem accepted_cons : accepted r (e :: H) = accepted r H ++ e.accepts r := by
  simp [accepted]

theorem removed_cons : removed r (e :: H) = removed r H ++ e.removes r := by
  simp [removed]

/-- A task that was started left the queue. -/
theorem started_sublist_removed : (started r H).Sublist (removed r H) :=
  List.Sublist.flatMap_right _ fun _ _ => List.sublist_append_left ..

/-- A task that left the queue was started or dropped. -/
theorem removed_perm : (removed r H).Perm (started r H ++ dropped r H) :=
  (List.flatMap_append_perm ..).symm

theorem waiting_of_runner? (hm : b.runners[r]? = some m) : b.waiting r = m.queue.toList := by
  rw [waiting, hm]
  rfl

theorem waiting_set (hm : b.runners[r]? = some m) (x : Nat) :
    (b.set r m').waiting x = if r = x then m'.queue.toList else b.waiting x := by
  rw [waiting, runner?_set hm]
  split
  · rfl
  · rfl

theorem waiting_push {q : SequenceId} (x : Nat) :
    ({ b with runners := b.runners.push { id := q } } : Bench τ).waiting x = b.waiting x := by
  show (b.runners.push { id := q })[x]?.elim [] _ = _
  rw [Array.getElem?_push]
  split
  · have hnone : b.runners[x]? = none := Array.getElem?_eq_none (by omega)
    rw [waiting, hnone]
    rfl
  · rfl

end Bench

namespace Manual

variable {τ : Type} {m m' : Manual τ} {t : τ}

/-- A task that is posted comes last. -/
theorem toList_of_post? (h : m.post? t = some m') : m'.queue.toList = m.queue.toList ++ [t] := by
  unfold post? at h
  split at h
  · cases h
  · obtain rfl := Option.some.inj h
    exact Fifo.toList_push ..

/-- A closed runner takes no task. -/
theorem not_closed_of_post? (h : m.post? t = some m') : m.closed = false := by
  unfold post? at h
  split at h
  · cases h
  · simp_all

/-- The next task is the first one in the queue. -/
theorem toList_of_next? (h : m.next? = some (t, m')) :
    m.queue.toList = t :: m'.queue.toList ∧ m'.closed = m.closed := by
  unfold next? at h
  obtain ⟨⟨t', queue⟩, hpop, hsome⟩ := Option.map_eq_some_iff.1 h
  cases hsome
  exact ⟨Fifo.toList_of_pop? hpop, rfl⟩

/-- There is no next task exactly if none waits. -/
theorem next?_eq_none_iff : m.next? = none ↔ m.queue.toList = [] := by
  rw [← Fifo.pop?_eq_none_iff]
  exact Option.map_eq_none_iff

end Manual

namespace Bench

variable {τ : Type} {a b b' c : Bench τ} {e : Event τ} {H K : List (Event τ)} {r d n : Nat}
  {m : Manual τ}

/-- What waits at a runner grows at its end by what the runner takes, and loses at its front what is
removed. -/
theorem Moves.waiting (h : b.Moves e b') (r : Nat) :
    b.waiting r ++ e.accepts r = e.removes r ++ b'.waiting r := by
  cases h with
  | make _ q =>
    rw [waiting_push]
    exact List.append_nil _
  | @accept x t m m' _ hm ht =>
    rw [waiting_set hm]
    show _ ++ (if x = r then [t] else []) = _
    split
    · rename_i hx
      subst hx
      rw [waiting_of_runner? hm, Manual.toList_of_post? ht]
      rfl
    · exact List.append_nil _
  | refuse => exact List.append_nil _
  | @close x m _ hm =>
    rw [waiting_set hm]
    show _ = ([] ++ if x = r then m.queue.toList else []) ++ _
    split
    · rename_i hx
      subst hx
      rw [waiting_of_runner? hm]
      rfl
    · exact List.append_nil _
  | count => exact List.append_nil _
  | begin => exact List.append_nil _
  | @start x d n ds t m m' hd hm ht =>
    show _ = ((if x = r then [t] else []) ++ []) ++ (b.set x m').waiting r
    rw [waiting_set hm]
    split
    · rename_i hx
      subst hx
      rw [waiting_of_runner? hm, (Manual.toList_of_next? ht).1]
      exact List.append_nil _
    · exact List.append_nil _
  | finish => exact List.append_nil _
  | stop => exact List.append_nil _
  | fail => exact List.append_nil _

/-- What a runner took was removed in the same order, or still waits. -/
theorem Takes.accepted_eq (h : Takes {} H b) (r : Nat) :
    accepted r H = removed r H ++ b.waiting r := by
  induction h with
  | refl => simp [accepted, removed, waiting]
  | step before last ih =>
    rw [accepted_cons, removed_cons, ih, List.append_assoc, List.append_assoc, last.waiting]

/-! ## After a close -/

/-- A closed runner stays closed and takes no task. -/
theorem Moves.closed (h : b.Moves e b') (hm : b.runners[r]? = some m) (hclosed : m.closed = true) :
    (∃ m', b'.runners[r]? = some m' ∧ m'.closed = true) ∧ e.accepts r = [] := by
  cases h with
  | make _ q =>
    have hne : r ≠ b.runners.size := Nat.ne_of_lt (lt_size hm)
    refine ⟨⟨m, ?_, hclosed⟩, rfl⟩
    show (b.runners.push { id := q })[r]? = some m
    rw [Array.getElem?_push, if_neg hne, hm]
  | @accept x t m₀ m' _ hx ht =>
    have hne : x ≠ r := by
      intro heq
      subst heq
      obtain rfl := Option.some.inj (hx.symm.trans hm)
      rw [Manual.not_closed_of_post? ht] at hclosed
      cases hclosed
    refine ⟨⟨m, ?_, hclosed⟩, if_neg hne⟩
    rw [runner?_set hx, if_neg hne, hm]
  | refuse => exact ⟨⟨m, hm, hclosed⟩, rfl⟩
  | @close x m₀ _ hx =>
    refine ⟨?_, rfl⟩
    rw [runner?_set hx]
    split
    · exact ⟨_, rfl, rfl⟩
    · exact ⟨m, hm, hclosed⟩
  | count => exact ⟨⟨m, hm, hclosed⟩, rfl⟩
  | begin => exact ⟨⟨m, hm, hclosed⟩, rfl⟩
  | @start x d n ds t m₀ m' _ hx ht =>
    refine ⟨?_, rfl⟩
    show ∃ m', (b.set x _).runners[r]? = some m' ∧ _
    rw [runner?_set hx]
    split
    · rename_i heq
      subst heq
      obtain rfl := Option.some.inj (hx.symm.trans hm)
      exact ⟨_, rfl, (Manual.toList_of_next? ht).2.trans hclosed⟩
    · exact ⟨m, hm, hclosed⟩
  | finish => exact ⟨⟨m, hm, hclosed⟩, rfl⟩
  | stop => exact ⟨⟨m, hm, hclosed⟩, rfl⟩
  | fail => exact ⟨⟨m, hm, hclosed⟩, rfl⟩

/-- A closed runner at which nothing waits takes and starts nothing any more. -/
theorem Takes.closed (h : b.Takes K c) (hm : b.runners[r]? = some m) (hclosed : m.closed = true)
    (hwaiting : b.waiting r = []) : accepted r K = [] ∧ started r K = [] := by
  have hrun : (∃ m', c.runners[r]? = some m' ∧ m'.closed = true) ∧ c.waiting r = [] ∧
      accepted r K = [] ∧ removed r K = [] := by
    induction h with
    | refl => exact ⟨⟨m, hm, hclosed⟩, hwaiting, rfl, rfl⟩
    | step before last ih =>
      obtain ⟨⟨m', hm', hclosed'⟩, hidle, haccepted, hremoved⟩ := ih
      obtain ⟨hnext, haccepts⟩ := last.closed hm' hclosed'
      have hflow := last.waiting r
      rw [hidle, haccepts] at hflow
      have hnil := List.append_eq_nil_iff.1 hflow.symm
      refine ⟨hnext, hnil.2, ?_, ?_⟩
      · rw [accepted_cons, haccepted, haccepts]
        rfl
      · rw [removed_cons, hremoved, hnil.1]
        rfl
  refine ⟨hrun.2.2.1, ?_⟩
  have hsub := started_sublist_removed (r := r) (H := K)
  rw [hrun.2.2.2] at hsub
  exact List.sublist_nil.1 hsub

/-! ## The tasks of a drain -/

/-- The number of the drain that an event belongs to. -/
def Event.drain? : Event τ → Option Nat
  | .begun _ d | .started _ d _ | .finished _ d | .returned _ d _ | .broken _ d => some d
  | _ => none

/-- Whether an event is the start of a task by the drain of a number. -/
def Event.startedBy (d : Nat) : Event τ → Bool
  | .started _ x _ => x = d
  | _ => false

/-- How many tasks the drain of a number started, without those that other drains started. -/
def startedBy (d : Nat) (H : List (Event τ)) : Nat := H.countP (Event.startedBy d)

/-- The drains have numbers of their own and count the tasks that they started. -/
structure Counted (H : List (Event τ)) (b : Bench τ) : Prop where
  /-- The numbers of drains come before the next one. -/
  lt_next : ∀ x ∈ b.drains, x.number < b.next
  /-- No event belongs to a drain that has not begun. -/
  begun : ∀ e ∈ H, ∀ d, e.drain? = some d → d < b.next
  /-- No two drains have the same number. -/
  distinct : (b.drains.map Drain.number).Nodup
  /-- A drain counts the tasks that returned, and started one more while one runs. -/
  count : ∀ x ∈ b.drains, startedBy x.number H = x.ran + x.busy.toNat

theorem startedBy_cons_of_ne (he : e.drain? ≠ some d) :
    startedBy d (e :: H) = startedBy d H := by
  refine List.countP_cons_of_neg ?_
  cases e with
  | started r x t => simpa [Event.drain?, Event.startedBy] using he
  | _ => exact Bool.false_ne_true

theorem startedBy_of_forall_ne (h : ∀ e ∈ H, e.drain? ≠ some d) : startedBy d H = 0 := by
  refine List.countP_eq_zero.2 ?_
  intro e he
  cases e with
  | started r x t => simpa [Event.drain?, Event.startedBy] using h _ he
  | _ => exact Bool.false_ne_true

namespace Counted

/-- An event of no drain. -/
theorem of_idle (h : Counted H b) (he : e.drain? = none) (hdrains : b'.drains = b.drains)
    (hnext : b'.next = b.next) : Counted (e :: H) b' where
  lt_next := by rw [hdrains, hnext]; exact h.lt_next
  begun := by
    rw [hnext]
    exact List.forall_mem_cons.2 ⟨by rw [he]; nofun, h.begun⟩
  distinct := by rw [hdrains]; exact h.distinct
  count := by
    intro x hx
    rw [hdrains] at hx
    rw [startedBy_cons_of_ne (by rw [he]; nofun)]
    exact h.count x hx

/-- The first event of a drain. -/
theorem of_begin (h : Counted H b)
    (hdrains : b'.drains = { runner := r, number := b.next } :: b.drains)
    (hnext : b'.next = b.next + 1) : Counted (.begun r b.next :: H) b' where
  lt_next := by
    rw [hdrains, hnext]
    exact List.forall_mem_cons.2
      ⟨Nat.lt_succ_self _, fun x hx => Nat.lt_succ_of_lt (h.lt_next x hx)⟩
  begun := by
    rw [hnext]
    refine List.forall_mem_cons.2 ⟨?_, fun e he d hd => Nat.lt_succ_of_lt (h.begun e he d hd)⟩
    intro d hd
    obtain rfl := Option.some.inj hd
    exact Nat.lt_succ_self _
  distinct := by
    rw [hdrains, List.map_cons]
    refine List.nodup_cons.2 ⟨?_, h.distinct⟩
    intro hmem
    obtain ⟨x, hx, hnumber⟩ := List.mem_map.1 hmem
    exact Nat.lt_irrefl _ (hnumber ▸ h.lt_next x hx)
  count := by
    rw [hdrains]
    refine List.forall_mem_cons.2 ⟨?_, h.count⟩
    show startedBy b.next H = 0
    refine startedBy_of_forall_ne ?_
    intro e he hd
    exact Nat.lt_irrefl _ (h.begun e he _ hd)

/-- An event of the innermost drain, which goes on with other counts or ends. -/
theorem of_head {x : Drain} {y : Option Drain} {ds : List Drain} (h : Counted H b)
    (hd : b.drains = x :: ds) (hdrains : b'.drains = y.toList ++ ds) (hnext : b'.next = b.next)
    (he : e.drain? = some x.number)
    (hy : ∀ z ∈ y, z.number = x.number ∧
      startedBy x.number (e :: H) = z.ran + z.busy.toNat) : Counted (e :: H) b' := by
  obtain ⟨hlt, hbegun, hdistinct, hcount⟩ := h
  rw [hd] at hlt hdistinct hcount
  have hmem : ∀ z ∈ b'.drains, z ∈ y ∨ z ∈ ds := by
    intro z hz
    rw [hdrains, List.mem_append, Option.mem_toList] at hz
    exact hz
  obtain ⟨hnotin, hnodup⟩ := List.nodup_cons.1 hdistinct
  constructor
  case lt_next =>
    intro z hz
    rw [hnext]
    cases hmem z hz with
    | inl hz =>
      rw [(hy z hz).1]
      exact hlt x List.mem_cons_self
    | inr hz => exact hlt z (List.mem_cons_of_mem _ hz)
  case begun =>
    rw [hnext]
    refine List.forall_mem_cons.2 ⟨?_, hbegun⟩
    intro d hd
    obtain rfl := Option.some.inj (he.symm.trans hd)
    exact hlt x List.mem_cons_self
  case distinct =>
    rw [hdrains]
    cases y with
    | none => exact hnodup
    | some z =>
      show (z.number :: ds.map Drain.number).Nodup
      rw [(hy z rfl).1]
      exact hdistinct
  case count =>
    intro z hz
    cases hmem z hz with
    | inl hz =>
      rw [(hy z hz).1]
      exact (hy z hz).2
    | inr hz =>
      have hne : e.drain? ≠ some z.number := by
        intro heq
        have hnumber := Option.some.inj (he.symm.trans heq)
        exact hnotin (hnumber ▸ List.mem_map_of_mem hz)
      rw [startedBy_cons_of_ne hne]
      exact hcount z (List.mem_cons_of_mem _ hz)

end Counted

/-- The counts of the drains go up by what each of them starts. -/
theorem Moves.counted (h : b.Moves e b') (hb : Counted H b) : Counted (e :: H) b' := by
  cases h with
  | make => exact hb.of_idle rfl rfl rfl
  | accept => exact hb.of_idle rfl rfl rfl
  | refuse => exact hb.of_idle rfl rfl rfl
  | close => exact hb.of_idle rfl rfl rfl
  | count => exact hb.of_idle rfl rfl rfl
  | begin => exact hb.of_begin rfl rfl
  | @start r d n ds t m m' hd =>
    refine hb.of_head (y := some ⟨r, d, n, true⟩) hd rfl rfl rfl ?_
    intro z hz
    obtain rfl := Option.some.inj hz
    have hcount : startedBy d H = n := hb.count ⟨r, d, n, false⟩ (hd ▸ List.mem_cons_self)
    exact ⟨rfl, by simpa [startedBy, Event.startedBy] using hcount⟩
  | @finish r d n ds hd =>
    refine hb.of_head (y := some ⟨r, d, n + 1, false⟩) hd rfl rfl rfl ?_
    intro z hz
    obtain rfl := Option.some.inj hz
    have hcount : startedBy d H = n + 1 := hb.count ⟨r, d, n, true⟩ (hd ▸ List.mem_cons_self)
    exact ⟨rfl, by simpa [startedBy, Event.startedBy] using hcount⟩
  | stop hd => exact hb.of_head (y := none) hd rfl rfl rfl nofun
  | fail hd => exact hb.of_head (y := none) hd rfl rfl rfl nofun

theorem Takes.counted (h : Takes {} H b) : Counted H b := by
  induction h with
  | refl => exact ⟨nofun, nofun, List.nodup_nil, nofun⟩
  | step _ last ih => exact last.counted ih

/-! ## After the end of a drain -/

/-- Whether an event is the end of the drain of a number. -/
def Event.Ends (d : Nat) : Event τ → Prop
  | .returned _ x _ | .broken _ x => x = d
  | _ => False

/-- Whether the drain of a number has ended. -/
def Ended (b : Bench τ) (d : Nat) : Prop := d < b.next ∧ d ∉ b.drains.map Drain.number

/-- A drain that has ended does nothing any more. -/
theorem Moves.ended (h : b.Moves e b') (hd : b.Ended d) : b'.Ended d ∧ e.drain? ≠ some d := by
  obtain ⟨hlt, hnotin⟩ := hd
  cases h with
  | begin =>
    have hne : d ≠ b.next := Nat.ne_of_lt hlt
    refine ⟨⟨Nat.lt_succ_of_lt hlt, ?_⟩, fun heq => hne (Option.some.inj heq).symm⟩
    simpa using ⟨hne, by simpa using hnotin⟩
  | start hds =>
    rw [hds] at hnotin
    refine ⟨⟨hlt, hnotin⟩, fun heq => hnotin ?_⟩
    exact Option.some.inj heq ▸ List.mem_cons_self
  | finish hds =>
    rw [hds] at hnotin
    refine ⟨⟨hlt, hnotin⟩, fun heq => hnotin ?_⟩
    exact Option.some.inj heq ▸ List.mem_cons_self
  | stop hds =>
    rw [hds] at hnotin
    refine ⟨⟨hlt, fun hmem => hnotin (List.mem_cons_of_mem _ hmem)⟩, fun heq => hnotin ?_⟩
    exact Option.some.inj heq ▸ List.mem_cons_self
  | fail hds =>
    rw [hds] at hnotin
    refine ⟨⟨hlt, fun hmem => hnotin (List.mem_cons_of_mem _ hmem)⟩, fun heq => hnotin ?_⟩
    exact Option.some.inj heq ▸ List.mem_cons_self
  | _ => exact ⟨⟨hlt, hnotin⟩, nofun⟩

/-- A drain that has ended does nothing any more. -/
theorem Takes.ended (h : b.Takes K c) (hd : b.Ended d) :
    c.Ended d ∧ ∀ e ∈ K, e.drain? ≠ some d := by
  induction h with
  | refl => exact ⟨hd, nofun⟩
  | step _ last ih =>
    obtain ⟨hnext, hne⟩ := last.ended ih.1
    exact ⟨hnext, List.forall_mem_cons.2 ⟨hne, ih.2⟩⟩

/-- After its last event a drain has ended. -/
theorem Moves.ended_of_ends (h : b.Moves e b') (hb : Counted H b) (he : e.Ends d) :
    b'.Ended d := by
  have hends : ∀ {x : Drain} {ds : List Drain}, b.drains = x :: ds →
      x.number < b.next ∧ x.number ∉ ds.map Drain.number := by
    intro x ds hds
    have hdistinct := hb.distinct
    rw [hds] at hdistinct
    exact ⟨hb.lt_next x (hds ▸ List.mem_cons_self), (List.nodup_cons.1 hdistinct).1⟩
  cases h with
  | stop hds => exact he ▸ hends hds
  | fail hds => exact he ▸ hends hds
  | _ => exact he.elim

/-! ## The laws of a run -/

/-- What holds after any run. -/
structure Orderly (H : List (Event τ)) (b : Bench τ) : Prop where
  /-- The tasks that started and then those that wait are in the order in which they were accepted,
  each of them once. -/
  in_order : ∀ r, (started r H ++ b.waiting r).Sublist (accepted r H)
  /-- Each task that was accepted was started, or was dropped, or waits, and only one of these. -/
  fates : ∀ r, (accepted r H).Perm (started r H ++ dropped r H ++ b.waiting r)
  /-- What a close drops is what was accepted and neither started nor dropped before. -/
  closed : ∀ r ts K, H = .closed r ts :: K → accepted r K = removed r K ++ ts
  /-- After a close no task is accepted and none starts. -/
  shut : ∀ r ts K K', H = K' ++ .closed r ts :: K → accepted r K' = [] ∧ started r K' = []
  /-- The number that is told is that of the tasks that wait. -/
  counted : ∀ r n K, H = .counted r n :: K → n = (b.waiting r).length
  /-- When a drain returns, no task waits, and it tells how many tasks it started. -/
  returned : ∀ r d n K, H = .returned r d n :: K →
    (∃ m, b.runners[r]? = some m ∧ m.pending = 0) ∧ n = startedBy d K
  /-- When a task fails, the drain that had started it ends, and what waits stays as it is. -/
  broken : ∀ r d K, H = .broken r d :: K → ∃ a x, Takes {} K a ∧ a.drains = x :: b.drains ∧
    x.runner = r ∧ x.number = d ∧ b.runners = a.runners
  /-- A drain that ended does nothing any more. -/
  ended : ∀ d e K K', H = K' ++ e :: K → e.Ends d → ∀ e' ∈ K', e'.drain? ≠ some d

theorem length_waiting (hm : b.runners[r]? = some m) : (b.waiting r).length = m.pending := by
  rw [waiting_of_runner? hm]
  exact Fifo.length_toList _

/-- Any run of a bench is orderly. -/
theorem Takes.orderly (h : Takes {} H b) : Orderly H b where
  in_order r := by
    rw [h.accepted_eq r]
    exact started_sublist_removed.append_right _
  fates r := by
    rw [h.accepted_eq r]
    exact removed_perm.append_right _
  closed r ts K hH := by
    subst hH
    cases h with
    | step before last =>
      cases last with
      | close _ hm => rw [before.accepted_eq r, waiting_of_runner? hm]
  shut r ts K K' hH := by
    subst hH
    obtain ⟨a, hK, hK'⟩ := h.split
    cases hK with
    | step before last =>
      cases last with
      | @close _ m _ hm =>
        refine hK'.closed (m := m.close) ?_ rfl ?_
        · rw [runner?_set hm, if_pos rfl]
        · rw [waiting_set hm, if_pos rfl]
          rfl
  counted r n K hH := by
    subst hH
    cases h with
    | step before last =>
      cases last with
      | count _ hm => exact (length_waiting hm).symm
  returned r d n K hH := by
    subst hH
    cases h with
    | step before last =>
      cases last with
      | @stop _ _ _ ds m hd hm hidle =>
        refine ⟨⟨m, hm, ?_⟩, ?_⟩
        · rw [← length_waiting hm, waiting_of_runner? hm, Manual.next?_eq_none_iff.1 hidle]
          rfl
        · exact (before.counted.count ⟨r, d, n, false⟩ (hd ▸ List.mem_cons_self)).symm
  broken r d K hH := by
    subst hH
    cases h with
    | step before last =>
      cases last with
      | fail hd => exact ⟨_, _, before, hd, rfl, rfl, rfl⟩
  ended d e K K' hH he := by
    subst hH
    obtain ⟨a, hK, hK'⟩ := h.split
    cases hK with
    | step before last => exact (hK'.ended (last.ended_of_ends before.counted he)).2

end Bench

end EntityStore
