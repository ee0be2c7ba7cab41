import EntityStore.Sequence.Runner
import Mathlib.Data.List.Nodup
import Mathlib.Logic.Function.Basic

/-!
# How a worker works and ends

A worker takes tasks from anybody, its own tasks included, and runs them on a thread of its own.
Anybody may also shut it down, as often as they like.  A call that does so first closes the queue.
If the sequence of the worker is current where the call was made, the call comes from *inside* and
returns.  Otherwise it asks for the handle of the thread, which is given out once.  The call that
gets the handle waits for the end of the thread, and every other one returns at once.

A `Shift` has a worker, what its thread does, and the calls.  `Shift.Moves` says what can happen
next: no step of one party waits for another party, except for a task to wait in the queue and for
the thread to end.  So the runs of `Shift.Takes` are all interleavings of posts, the thread and the
calls, up to any moment.

In each run the tasks are run one at a time and in the order in which they were accepted, none is
accepted after a close, none starts after a failure, and the end of the thread is told to the call
that got the handle (`Shift.Takes.orderly`).
-/

namespace EntityStore

/-- What the thread of a worker does. -/
inductive Job (τ : Type) where
  /-- It waits for a task, or it has ended. -/
  | idle
  /-- It runs a task. -/
  | busy (t : τ)
  /-- A task has failed, and the queue is still there. -/
  | failing

/-- How far a call has come that shuts a worker down. -/
inductive Stage where
  /-- It was not made. -/
  | unmade
  /-- It has closed the queue.  Where it was made, a sequence may be current. -/
  | closing (current : Option SequenceId)
  /-- It has the handle and waits for the end of the thread. -/
  | waiting
  /-- It has returned, or it has failed. -/
  | over

/-- A worker, its thread, and the calls that shut it down. -/
structure Shift (τ : Type) where
  /-- The worker. -/
  worker : Worker τ
  /-- What its thread does. -/
  job : Job τ := .idle
  /-- The calls, by their numbers. -/
  calls : Nat → Stage := fun _ => .unmade
  /-- The number of the next call. -/
  next : Nat := 0

namespace Shift

variable {τ : Type}

/-! ## Runs -/

/-- What happens at a worker. -/
inductive Event (τ : Type) where
  /-- A task was posted and taken. -/
  | accepted (t : τ)
  /-- A task was posted and refused. -/
  | refused (t : τ)
  /-- A task was started. -/
  | started (t : τ)
  /-- A task ran to its end. -/
  | finished (t : τ)
  /-- A task failed. -/
  | failed (t : τ)
  /-- The thread ended after a failure, and dropped the tasks that waited. -/
  | died (dropped : List τ)
  /-- The thread ended after its last task.  It failed then if a task had left a scope open. -/
  | stopped (clean : Bool)
  /-- A call was made and closed the queue.  A sequence may be current where it was made. -/
  | closed (n : Nat) (current : Option SequenceId)
  /-- A call took the handle of the thread. -/
  | took (n : Nat)
  /-- A call returned. -/
  | returned (n : Nat) (r : Except SequenceError Unit)
  /-- A call failed, because the end of the thread cannot come while it waits. -/
  | gaveUp (n : Nat)

/-- The shift with another stage of a call. -/
def setCall (b : Shift τ) (n : Nat) (x : Stage) : Shift τ :=
  { b with calls := Function.update b.calls n x }

/-- One thing happens. -/
inductive Moves (b : Shift τ) : Event τ → Shift τ → Prop where
  /-- A task is posted and taken. -/
  | accept {t : τ} {w : Worker τ} (ht : b.worker.post? t = some w) :
      Moves b (.accepted t) { b with worker := w }
  /-- A task is posted and refused. -/
  | refuse {t : τ} (ht : b.worker.post? t = none) : Moves b (.refused t) b
  /-- The thread starts the task that has waited longest. -/
  | start {t : τ} {w : Worker τ} (hidle : b.job = .idle) (ht : b.worker.next? = some (t, w)) :
      Moves b (.started t) { b with worker := w, job := .busy t }
  /-- The task returns. -/
  | finish {t : τ} (hbusy : b.job = .busy t) : Moves b (.finished t) { b with job := .idle }
  /-- The task fails. -/
  | fail {t : τ} (hbusy : b.job = .busy t) : Moves b (.failed t) { b with job := .failing }
  /-- The thread ends, and the queue with it. -/
  | die (hfailing : b.job = .failing) :
      Moves b (.died b.worker.queue.toList) { b with worker := b.worker.fail, job := .idle }
  /-- The queue is closed and no task waits, so the thread ends.  Where a task left a scope open,
  another sequence may be current then. -/
  | stop (hidle : b.job = .idle) (hrunning : b.worker.phase = .running)
      (hclosed : b.worker.closed = true) (hempty : b.worker.queue.toList = [])
      (current : Option SequenceId) :
      Moves b (.stopped (current = some b.worker.id)) { b with worker := b.worker.stop current }
  /-- A call is made and closes the queue. -/
  | close (current : Option SequenceId) :
      Moves b (.closed b.next current)
        { b.setCall b.next (.closing current) with worker := b.worker.close, next := b.next + 1 }
  /-- A call from inside returns. -/
  | pass {n : Nat} (hcall : b.calls n = .closing (some b.worker.id)) :
      Moves b (.returned n (.ok ())) (b.setCall n .over)
  /-- A call from outside finds that the handle is gone, and returns. -/
  | miss {n : Nat} {current : Option SequenceId} (hcall : b.calls n = .closing current)
      (houtside : current ≠ some b.worker.id) (hjoined : b.worker.joined = true) :
      Moves b (.returned n (.ok ())) (b.setCall n .over)
  /-- A call from outside takes the handle.  It may be made by the task of a worker. -/
  | take {n : Nat} {current : Option SequenceId} (hcall : b.calls n = .closing current)
      (houtside : current ≠ some b.worker.id) (hjoined : b.worker.joined = false)
      (joiner : Option Nat) :
      Moves b (.took n)
        { b.setCall n .waiting with worker := { b.worker with joined := true, joiner } }
  /-- The thread has ended, and the call that waits for that returns. -/
  | join {n : Nat} (hcall : b.calls n = .waiting) (hended : b.worker.phase ≠ .running) :
      Moves b (.returned n b.worker.outcome) (b.setCall n .over)
  /-- A call that waits fails. -/
  | giveUp {n : Nat} (hcall : b.calls n = .waiting) :
      Moves b (.gaveUp n) (b.setCall n .over)

/-- A worker that was just made. -/
def new (id : SequenceId) (name : String) : Shift τ := { worker := { id, name } }

/-- Events lead from a shift to a shift.  The latest comes first. -/
inductive Takes (b : Shift τ) : List (Event τ) → Shift τ → Prop where
  /-- Nothing happened. -/
  | refl : Takes b [] b
  /-- An event comes last. -/
  | step {H : List (Event τ)} {a c : Shift τ} {e : Event τ} (before : Takes b H a)
      (last : a.Moves e c) : Takes b (e :: H) c

variable {a b b' c : Shift τ} {e : Event τ} {H K : List (Event τ)} {t : τ} {n m : Nat}
  {w : Worker τ}

theorem Moves.takes (h : b.Moves e b') : b.Takes [e] b' := .step .refl h

theorem Takes.trans (hH : a.Takes H b) (hK : b.Takes K c) : a.Takes (K ++ H) c := by
  induction hK with
  | refl => exact hH
  | step _ last ih => exact .step ih last

/-- A run can be stopped at any event. -/
theorem Takes.split (h : a.Takes (K ++ H) c) : ∃ b, a.Takes H b ∧ b.Takes K c := by
  induction K generalizing c with
  | nil => exact ⟨c, h, .refl⟩
  | cons e K ih =>
    cases h with
    | step before last =>
      obtain ⟨b, hH, hK⟩ := ih before
      exact ⟨b, hH, .step hK last⟩

/-! ## What a run tells -/

/-- The task that was taken. -/
def Event.accepted? : Event τ → Option τ
  | .accepted t => some t
  | _ => none

/-- The task that was refused. -/
def Event.refused? : Event τ → Option τ
  | .refused t => some t
  | _ => none

/-- The task that was posted. -/
def Event.posted? : Event τ → Option τ
  | .accepted t | .refused t => some t
  | _ => none

/-- The task that was started. -/
def Event.started? : Event τ → Option τ
  | .started t => some t
  | _ => none

/-- The task that ran to its end. -/
def Event.finished? : Event τ → Option τ
  | .finished t => some t
  | _ => none

/-- The tasks that were taken, in order. -/
def accepted (H : List (Event τ)) : List τ := H.reverse.filterMap Event.accepted?

/-- The tasks that were refused, in order. -/
def refused (H : List (Event τ)) : List τ := H.reverse.filterMap Event.refused?

/-- The tasks that were posted, in order. -/
def posted (H : List (Event τ)) : List τ := H.reverse.filterMap Event.posted?

/-- The tasks that were started, in order. -/
def started (H : List (Event τ)) : List τ := H.reverse.filterMap Event.started?

/-- The tasks that ran to their end, in order. -/
def finished (H : List (Event τ)) : List τ := H.reverse.filterMap Event.finished?

/-- A task failed. -/
def Failed (H : List (Event τ)) : Prop := ∃ t, .failed t ∈ H

/-- A call was made where the sequence of the worker is not current. -/
def Outside (id : SequenceId) (H : List (Event τ)) (n : Nat) : Prop :=
  ∃ current, .closed n current ∈ H ∧ current ≠ some id

theorem filterMap_reverse_cons (f : Event τ → Option τ) :
    (e :: H).reverse.filterMap f = H.reverse.filterMap f ++ (f e).toList := by
  rw [List.reverse_cons, List.filterMap_append]
  cases h : f e <;> simp [h]

theorem accepted_append : accepted (K ++ H) = accepted H ++ accepted K := by
  simp [accepted]

theorem accepted_cons : accepted (e :: H) = accepted H ++ e.accepted?.toList :=
  filterMap_reverse_cons _

theorem started_append : started (K ++ H) = started H ++ started K := by
  simp [started]

theorem started_cons : started (e :: H) = started H ++ e.started?.toList :=
  filterMap_reverse_cons _

theorem finished_cons : finished (e :: H) = finished H ++ e.finished?.toList :=
  filterMap_reverse_cons _

theorem failed_cons : Failed (e :: H) ↔ (∃ t, e = .failed t) ∨ Failed H := by
  simp only [Failed, List.mem_cons, exists_or, eq_comm]

/-- What was posted is what was taken and what was refused. -/
theorem posted_perm : (posted H).Perm (accepted H ++ refused H) := by
  induction H with
  | nil => exact .refl _
  | cons e H ih =>
    rw [posted, accepted, refused, filterMap_reverse_cons, filterMap_reverse_cons,
      filterMap_reverse_cons]
    change (posted H ++ _).Perm ((accepted H ++ _) ++ (refused H ++ _))
    cases e with
    | accepted t =>
      refine (ih.append_right [t]).trans ?_
      simp only [Event.accepted?, Event.refused?, Option.toList, List.append_assoc,
        List.append_nil]
      exact List.perm_append_comm.append_left _
    | refused t =>
      simpa [Event.accepted?, Event.refused?, Event.posted?, List.append_assoc] using
        ih.append_right [t]
    | _ => simpa [Event.accepted?, Event.refused?, Event.posted?] using ih

end Shift

/-! ## Steps of the worker -/

namespace Worker

variable {τ : Type} {w w' : Worker τ} {t : τ}

/-- A worker takes a task as long as its queue is open and its thread runs. -/
theorem post?_eq_some_iff : w.post? t = some w' ↔
    w.closed = false ∧ w.phase = .running ∧ w' = { w with queue := w.queue.push t } := by
  unfold post?
  cases hclosed : w.closed <;> cases hphase : w.phase <;> simp [eq_comm]

/-- The next task is the first one in the queue, and it is taken away there. -/
theorem exists_of_next? (h : w.next? = some (t, w')) : w.phase = .running ∧
    ∃ queue, w.queue.toList = t :: queue.toList ∧ w' = { w with queue } := by
  unfold next? at h
  split at h
  · cases h
  · next hrunning =>
    obtain ⟨⟨t', queue⟩, hpop, heq⟩ := Option.map_eq_some_iff.1 h
    cases heq
    exact ⟨not_not.1 hrunning, queue, Fifo.toList_of_pop? hpop, rfl⟩

/-- The thread ends well if the sequence of the worker is current at its end. -/
theorem phase_stop (hrunning : w.phase = .running) (current : Option SequenceId) :
    (w.stop current).phase = if current = some w.id then .stopped else .failed := by
  rw [stop, if_pos hrunning]

theorem queue_stop (w : Worker τ) (current : Option SequenceId) :
    (w.stop current).queue = w.queue := by
  unfold stop
  split <;> rfl

end Worker

namespace Shift

variable {τ : Type} {a b b' c : Shift τ} {e : Event τ} {H K : List (Event τ)} {t : τ} {n m : Nat}

/-! ## The tasks -/

/-- What the thread does fits to the tasks that were started and those that ran to their ends. -/
def Fits (H : List (Event τ)) : Job τ → Prop
  | .idle => ¬ Failed H → started H = finished H
  | .busy t => ¬ Failed H ∧ started H = finished H ++ [t]
  | .failing => Failed H

/-- What the tasks have to do with the state of the thread. -/
structure Flow (H : List (Event τ)) (b : Shift τ) : Prop where
  /-- One task runs at most, and all others that were started have run to their ends. -/
  job : Fits H b.job
  /-- While the thread runs, each task that was taken was started or waits. -/
  running : b.worker.phase = .running → accepted H = started H ++ b.worker.queue.toList
  /-- After its end the thread does nothing, and without a failure it started all tasks. -/
  ended : b.worker.phase ≠ .running → b.job = .idle ∧ started H <+: accepted H ∧
    (¬ Failed H → started H = accepted H)
  /-- If a task failed, the thread is about to end or has ended. -/
  failed : Failed H → b.job = .failing ∨ b.worker.phase = .failed
  /-- If a task left a scope open, the end of the thread is a failure. -/
  unclean : .stopped false ∈ H → b.worker.phase = .failed
  /-- There is no other reason for a failure. -/
  reason : b.worker.phase = .failed → Failed H ∨ .stopped false ∈ H

/-- Whether an event concerns the calls only, or is a refusal. -/
def Event.Aside : Event τ → Prop
  | refused _ | closed _ _ | took _ | returned _ _ | gaveUp _ => True
  | _ => False

theorem fits_cons {j : Job τ} (h : Fits H j) (hstarted : e.started? = none)
    (hfinished : e.finished? = none) (hfailed : ∀ t, e ≠ .failed t) : Fits (e :: H) j := by
  have hf : Failed (e :: H) ↔ Failed H := by simp [failed_cons, hfailed]
  have hs : started (e :: H) = started H := by simp [started_cons, hstarted]
  have hd : finished (e :: H) = finished H := by simp [finished_cons, hfinished]
  cases j with
  | idle =>
    unfold Fits
    rw [hf, hs, hd]
    exact h
  | busy t =>
    unfold Fits
    rw [hf, hs, hd]
    exact h
  | failing => exact hf.2 h

namespace Flow

/-- A thread that does something has not ended. -/
theorem running_of_job (h : Flow H b) (hjob : b.job ≠ .idle) : b.worker.phase = .running := by
  cases hphase : b.worker.phase with
  | running => rfl
  | stopped => exact absurd (h.ended (by simp [hphase])).1 hjob
  | failed => exact absurd (h.ended (by simp [hphase])).1 hjob

/-- A thread that runs and is idle has seen no failure. -/
theorem not_failed (h : Flow H b) (hidle : b.job = .idle) (hrunning : b.worker.phase = .running) :
    ¬ Failed H := by
  intro hfailed
  rcases h.failed hfailed with hjob | hphase
  · cases hidle.symm.trans hjob
  · cases hrunning.symm.trans hphase

/-- An event after which the thread still runs.  What waits grows at its end by what is taken, and
loses at its front what is started. -/
theorem of_running (h : Flow H b) (hrunning : b.worker.phase = .running)
    (hrunning' : b'.worker.phase = .running) (hjob : Fits (e :: H) b'.job)
    (hqueue : b.worker.queue.toList ++ e.accepted?.toList =
      e.started?.toList ++ b'.worker.queue.toList)
    (hfailed : Failed (e :: H) → b'.job = .failing) (hclean : e ≠ .stopped false) :
    Flow (e :: H) b' where
  job := hjob
  running _ := by
    rw [accepted_cons, started_cons, h.running hrunning, List.append_assoc, List.append_assoc,
      hqueue]
  ended hended := absurd hrunning' hended
  failed hf := .inl (hfailed hf)
  unclean hmem := by
    rcases List.mem_cons.1 hmem with heq | hold
    · exact absurd heq.symm hclean
    · cases hrunning.symm.trans (h.unclean hold)
  reason hphase := nomatch hrunning'.symm.trans hphase

/-- An event aside changes nothing here. -/
theorem of_aside (h : Flow H b) (he : e.Aside) (hphase : b'.worker.phase = b.worker.phase)
    (hqueue : b'.worker.queue = b.worker.queue) (hjob : b'.job = b.job) : Flow (e :: H) b' := by
  have haccepted : accepted (e :: H) = accepted H := by
    rw [accepted_cons]
    cases e <;> first | exact he.elim | exact List.append_nil _
  have hstarted : started (e :: H) = started H := by
    rw [started_cons]
    cases e <;> first | exact he.elim | exact List.append_nil _
  have hfailed : Failed (e :: H) ↔ Failed H := by
    rw [failed_cons]
    cases e <;> first | exact he.elim | simp
  have hstopped : Event.stopped false ∈ e :: H ↔ Event.stopped false ∈ H := by
    rw [List.mem_cons]
    cases e <;> first | exact he.elim | simp
  constructor
  case job =>
    rw [hjob]
    refine fits_cons h.job ?_ ?_ ?_
    all_goals cases e <;> first | exact he.elim | simp [Event.started?, Event.finished?]
  case running => rw [hphase, hqueue, haccepted, hstarted]; exact h.running
  case ended => rw [hphase, hjob, haccepted, hstarted, hfailed]; exact h.ended
  case failed => rw [hjob, hphase, hfailed]; exact h.failed
  case unclean => rw [hphase, hstopped]; exact h.unclean
  case reason => rw [hphase, hfailed, hstopped]; exact h.reason

/-- The thread ends after the last task. -/
theorem stop (h : Flow H b) (hidle : b.job = .idle) (hrunning : b.worker.phase = .running)
    (hempty : b.worker.queue.toList = []) (current : Option SequenceId) :
    Flow (.stopped (current = some b.worker.id) :: H)
      { b with worker := b.worker.stop current } := by
  have hnot := h.not_failed hidle hrunning
  have hphase := Worker.phase_stop hrunning current
  have hjob := h.job
  rw [hidle] at hjob
  generalize hclean : decide (current = some b.worker.id) = clean
  have hfailed : ¬ Failed (.stopped clean :: H) := by simpa [failed_cons] using hnot
  have hall : started (.stopped clean :: H) = accepted (.stopped clean :: H) := by
    rw [accepted_cons, started_cons, h.running hrunning, hempty]
    simp [Event.accepted?, Event.started?]
  constructor
  case job =>
    rw [hidle]
    exact fits_cons hjob rfl rfl nofun
  case running =>
    intro hr
    rw [hphase] at hr
    split at hr <;> cases hr
  case ended => exact fun _ => ⟨hidle, hall ▸ List.prefix_refl _, fun _ => hall⟩
  case failed => exact fun hf => absurd hf hfailed
  case unclean =>
    intro hmem
    rw [hphase]
    rcases List.mem_cons.1 hmem with heq | hold
    · cases heq
      rw [if_neg (of_decide_eq_false hclean)]
    · cases hrunning.symm.trans (h.unclean hold)
  case reason =>
    intro hf
    rw [hphase] at hf
    by_cases hcurrent : current = some b.worker.id
    · rw [if_pos hcurrent] at hf
      cases hf
    · rw [decide_eq_false hcurrent] at hclean
      exact .inr (hclean ▸ List.mem_cons_self)

end Flow

/-- The flow of the tasks goes on whatever happens. -/
theorem Moves.flow (h : b.Moves e b') (hb : Flow H b) : Flow (e :: H) b' := by
  have hjob := hb.job
  cases h with
  | @accept t w ht =>
    obtain ⟨-, hrunning, rfl⟩ := Worker.post?_eq_some_iff.1 ht
    refine hb.of_running hrunning hrunning (fits_cons hjob rfl rfl nofun) ?_ ?_ nofun
    · exact (Fifo.toList_push ..).symm
    · intro hf
      rcases hb.failed (by simpa [failed_cons] using hf) with hfailing | hphase
      · exact hfailing
      · cases hrunning.symm.trans hphase
  | @start t w hidle ht =>
    obtain ⟨hrunning, queue, hqueue, rfl⟩ := Worker.exists_of_next? ht
    have hnot := hb.not_failed hidle hrunning
    have hfailed : ¬ Failed (.started t :: H) := by simpa [failed_cons] using hnot
    rw [hidle] at hjob
    refine hb.of_running hrunning hrunning ⟨hfailed, ?_⟩ ?_ (absurd · hfailed) nofun
    · rw [started_cons, finished_cons, hjob hnot]
      simp [Event.started?, Event.finished?]
    · exact (List.append_nil _).trans hqueue
  | @finish t hbusy =>
    have hrunning := hb.running_of_job (by rw [hbusy]; nofun)
    rw [hbusy] at hjob
    have hfailed : ¬ Failed (.finished t :: H) := by simpa [failed_cons] using hjob.1
    refine hb.of_running hrunning hrunning (fun _ => ?_) ?_ (absurd · hfailed) nofun
    · rw [started_cons, finished_cons, hjob.2]
      simp [Event.started?, Event.finished?]
    · exact List.append_nil _
  | @fail t hbusy =>
    have hrunning := hb.running_of_job (by rw [hbusy]; nofun)
    refine hb.of_running hrunning hrunning (failed_cons.2 (.inl ⟨t, rfl⟩)) ?_ (fun _ => rfl) nofun
    exact List.append_nil _
  | die hfailing =>
    have hrunning := hb.running_of_job (by rw [hfailing]; nofun)
    rw [hfailing] at hjob
    have hfailed : Failed (.died b.worker.queue.toList :: H) := failed_cons.2 (.inr hjob)
    refine ⟨absurd hfailed, nofun, fun _ => ⟨rfl, ?_, absurd hfailed⟩, fun _ => .inr rfl,
      fun _ => rfl, fun _ => .inl hfailed⟩
    rw [accepted_cons, started_cons, hb.running hrunning]
    simp [Event.accepted?, Event.started?]
  | stop hidle hrunning _ hempty current => exact hb.stop hidle hrunning hempty current
  | refuse => exact hb.of_aside trivial rfl rfl rfl
  | close => exact hb.of_aside trivial rfl rfl rfl
  | pass => exact hb.of_aside trivial rfl rfl rfl
  | miss => exact hb.of_aside trivial rfl rfl rfl
  | take => exact hb.of_aside trivial rfl rfl rfl
  | join => exact hb.of_aside trivial rfl rfl rfl
  | giveUp => exact hb.of_aside trivial rfl rfl rfl

/-- The sequence of a worker is always the same. -/
theorem Moves.id_eq (h : b.Moves e b') : b'.worker.id = b.worker.id := by
  cases h with
  | accept ht =>
    obtain ⟨-, -, rfl⟩ := Worker.post?_eq_some_iff.1 ht
    rfl
  | start hidle ht =>
    obtain ⟨-, queue, -, rfl⟩ := Worker.exists_of_next? ht
    rfl
  | stop _ hrunning _ _ current =>
    show (b.worker.stop current).id = _
    rw [Worker.stop, if_pos hrunning]
  | _ => rfl

/-! ## After a close and after a failure -/

/-- A closed worker stays closed and takes no task. -/
theorem Moves.closed (h : b.Moves e b') (hclosed : b.worker.closed = true) :
    b'.worker.closed = true ∧ e.accepted? = none := by
  cases h with
  | accept ht =>
    obtain ⟨hopen, -, -⟩ := Worker.post?_eq_some_iff.1 ht
    cases hclosed.symm.trans hopen
  | start hidle ht =>
    obtain ⟨-, queue, -, rfl⟩ := Worker.exists_of_next? ht
    exact ⟨hclosed, rfl⟩
  | stop _ hrunning _ _ current =>
    refine ⟨?_, rfl⟩
    show (b.worker.stop current).closed = _
    rw [Worker.stop, if_pos hrunning]
    exact hclosed
  | close => exact ⟨rfl, rfl⟩
  | _ => exact ⟨hclosed, rfl⟩

/-- A closed queue stays closed, and no task is taken any more. -/
theorem Takes.closed (h : b.Takes K c) (hclosed : b.worker.closed = true) :
    c.worker.closed = true ∧ accepted K = [] := by
  induction h with
  | refl => exact ⟨hclosed, rfl⟩
  | step _ last ih =>
    obtain ⟨hnext, hnone⟩ := last.closed ih.1
    rw [accepted_cons, ih.2, hnone]
    exact ⟨hnext, rfl⟩

/-- After a failure the thread starts no task. -/
theorem Moves.doomed (h : b.Moves e b')
    (hdoomed : b.job = .failing ∨ b.worker.phase ≠ .running ∧ b.job = .idle) :
    (b'.job = .failing ∨ b'.worker.phase ≠ .running ∧ b'.job = .idle) ∧ e.started? = none := by
  cases h with
  | accept ht =>
    obtain ⟨-, -, rfl⟩ := Worker.post?_eq_some_iff.1 ht
    exact ⟨hdoomed, rfl⟩
  | start hidle ht =>
    obtain ⟨hrunning, -⟩ := Worker.exists_of_next? ht
    rcases hdoomed with hfailing | ⟨hended, -⟩
    · cases hidle.symm.trans hfailing
    · exact absurd hrunning hended
  | finish hbusy =>
    rcases hdoomed with hfailing | ⟨-, hidle⟩
    · cases hbusy.symm.trans hfailing
    · cases hbusy.symm.trans hidle
  | fail hbusy => exact ⟨.inl rfl, rfl⟩
  | die => exact ⟨.inr ⟨nofun, rfl⟩, rfl⟩
  | stop hidle hrunning =>
    rcases hdoomed with hfailing | ⟨hended, -⟩
    · cases hidle.symm.trans hfailing
    · exact absurd hrunning hended
  | _ => exact ⟨hdoomed, rfl⟩

/-- After a failure, and after the end of the thread, no task is started any more. -/
theorem Takes.doomed (h : b.Takes K c)
    (hdoomed : b.job = .failing ∨ b.worker.phase ≠ .running ∧ b.job = .idle) :
    (c.job = .failing ∨ c.worker.phase ≠ .running ∧ c.job = .idle) ∧ started K = [] := by
  induction h with
  | refl => exact ⟨hdoomed, rfl⟩
  | step _ last ih =>
    obtain ⟨hnext, hnone⟩ := last.doomed ih.1
    rw [started_cons, ih.2, hnone]
    exact ⟨hnext, rfl⟩

/-! ## The handle -/

/-- How far the calls have come, and who has the handle. -/
structure Handle (H : List (Event τ)) (b : Shift τ) : Prop where
  /-- A number is not in use before its call. -/
  fresh : ∀ n, b.next ≤ n → b.calls n = .unmade
  /-- A call that was made has a number. -/
  made : ∀ n current, .closed n current ∈ H → n < b.next
  /-- A call remembers where it was made. -/
  closing : ∀ n current, b.calls n = .closing current →
    ∀ current', .closed n current' ∈ H ↔ current' = current
  /-- A call waits only if it took the handle. -/
  waiting : ∀ n, b.calls n = .waiting → .took n ∈ H
  /-- A call that took the handle waits or is over. -/
  took : ∀ n, .took n ∈ H → b.calls n = .waiting ∨ b.calls n = .over
  /-- The handle is gone if a call took it. -/
  joined : b.worker.joined = true ↔ ∃ n, .took n ∈ H
  /-- No two calls took the handle. -/
  once : ∀ n m, .took n ∈ H → .took m ∈ H → n = m
  /-- The call that took it came from outside. -/
  outside : ∀ n, .took n ∈ H → Outside b.worker.id H n

/-- An event that makes no call and takes no handle.  Calls may be over after it. -/
theorem Handle.of_calls (h : Handle H b) (hclosed : ∀ n q, e ≠ .closed n q)
    (htook : ∀ n, e ≠ .took n)
    (hcalls : ∀ n, b'.calls n = b.calls n ∨ b.calls n ≠ .unmade ∧ b'.calls n = .over)
    (hnext : b'.next = b.next) (hjoined : b'.worker.joined = b.worker.joined)
    (hid : b'.worker.id = b.worker.id) : Handle (e :: H) b' := by
  have hc : ∀ n q, .closed n q ∈ e :: H ↔ .closed n q ∈ H := fun n q => by
    simp [List.mem_cons, (hclosed n q).symm]
  have ht : ∀ n, .took n ∈ e :: H ↔ .took n ∈ H := fun n => by
    simp [List.mem_cons, (htook n).symm]
  constructor
  case fresh =>
    intro n hn
    rcases hcalls n with hsame | ⟨hmade, -⟩
    · exact hsame.trans (h.fresh n (hnext ▸ hn))
    · exact absurd (h.fresh n (hnext ▸ hn)) hmade
  case made => exact fun n q hmem => hnext ▸ h.made n q ((hc n q).1 hmem)
  case closing =>
    intro n q hcall q'
    rw [hc]
    rcases hcalls n with hsame | ⟨-, hover⟩
    · exact h.closing n q (hsame.symm.trans hcall) q'
    · cases hover.symm.trans hcall
  case waiting =>
    intro n hcall
    rcases hcalls n with hsame | ⟨-, hover⟩
    · exact (ht n).2 (h.waiting n (hsame.symm.trans hcall))
    · cases hover.symm.trans hcall
  case took =>
    intro n hmem
    rcases hcalls n with hsame | ⟨-, hover⟩
    · rw [hsame]
      exact h.took n ((ht n).1 hmem)
    · exact .inr hover
  case joined => rw [hjoined, h.joined]; exact exists_congr fun n => (ht n).symm
  case once => exact fun n m hn hm => h.once n m ((ht n).1 hn) ((ht m).1 hm)
  case outside =>
    intro n hmem
    obtain ⟨q, hq, hne⟩ := h.outside n ((ht n).1 hmem)
    exact ⟨q, (hc n q).2 hq, hid ▸ hne⟩

/-- When a call returns, the others are as far as they were. -/
theorem calls_setCall (b : Shift τ) {n : Nat} (hn : b.calls n ≠ .unmade) (m : Nat) :
    (b.setCall n .over).calls m = b.calls m ∨
      b.calls m ≠ .unmade ∧ (b.setCall n .over).calls m = .over := by
  by_cases hm : m = n
  · subst hm
    exact .inr ⟨hn, Function.update_self ..⟩
  · exact .inl (Function.update_of_ne hm ..)

/-- A call is made. -/
theorem Handle.close (hb : Handle H b) (current : Option SequenceId) :
    Handle (.closed b.next current :: H) { b.setCall b.next (.closing current) with
      worker := b.worker.close, next := b.next + 1 } := by
  have hc : ∀ n q, .closed n q ∈ .closed b.next current :: H ↔
      (n = b.next ∧ q = current) ∨ .closed n q ∈ H := fun n q => by simp
  have ht : ∀ n, Event.took n ∈ .closed b.next current :: H ↔ .took n ∈ H := fun n => by simp
  have hnew : ∀ n, n ≠ b.next → Function.update b.calls b.next (.closing current) n = b.calls n :=
    fun n hn => Function.update_of_ne hn ..
  have hself : Function.update b.calls b.next (.closing current) b.next = .closing current :=
    Function.update_self ..
  have hlt : ∀ n, .took n ∈ H → n ≠ b.next := by
    rintro n hmem rfl
    have hunmade := hb.fresh b.next (Nat.le_refl _)
    rcases hb.took _ hmem with hcall | hcall <;> cases hunmade.symm.trans hcall
  constructor
  case fresh =>
    intro n hn
    have hne : n ≠ b.next := Nat.ne_of_gt hn
    exact (hnew n hne).trans (hb.fresh n (Nat.le_of_succ_le hn))
  case made =>
    intro n q hmem
    rcases (hc n q).1 hmem with ⟨rfl, -⟩ | hold
    · exact Nat.lt_succ_self _
    · exact Nat.lt_succ_of_lt (hb.made n q hold)
  case closing =>
    intro n q hcall q'
    rw [hc]
    by_cases hn : n = b.next
    · subst hn
      cases hself.symm.trans hcall
      refine ⟨fun hor => hor.elim And.right fun hold => ?_, fun heq => .inl ⟨rfl, heq⟩⟩
      exact absurd (hb.made _ _ hold) (Nat.lt_irrefl _)
    · rw [← hb.closing n q ((hnew n hn).symm.trans hcall) q']
      exact or_iff_right fun hand => hn hand.1
  case waiting =>
    intro n hcall
    by_cases hn : n = b.next
    · subst hn
      cases hself.symm.trans hcall
    · exact (ht n).2 (hb.waiting n ((hnew n hn).symm.trans hcall))
  case took =>
    intro n hmem
    have hold := (ht n).1 hmem
    show Function.update b.calls b.next _ n = _ ∨ Function.update b.calls b.next _ n = _
    rw [hnew n (hlt n hold)]
    exact hb.took n hold
  case joined => exact hb.joined.trans (exists_congr fun n => (ht n).symm)
  case once => exact fun n m hn hm => hb.once n m ((ht n).1 hn) ((ht m).1 hm)
  case outside =>
    intro n hmem
    obtain ⟨q, hq, hne⟩ := hb.outside n ((ht n).1 hmem)
    exact ⟨q, List.mem_cons_of_mem _ hq, hne⟩

/-- A call from outside takes the handle. -/
theorem Handle.take (hb : Handle H b) {current : Option SequenceId}
    (hcall : b.calls n = .closing current) (houtside : current ≠ some b.worker.id)
    (hjoined : b.worker.joined = false) (joiner : Option Nat) :
    Handle (.took n :: H)
      { b.setCall n .waiting with worker := { b.worker with joined := true, joiner } } := by
  have hc : ∀ m q, Event.closed m q ∈ .took n :: H ↔ .closed m q ∈ H := fun m q => by simp
  have ht : ∀ m, Event.took m ∈ .took n :: H ↔ m = n ∨ .took m ∈ H := fun m => by simp
  have hnone : ∀ m, .took m ∉ H := fun m hmem => by
    have hgone := hb.joined.2 ⟨m, hmem⟩
    cases hgone.symm.trans hjoined
  have hnew : ∀ m, m ≠ n → Function.update b.calls n .waiting m = b.calls m :=
    fun m hm => Function.update_of_ne hm ..
  have hself : Function.update b.calls n .waiting n = .waiting := Function.update_self ..
  have hlt : n < b.next := by
    refine Nat.lt_of_not_le fun hle => ?_
    cases (hb.fresh n hle).symm.trans hcall
  constructor
  case fresh =>
    intro m hm
    exact (hnew m (Nat.ne_of_gt (Nat.lt_of_lt_of_le hlt hm))).trans (hb.fresh m hm)
  case made => exact fun m q hmem => hb.made m q ((hc m q).1 hmem)
  case closing =>
    intro m q hcall' q'
    rw [hc]
    by_cases hm : m = n
    · subst hm
      cases hself.symm.trans hcall'
    · exact hb.closing m q ((hnew m hm).symm.trans hcall') q'
  case waiting =>
    intro m hcall'
    by_cases hm : m = n
    · exact (ht m).2 (.inl hm)
    · exact (ht m).2 (.inr (hb.waiting m ((hnew m hm).symm.trans hcall')))
  case took =>
    intro m hmem
    rcases (ht m).1 hmem with rfl | hold
    · exact .inl hself
    · exact absurd hold (hnone m)
  case joined => exact ⟨fun _ => ⟨n, List.mem_cons_self⟩, fun _ => rfl⟩
  case once =>
    intro m m' hm hm'
    rw [((ht m).1 hm).resolve_right (hnone m), ((ht m').1 hm').resolve_right (hnone m')]
  case outside =>
    intro m hmem
    obtain rfl := ((ht m).1 hmem).resolve_right (hnone m)
    exact ⟨current, (hc m current).2 ((hb.closing m current hcall current).2 rfl), houtside⟩

/-- What is known of the calls and of the handle stays true whatever happens. -/
theorem Moves.handle (h : b.Moves e b') (hb : Handle H b) : Handle (e :: H) b' := by
  have hid := h.id_eq
  cases h with
  | accept ht =>
    obtain ⟨-, -, rfl⟩ := Worker.post?_eq_some_iff.1 ht
    exact hb.of_calls nofun nofun (fun n => .inl rfl) rfl rfl rfl
  | refuse => exact hb.of_calls nofun nofun (fun n => .inl rfl) rfl rfl rfl
  | start hidle ht =>
    obtain ⟨-, queue, -, rfl⟩ := Worker.exists_of_next? ht
    exact hb.of_calls nofun nofun (fun n => .inl rfl) rfl rfl rfl
  | finish => exact hb.of_calls nofun nofun (fun n => .inl rfl) rfl rfl rfl
  | fail => exact hb.of_calls nofun nofun (fun n => .inl rfl) rfl rfl rfl
  | die => exact hb.of_calls nofun nofun (fun n => .inl rfl) rfl rfl rfl
  | stop _ hrunning _ _ current =>
    refine hb.of_calls nofun nofun (fun n => .inl rfl) rfl ?_ hid
    show (b.worker.stop current).joined = _
    rw [Worker.stop, if_pos hrunning]
  | pass hcall =>
    exact hb.of_calls nofun nofun (calls_setCall b (by rw [hcall]; nofun)) rfl rfl rfl
  | miss hcall =>
    exact hb.of_calls nofun nofun (calls_setCall b (by rw [hcall]; nofun)) rfl rfl rfl
  | join hcall =>
    exact hb.of_calls nofun nofun (calls_setCall b (by rw [hcall]; nofun)) rfl rfl rfl
  | giveUp hcall =>
    exact hb.of_calls nofun nofun (calls_setCall b (by rw [hcall]; nofun)) rfl rfl rfl
  | close current => exact hb.close current
  | take hcall houtside hjoined joiner => exact hb.take hcall houtside hjoined joiner

/-! ## The laws of a run -/

theorem flow_new (id : SequenceId) (name : String) : Flow [] (new id name : Shift τ) where
  job _ := rfl
  running _ := rfl
  ended h := absurd rfl h
  failed := by
    rintro ⟨t, ht⟩
    cases ht
  unclean := nofun
  reason := nofun

theorem handle_new (id : SequenceId) (name : String) : Handle [] (new id name : Shift τ) where
  fresh _ _ := rfl
  made := nofun
  closing := nofun
  waiting := nofun
  took := nofun
  joined := ⟨nofun, fun ⟨_, h⟩ => nomatch h⟩
  once := nofun
  outside := nofun

/-- What holds after any run of the worker of a sequence. -/
structure Orderly (id : SequenceId) (H : List (Event τ)) : Prop where
  /-- When a task starts, all tasks that were started before have run to their ends. -/
  one_at_a_time : ∀ t K K', H = K' ++ .started t :: K → started K = finished K
  /-- The tasks that were started are the first ones that were accepted, in the same order. -/
  in_order : started H <+: accepted H
  /-- If each task was posted once, it started once at most, and not at all if it was refused. -/
  at_most_once : (posted H).Nodup → (started H).Nodup ∧ ∀ t ∈ refused H, t ∉ started H
  /-- After a close no task is accepted. -/
  shut : ∀ n current K K', H = K' ++ .closed n current :: K → accepted K' = []
  /-- After a failure no task starts. -/
  failed : ∀ t K K', H = K' ++ .failed t :: K → started K' = []
  /-- When the call returns that took the handle, all tasks that were accepted have run to their
  ends, unless one failed. -/
  drained : ∀ n r K K', H = K' ++ .returned n r :: K → .took n ∈ K → ¬ Failed K →
    finished K = accepted H
  /-- No two calls take the handle, and the one that does comes from outside. -/
  first : ∀ n m, .took n ∈ H → .took m ∈ H → n = m ∧ Outside id H n
  /-- A call from outside that returns without the handle comes after the one that took it. -/
  late : ∀ n r K K', H = K' ++ .returned n r :: K → Outside id K n →
    .took n ∈ K ∨ ∃ m, m ≠ n ∧ .took m ∈ K
  /-- A call from outside that returns before another one is made took the handle. -/
  alone : ∀ n r K K', H = K' ++ .returned n r :: K → Outside id K n →
    (∀ m, Outside id K m → m = n) → .took n ∈ K
  /-- A call tells of a failure if it took the handle and a task failed, where all tasks close the
  scopes that they open, and otherwise of none. -/
  told : ∀ n r K K', H = K' ++ .returned n r :: K → .stopped false ∉ K →
    (r = .error (.workerFailed id) ↔ .took n ∈ K ∧ Failed K) ∧
      (r = .ok () ∨ r = .error (.workerFailed id))

namespace Takes

variable {id : SequenceId} {name : String}

theorem id_eq (h : (new id name : Shift τ).Takes H b) : b.worker.id = id := by
  induction h with
  | refl => rfl
  | step _ last ih => exact last.id_eq.trans ih

theorem flow (h : (new id name : Shift τ).Takes H b) : Flow H b := by
  induction h with
  | refl => exact flow_new id name
  | step _ last ih => exact last.flow ih

theorem handle (h : (new id name : Shift τ).Takes H b) : Handle H b := by
  induction h with
  | refl => exact handle_new id name
  | step _ last ih => exact last.handle ih

/-- Tasks are started in the order in which they were taken. -/
theorem started_prefix (h : (new id name : Shift τ).Takes H b) : started H <+: accepted H := by
  by_cases hrunning : b.worker.phase = .running
  · rw [h.flow.running hrunning]
    exact List.prefix_append ..
  · exact (h.flow.ended hrunning).2.1

/-- Before an event in a run there was a shift that it happened at. -/
theorem before (h : (new id name : Shift τ).Takes (K' ++ e :: K) b) :
    ∃ a c, (new id name).Takes K a ∧ a.Moves e c ∧ c.Takes K' b := by
  obtain ⟨c, hK, hK'⟩ := h.split
  cases hK with
  | step before last => exact ⟨_, c, before, last, hK'⟩

/-- At the end of the thread, a failure of it comes from a task. -/
theorem outcome_eq (h : (new id name : Shift τ).Takes H b) (hended : b.worker.phase ≠ .running)
    (hclean : .stopped false ∉ H) :
    (b.worker.outcome = .error (.workerFailed id) ↔ Failed H) ∧
      (b.worker.outcome = .ok () ∨ b.worker.outcome = .error (.workerFailed id)) := by
  rw [Worker.outcome, h.id_eq]
  cases hphase : b.worker.phase with
  | running => exact absurd hphase hended
  | stopped =>
    refine ⟨⟨nofun, fun hfailed => ?_⟩, .inl rfl⟩
    rcases h.flow.failed hfailed with hfailing | hfail
    · cases (h.flow.ended hended).1.symm.trans hfailing
    · cases hphase.symm.trans hfail
  | failed => exact ⟨⟨fun _ => (h.flow.reason hphase).resolve_right hclean, fun _ => rfl⟩, .inr rfl⟩

/-- Since a call was made the queue is closed. -/
theorem closed_of_mem (h : (new id name : Shift τ).Takes H b) {current : Option SequenceId}
    (hmem : .closed n current ∈ H) : b.worker.closed = true := by
  induction h with
  | refl => cases hmem
  | step _ last ih =>
    rcases List.mem_cons.1 hmem with heq | hold
    · subst heq
      cases last with
      | close => rfl
    · exact (last.closed (ih hold)).1

/-- The call that took the handle returns after the thread has ended. -/
theorem ended_of_took {r : Except SequenceError Unit} (h : (new id name : Shift τ).Takes K a)
    (hmove : a.Moves (.returned n r) c) (htook : .took n ∈ K) : a.worker.phase ≠ .running := by
  have hcalls := h.handle.took n htook
  cases hmove with
  | pass hcall => rcases hcalls with hwait | hover <;> cases hcall.symm.trans ‹_›
  | miss hcall => rcases hcalls with hwait | hover <;> cases hcall.symm.trans ‹_›
  | join _ hended => exact hended

/-- A call from outside that returns had the handle or found it gone. -/
theorem late {r : Except SequenceError Unit} (h : (new id name : Shift τ).Takes K a)
    (hmove : a.Moves (.returned n r) c) (houtside : Outside id K n) :
    .took n ∈ K ∨ ∃ m, m ≠ n ∧ .took m ∈ K := by
  obtain ⟨q, hq, hne⟩ := houtside
  cases hmove with
  | pass hcall =>
    rw [h.handle.closing n _ hcall q, h.id_eq] at hq
    exact absurd hq hne
  | miss hcall _ hjoined =>
    obtain ⟨m, hm⟩ := h.handle.joined.1 hjoined
    refine .inr ⟨m, ?_, hm⟩
    rintro rfl
    rcases h.handle.took m hm with hwait | hover
    · cases hcall.symm.trans hwait
    · cases hcall.symm.trans hover
  | join hcall => exact .inl (h.handle.waiting n hcall)

/-- Any run of a new worker is orderly. -/
theorem orderly (h : (new id name : Shift τ).Takes H b) : Orderly id H where
  one_at_a_time t K K' hH := by
    subst hH
    obtain ⟨a, c, hK, hmove, -⟩ := h.before
    cases hmove with
    | start hidle ht =>
      have hjob := hK.flow.job
      rw [hidle] at hjob
      exact hjob (hK.flow.not_failed hidle (Worker.exists_of_next? ht).1)
  in_order := h.started_prefix
  at_most_once hposted := by
    have hnodup := posted_perm.nodup_iff.1 hposted
    obtain ⟨haccepted, -, hdisjoint⟩ := List.nodup_append.1 hnodup
    refine ⟨haccepted.sublist h.started_prefix.sublist, fun t hrefused hstarted => ?_⟩
    exact hdisjoint t (h.started_prefix.subset hstarted) t hrefused rfl
  shut n current K K' hH := by
    subst hH
    obtain ⟨a, c, -, hmove, hK'⟩ := h.before
    cases hmove with
    | close => exact (hK'.closed rfl).2
  failed t K K' hH := by
    subst hH
    obtain ⟨a, c, -, hmove, hK'⟩ := h.before
    cases hmove with
    | fail => exact (hK'.doomed (.inl rfl)).2
  drained n r K K' hH htook hnot := by
    subst hH
    obtain ⟨a, c, hK, hmove, hK'⟩ := h.before
    obtain ⟨hidle, -, hall⟩ := hK.flow.ended (hK.ended_of_took hmove htook)
    obtain ⟨q, hq, -⟩ := hK.handle.outside n htook
    -- The call closed the queue, so no task was accepted since.
    have hnone := ((hmove.takes.trans hK').closed (hK.closed_of_mem hq)).2
    have hjob := hK.flow.job
    rw [hidle] at hjob
    rw [← hjob hnot, hall hnot, List.append_cons, accepted_append, hnone, List.append_nil]
  first n m hn hm := ⟨h.handle.once n m hn hm, h.id_eq ▸ h.handle.outside n hn⟩
  late n r K K' hH houtside := by
    subst hH
    obtain ⟨a, c, hK, hmove, -⟩ := h.before
    exact hK.late hmove houtside
  alone n r K K' hH houtside hall := by
    subst hH
    obtain ⟨a, c, hK, hmove, -⟩ := h.before
    rcases hK.late hmove houtside with htook | ⟨m, hne, htook⟩
    · exact htook
    · exact absurd (hall m (hK.id_eq ▸ hK.handle.outside m htook)) hne
  told n r K K' hH hclean := by
    subst hH
    obtain ⟨a, c, hK, hmove, -⟩ := h.before
    have hnot : ∀ q, a.calls n = .closing q → .took n ∉ K := by
      intro q hcall htook
      rcases hK.handle.took n htook with hwait | hover
      · cases hcall.symm.trans hwait
      · cases hcall.symm.trans hover
    cases hmove with
    | pass hcall => exact ⟨⟨nofun, fun hand => absurd hand.1 (hnot _ hcall)⟩, .inl rfl⟩
    | miss hcall => exact ⟨⟨nofun, fun hand => absurd hand.1 (hnot _ hcall)⟩, .inl rfl⟩
    | join hcall hended =>
      obtain ⟨hiff, hor⟩ := hK.outcome_eq hended hclean
      exact ⟨hiff.trans (and_iff_right (hK.handle.waiting n hcall)).symm, hor⟩

end Takes

end Shift

end EntityStore
