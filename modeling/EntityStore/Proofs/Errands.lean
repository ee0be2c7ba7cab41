import EntityStore.Proofs.Shifts

/-!
# Calls that wait for a task

A call may post a task to a runner and wait for what the task gives.  The call makes sure first that
the sequence of the runner is not the current one, and then that the runner has a thread of its own.
Only then it posts the task.  The task holds the only sender of a line that the call listens to: it
sends what it gave when it ran to its end, and if it fails or is dropped, the sender is dropped with
it.

An `Errand` has the runner and the leg of the way on which such a call is.  `Errand.Moves` says what
can happen next, be it a step of the call or something else at the runner, in any order.

The call ends in one of five ways.  Each of them has its own reason, told by the run, and the task
is started once at most.  Whatever can happen at the worker without the call can happen while it is
on its way (`Errand.Takes.account`).
-/

namespace EntityStore

/-- A runner as a call finds it. -/
inductive Host (τ : Type) where
  /-- A manual runner. -/
  | manual (m : Manual τ)
  /-- A worker. -/
  | worker (b : Shift τ)

namespace Host

variable {τ : Type}

/-- The sequence of the runner. -/
def id : Host τ → SequenceId
  | .manual m => m.id
  | .worker b => b.worker.id

/-- Whether the runner has no thread of its own. -/
def IsManual : Host τ → Prop
  | .manual _ => True
  | .worker _ => False

/-- Whether a worker was just made.  A manual runner may be as it likes. -/
inductive Fresh : Host τ → Prop where
  /-- A manual runner. -/
  | manual (m : Manual τ) : Fresh (.manual m)
  /-- A worker that was just made. -/
  | worker (id : SequenceId) (name : String) : Fresh (.worker (.new id name))

end Host

/-- What has become of the task of a call, and of the sender that it holds. -/
inductive Lot (α : Type) where
  /-- It waits, and a number of tasks wait before it. -/
  | queued (ahead : Nat)
  /-- It runs. -/
  | running
  /-- It ran to its end and sent what it gave. -/
  | sent (a : α)
  /-- The sender was dropped before anything was sent. -/
  | gone

/-- How far a call has come that waits for a task. -/
inductive Leg (α : Type) where
  /-- It was not made. -/
  | unmade
  /-- The sequence of the runner is not current where the call was made. -/
  | asking
  /-- The task was taken. -/
  | waiting (l : Lot α)
  /-- The call ended. -/
  | ended (x : Except SequenceFault (Except SequenceError α))

/-- A runner, and how far a call has come that waits for a task there. -/
structure Errand (τ α : Type) where
  /-- The runner. -/
  host : Host τ
  /-- How far the call has come. -/
  leg : Leg α := .unmade

namespace Leg

variable {τ α : Type} {l : Leg α} {k : Shift.Event τ}

/-- Whether an event at the worker is none of the task of the call. -/
def Clear : Leg α → Shift.Event τ → Prop
  | .waiting (.queued 0), .started _ => False
  | .waiting (.queued _), .died _ => False
  | .waiting .running, .finished _ => False
  | .waiting .running, .failed _ => False
  | _, _ => True

/-- The leg when a task was started that waited before. -/
def forward : Leg α → Leg α
  | .waiting (.queued (n + 1)) => .waiting (.queued n)
  | l => l

/-- The leg after an event at the worker that is none of the task. -/
def after (l : Leg α) : Shift.Event τ → Leg α
  | .started _ => l.forward
  | _ => l

/-- Something that is none of the task leaves the leg as it is, or brings the task one place
forward. -/
theorem after_eq (l : Leg α) (k : Shift.Event τ) :
    l.after k = l ∨ ∃ n, l = .waiting (.queued (n + 1)) ∧ l.after k = .waiting (.queued n) := by
  unfold after
  split
  · unfold forward
    split
    · next n => exact .inr ⟨n, rfl, rfl⟩
    · exact .inl rfl
  · exact .inl rfl

/-- While the task waits, what is none of it is no end of the thread, and may be the start of
another one. -/
theorem Clear.queued {n : Nat} (h : (.waiting (.queued n) : Leg α).Clear k) :
    (∀ ts, k ≠ .died ts) ∧
      (k.started? = none ∧ (.waiting (.queued n) : Leg α).after k = .waiting (.queued n) ∨
        ∃ m x, n = m + 1 ∧ k = .started x) := by
  cases k with
  | started x =>
    cases n with
    | zero => exact h.elim
    | succ m => exact ⟨nofun, .inr ⟨m, x, rfl, rfl⟩⟩
  | died ts => cases n <;> exact h.elim
  | _ => exact ⟨nofun, .inl ⟨rfl, rfl⟩⟩

end Leg

namespace Shift

variable {τ : Type} {b b' : Shift τ} {k : Event τ} {t : τ}

/-- Unless the thread ends, the queue grows at its end by what is taken and loses at its front what
is started. -/
theorem Moves.queue (h : b.Moves k b') (hdied : ∀ ts, k ≠ .died ts)
    (hstopped : ∀ clean, k ≠ .stopped clean) : b'.worker.phase = b.worker.phase ∧
    b.worker.queue.toList ++ k.accepted?.toList = k.started?.toList ++ b'.worker.queue.toList := by
  cases h with
  | accept ht =>
    obtain ⟨-, -, rfl⟩ := Worker.post?_eq_some_iff.1 ht
    exact ⟨rfl, (Fifo.toList_push ..).symm⟩
  | start _ ht =>
    obtain ⟨-, queue, hnext, rfl⟩ := Worker.exists_of_next? ht
    exact ⟨rfl, (List.append_nil _).trans hnext⟩
  | die => exact absurd rfl (hdied _)
  | stop => exact absurd rfl (hstopped _)
  | _ => exact ⟨rfl, List.append_nil _⟩

/-- Whether an event leaves the tasks where they are that were taken. -/
def Event.Light (k : Event τ) : Prop := k.Aside ∨ ∃ x, k = .accepted x

/-- What is light starts no task. -/
theorem Event.Light.started?_eq_none (h : k.Light) : k.started? = none := by
  rcases h with haside | ⟨x, rfl⟩
  · cases k with
    | started x => exact haside.elim
    | _ => rfl
  · rfl

/-- The thread does not end by what is light. -/
theorem Event.Light.not_end (h : k.Light) :
    (∀ ts, k ≠ .died ts) ∧ ∀ clean, k ≠ .stopped clean := by
  constructor
  · rintro ts rfl
    simp [Light, Aside] at h
  · rintro clean rfl
    simp [Light, Aside] at h

/-- While a task runs, nothing becomes of the others. -/
theorem Moves.light_of_busy (h : b.Moves k b') (hbusy : b.job = .busy t)
    (hfinished : ∀ x, k ≠ .finished x) (hfailed : ∀ x, k ≠ .failed x) : k.Light := by
  cases h with
  | accept => exact .inr ⟨_, rfl⟩
  | start hidle => cases hbusy.symm.trans hidle
  | finish => exact absurd rfl (hfinished _)
  | fail => exact absurd rfl (hfailed _)
  | die hfailing => cases hbusy.symm.trans hfailing
  | stop hidle => cases hbusy.symm.trans hidle
  | _ => exact .inl trivial

/-- What is light is no work of the thread. -/
theorem Moves.job_of_light (h : b.Moves k b') (hk : k.Light) : b'.job = b.job := by
  rcases hk with haside | ⟨x, rfl⟩
  · cases h with
    | refuse | close | pass | miss | take | join | giveUp => rfl
    | _ => exact haside.elim
  · cases h
    rfl

/-- A task that failed was started. -/
theorem Takes.started_of_failed {id : SequenceId} {name : String} {H : List (Event τ)}
    (h : (new id name).Takes H b) (hmem : .failed t ∈ H) : t ∈ started H := by
  obtain ⟨K', K, rfl⟩ := List.append_of_mem hmem
  obtain ⟨a, c, hK, hmove, -⟩ := h.before
  cases hmove with
  | fail hbusy =>
    have hjob := hK.flow.job
    rw [hbusy] at hjob
    rw [started_append, started_cons, hjob.2]
    simp

end Shift

namespace Errand

variable {τ α : Type}

/-! ## Runs -/

/-- What happens to a call and at its runner. -/
inductive Event (τ α : Type) where
  /-- Something happened at the worker that was none of the task of the call. -/
  | aside (k : Shift.Event τ)
  /-- Something happened at the manual runner. -/
  | elsewhere
  /-- The call found that it would wait for itself, and failed. -/
  | panicked
  /-- The call found that it would not. -/
  | passed
  /-- The call found that the runner is manual. -/
  | unsupported
  /-- The task was posted and refused. -/
  | refused
  /-- The task was posted and taken. -/
  | accepted
  /-- The task was started. -/
  | started
  /-- The task ran to its end and sent what it gave. -/
  | finished (a : α)
  /-- The task failed. -/
  | failed
  /-- The thread ended after a failure, and dropped the tasks that waited, that of the call too. -/
  | dropped (ts : List τ)
  /-- The call received what the task had sent. -/
  | received (a : α)
  /-- The call learned that the sender is gone. -/
  | lost

/-- One thing happens.  A sequence may be current where the call is made, and it posts a task. -/
inductive Moves (current : Option SequenceId) (t : τ) (e : Errand τ α) :
    Event τ α → Errand τ α → Prop where
  /-- Something happens at the worker. -/
  | aside {b b' : Shift τ} {k : Shift.Event τ} (hhost : e.host = .worker b)
      (hmove : b.Moves k b') (hclear : e.leg.Clear k) :
      Moves current t e (.aside k) { host := .worker b', leg := e.leg.after k }
  /-- Something happens at the manual runner. -/
  | elsewhere {m m' : Manual τ} (hhost : e.host = .manual m) (hid : m'.id = m.id) :
      Moves current t e .elsewhere { e with host := .manual m' }
  /-- The call is made from the sequence of the runner, and fails. -/
  | panic (hleg : e.leg = .unmade) (hown : current = some e.host.id) :
      Moves current t e .panicked { e with leg := .ended (.error (.waitsForItself e.host.id)) }
  /-- The call is made from elsewhere. -/
  | pass (hleg : e.leg = .unmade) (hother : current ≠ some e.host.id) :
      Moves current t e .passed { e with leg := .asking }
  /-- The runner is manual, and the call returns. -/
  | refrain {m : Manual τ} (hleg : e.leg = .asking) (hhost : e.host = .manual m) :
      Moves current t e .unsupported
        { e with leg := .ended (.ok (.error (.blockingWaitUnsupported m.id))) }
  /-- The task is posted and refused, and the call returns. -/
  | refuse {b : Shift τ} (hleg : e.leg = .asking) (hhost : e.host = .worker b)
      (ht : b.worker.post? t = none) :
      Moves current t e .refused
        { e with leg := .ended (.ok (.error (.runnerShutDown b.worker.id))) }
  /-- The task is posted and taken. -/
  | accept {b : Shift τ} {w : Worker τ} (hleg : e.leg = .asking) (hhost : e.host = .worker b)
      (ht : b.worker.post? t = some w) :
      Moves current t e .accepted
        { host := .worker { b with worker := w }
          leg := .waiting (.queued b.worker.queue.toList.length) }
  /-- The task is started. -/
  | start {b b' : Shift τ} (hleg : e.leg = .waiting (.queued 0)) (hhost : e.host = .worker b)
      (hmove : b.Moves (.started t) b') :
      Moves current t e .started { host := .worker b', leg := .waiting .running }
  /-- The task runs to its end, and its last step sends what it gave. -/
  | finish {b b' : Shift τ} (a : α) (hleg : e.leg = .waiting .running)
      (hhost : e.host = .worker b) (hmove : b.Moves (.finished t) b') :
      Moves current t e (.finished a) { host := .worker b', leg := .waiting (.sent a) }
  /-- The task fails, and drops the sender. -/
  | fail {b b' : Shift τ} (hleg : e.leg = .waiting .running) (hhost : e.host = .worker b)
      (hmove : b.Moves (.failed t) b') :
      Moves current t e .failed { host := .worker b', leg := .waiting .gone }
  /-- The thread ends while the task waits, and the sender is dropped with the queue. -/
  | drop {b b' : Shift τ} {n : Nat} {ts : List τ} (hleg : e.leg = .waiting (.queued n))
      (hhost : e.host = .worker b) (hmove : b.Moves (.died ts) b') :
      Moves current t e (.dropped ts) { host := .worker b', leg := .waiting .gone }
  /-- The call receives what was sent, and returns. -/
  | receive {a : α} (hleg : e.leg = .waiting (.sent a)) :
      Moves current t e (.received a) { e with leg := .ended (.ok (.ok a)) }
  /-- The sender is gone, and the call returns. -/
  | lose (hleg : e.leg = .waiting .gone) :
      Moves current t e .lost
        { e with leg := .ended (.ok (.error (.taskAbandoned e.host.id))) }

/-- Events lead from an errand to an errand.  The latest comes first. -/
inductive Takes (current : Option SequenceId) (t : τ) (e : Errand τ α) :
    List (Event τ α) → Errand τ α → Prop where
  /-- Nothing happened. -/
  | refl : Takes current t e [] e
  /-- An event comes last. -/
  | step {H : List (Event τ α)} {e₁ e₂ : Errand τ α} {k : Event τ α}
      (before : Takes current t e H e₁) (last : e₁.Moves current t k e₂) :
      Takes current t e (k :: H) e₂

variable {current : Option SequenceId} {t : τ} {e e₀ e₁ e₂ : Errand τ α}
  {H K : List (Event τ α)} {k : Event τ α}

theorem Moves.takes (h : e.Moves current t k e₁) : e.Takes current t [k] e₁ := .step .refl h

theorem Takes.trans (hH : e.Takes current t H e₁) (hK : e₁.Takes current t K e₂) :
    e.Takes current t (K ++ H) e₂ := by
  induction hK with
  | refl => exact hH
  | step _ last ih => exact .step ih last

/-- A run can be stopped at any event. -/
theorem Takes.split (h : e.Takes current t (K ++ H) e₂) :
    ∃ e₁, e.Takes current t H e₁ ∧ e₁.Takes current t K e₂ := by
  induction K generalizing e₂ with
  | nil => exact ⟨e₂, h, .refl⟩
  | cons k K ih =>
    cases h with
    | step before last =>
      obtain ⟨e₁, hH, hK⟩ := ih before
      exact ⟨e₁, hH, .step hK last⟩

/-! ## What a run tells -/

/-- Whether an event is one of the call or of its task. -/
def Event.own : Event τ α → Bool
  | .aside _ | .elsewhere => false
  | _ => true

/-- Whether an event is the start of the task. -/
def Event.starts : Event τ α → Bool
  | .started => true
  | _ => false

/-- What an event is for the worker. -/
def Event.atWorker? (t : τ) : Event τ α → Option (Shift.Event τ)
  | .aside k => some k
  | .refused => some (.refused t)
  | .accepted => some (.accepted t)
  | .started => some (.started t)
  | .finished _ => some (.finished t)
  | .failed => some (.failed t)
  | .dropped ts => some (.died ts)
  | _ => none

/-- What happened at the worker. -/
def atWorker (t : τ) (H : List (Event τ α)) : List (Shift.Event τ) :=
  H.filterMap (Event.atWorker? t)

/-- The tasks that the worker started, in order. -/
def startedTasks (t : τ) (H : List (Event τ α)) : List τ := Shift.started (atWorker t H)

/-- The tasks that were taken before that of the call. -/
def earlier (t : τ) : List (Event τ α) → List τ
  | [] => []
  | .accepted :: H => Shift.accepted (atWorker t H)
  | _ :: H => earlier t H

theorem atWorker_cons : atWorker t (k :: H) = (k.atWorker? t).toList ++ atWorker t H := by
  unfold atWorker
  rw [List.filterMap_cons]
  cases k.atWorker? t <;> rfl

theorem startedTasks_append : startedTasks t (K ++ H) = startedTasks t H ++ startedTasks t K := by
  rw [startedTasks, atWorker, List.filterMap_append]
  exact Shift.started_append

/-- Before an event in a run there was an errand that it happened to. -/
theorem Takes.before (h : e₀.Takes current t (K ++ k :: H) e) :
    ∃ e₁ e₂, e₀.Takes current t H e₁ ∧ e₁.Moves current t k e₂ := by
  obtain ⟨e₂, hH, -⟩ := h.split
  cases hH with
  | step before last => exact ⟨_, _, before, last⟩

/-! ## The legs of a call -/

/-- What became of a task since it was taken. -/
inductive Fate : List (Event τ α) → Lot α → Prop where
  /-- It waits. -/
  | queued (n : Nat) : Fate [] (.queued n)
  /-- It was started. -/
  | running : Fate [.started] .running
  /-- It was started and ran to its end. -/
  | sent (a : α) : Fate [.finished a, .started] (.sent a)
  /-- It was started and failed. -/
  | failed : Fate [.failed, .started] .gone
  /-- It was dropped. -/
  | dropped (ts : List τ) : Fate [.dropped ts] .gone

/-- What happened to a call and its task, given the sequence that was current where it was made, and
whether the runner is manual. -/
inductive Tale (id : SequenceId) (current : Option SequenceId) (isManual : Prop) :
    List (Event τ α) → Leg α → Prop where
  /-- The call was not made. -/
  | unmade : Tale id current isManual [] .unmade
  /-- The call failed at once. -/
  | panicked (hown : current = some id) :
      Tale id current isManual [.panicked] (.ended (.error (.waitsForItself id)))
  /-- The call is about to post the task. -/
  | asking (hother : current ≠ some id) : Tale id current isManual [.passed] .asking
  /-- The runner is manual. -/
  | unsupported (hother : current ≠ some id) (hmanual : isManual) :
      Tale id current isManual [.unsupported, .passed]
        (.ended (.ok (.error (.blockingWaitUnsupported id))))
  /-- The task was refused. -/
  | refused (hother : current ≠ some id) (hworker : ¬ isManual) :
      Tale id current isManual [.refused, .passed] (.ended (.ok (.error (.runnerShutDown id))))
  /-- The task was taken. -/
  | waiting {K : List (Event τ α)} {l : Lot α} (hother : current ≠ some id)
      (hworker : ¬ isManual) (h : Fate K l) :
      Tale id current isManual (K ++ [.accepted, .passed]) (.waiting l)
  /-- The call received what the task gave. -/
  | received {K : List (Event τ α)} {a : α} (hother : current ≠ some id)
      (hworker : ¬ isManual) (h : Fate K (.sent a)) :
      Tale id current isManual (.received a :: (K ++ [.accepted, .passed])) (.ended (.ok (.ok a)))
  /-- The call learned that nothing will be sent. -/
  | lost {K : List (Event τ α)} (hother : current ≠ some id) (hworker : ¬ isManual)
      (h : Fate K .gone) :
      Tale id current isManual (.lost :: (K ++ [.accepted, .passed]))
        (.ended (.ok (.error (.taskAbandoned id))))

/-- The sequence of a runner and its kind do not change. -/
theorem Moves.host (h : e.Moves current t k e₁) :
    e₁.host.id = e.host.id ∧ (e₁.host.IsManual ↔ e.host.IsManual) := by
  have hworker {b b' : Shift τ} {k : Shift.Event τ} (hhost : e.host = .worker b)
      (hmove : b.Moves k b') : (Host.worker b').id = e.host.id ∧
        ((Host.worker b').IsManual ↔ e.host.IsManual) := by
    rw [hhost]
    exact ⟨hmove.id_eq, Iff.rfl⟩
  cases h with
  | aside hhost hmove => exact hworker hhost hmove
  | elsewhere hhost hid =>
    rw [hhost]
    exact ⟨hid, Iff.rfl⟩
  | accept _ hhost ht => exact hworker hhost (.accept ht)
  | start _ hhost hmove => exact hworker hhost hmove
  | finish a _ hhost hmove => exact hworker hhost hmove
  | fail _ hhost hmove => exact hworker hhost hmove
  | drop _ hhost hmove => exact hworker hhost hmove
  | _ => exact ⟨rfl, Iff.rfl⟩

theorem Fate.eq_nil_of_queued {K : List (Event τ α)} {n : Nat} (h : Fate K (.queued n)) :
    K = [] := by
  cases h
  rfl

/-- What is none of the task does not change how the call came there. -/
theorem Tale.after {id : SequenceId} {isManual : Prop} {l : Leg α} {K : List (Event τ α)}
    (h : Tale id current isManual K l) (k : Shift.Event τ) :
    Tale id current isManual K (l.after k) := by
  rcases l.after_eq k with heq | ⟨n, rfl, heq⟩
  · exact heq.symm ▸ h
  · rw [heq]
    cases h with
    | waiting hother hworker h =>
      obtain rfl := h.eq_nil_of_queued
      exact .waiting hother hworker (.queued n)

/-- Something becomes of the task that was taken. -/
theorem Tale.follow {id : SequenceId} {isManual : Prop} {l l' : Lot α} {K : List (Event τ α)}
    (h : Tale id current isManual K (.waiting l)) (hfate : ∀ F, Fate F l → Fate (k :: F) l') :
    Tale id current isManual (k :: K) (.waiting l') := by
  cases h with
  | waiting hother hworker h => exact .waiting hother hworker (hfate _ h)

/-- By cases on what happens: each leg has one tale, but for the two ways to lose the sender. -/
theorem Moves.tale (h : e.Moves current t k e₁) {id : SequenceId} (hid : e.host.id = id)
    (ht : Tale id current e.host.IsManual (H.filter Event.own) e.leg) :
    Tale id current e.host.IsManual ((k :: H).filter Event.own) e₁.leg := by
  subst hid
  generalize hK : H.filter Event.own = K at ht
  have haside (hown : k.own = false) : (k :: H).filter Event.own = K := by
    rw [List.filter_cons_of_neg (by rw [hown]; nofun), hK]
  have hstep {l l' : Leg α} (hown : k.own = true) (hleg : e.leg = l)
      (hnext : Tale e.host.id current e.host.IsManual K l →
        Tale e.host.id current e.host.IsManual (k :: K) l') :
      Tale e.host.id current e.host.IsManual ((k :: H).filter Event.own) l' := by
    rw [List.filter_cons_of_pos hown, hK]
    exact hnext (hleg ▸ ht)
  cases h with
  | aside =>
    rw [haside rfl]
    exact ht.after _
  | elsewhere =>
    rw [haside rfl]
    exact ht
  | panic hleg hown =>
    refine hstep rfl hleg fun ht => ?_
    cases ht
    exact .panicked hown
  | pass hleg hother =>
    refine hstep rfl hleg fun ht => ?_
    cases ht
    exact .asking hother
  | refrain hleg hhost =>
    refine hstep rfl hleg fun ht => ?_
    rw [hhost] at ht ⊢
    cases ht with
    | asking hother => exact .unsupported hother trivial
  | refuse hleg hhost =>
    refine hstep rfl hleg fun ht => ?_
    rw [hhost] at ht ⊢
    cases ht with
    | asking hother => exact .refused hother id
  | accept hleg hhost =>
    refine hstep rfl hleg fun ht => ?_
    rw [hhost] at ht ⊢
    cases ht with
    | asking hother => exact .waiting hother id (.queued _)
  | start hleg =>
    exact hstep rfl hleg fun ht => ht.follow fun F hF => hF.eq_nil_of_queued ▸ .running
  | finish a hleg =>
    refine hstep rfl hleg fun ht => ht.follow fun F hF => ?_
    cases hF
    exact .sent a
  | fail hleg =>
    refine hstep rfl hleg fun ht => ht.follow fun F hF => ?_
    cases hF
    exact .failed
  | drop hleg =>
    exact hstep rfl hleg fun ht => ht.follow fun F hF => hF.eq_nil_of_queued ▸ .dropped _
  | receive hleg =>
    refine hstep rfl hleg fun ht => ?_
    cases ht with
    | waiting hother hworker h => exact .received hother hworker h
  | lose hleg =>
    refine hstep rfl hleg fun ht => ?_
    cases ht with
    | waiting hother hworker h => exact .lost hother hworker h

/-! ## The task in its queue -/

/-- Where the task of a call is at the worker. -/
def Placed (t : τ) (H : List (Event τ α)) (b : Shift τ) : Leg α → Prop
  | .waiting (.queued n) => b.worker.phase = .running ∧ ∃ ahead behind,
      b.worker.queue.toList = ahead ++ t :: behind ∧ ahead.length = n ∧
        earlier t H = Shift.started (atWorker t H) ++ ahead
  | .waiting .running =>
      b.job = .busy t ∧ Shift.started (atWorker t H) = earlier t H ++ [t]
  | _ => True

/-- What is the case after a run. -/
structure Tracks (e₀ : Errand τ α) (current : Option SequenceId) (t : τ)
    (H : List (Event τ α)) (e : Errand τ α) : Prop where
  /-- The runner has the same sequence. -/
  id : e.host.id = e₀.host.id
  /-- The runner is of the same kind. -/
  kind : e.host.IsManual ↔ e₀.host.IsManual
  /-- What happened to the call and its task led to the leg. -/
  tale : Tale e₀.host.id current e.host.IsManual (H.filter Event.own) e.leg
  /-- What happened at the worker is a run of it, and the task has its place there. -/
  worker : ∀ b, e.host = .worker b →
    ∃ name, (Shift.new e₀.host.id name).Takes (atWorker t H) b ∧ Placed t H b e.leg

section

variable {b b' : Shift τ} {j : Shift.Event τ} {n : Nat}

theorem atWorker_aside (t : τ) (j : Shift.Event τ) (H : List (Event τ α)) :
    atWorker t (.aside j :: H) = j :: atWorker t H := rfl

/-- What is none of a task that waits leaves it where it is, or brings it forward. -/
theorem Placed.aside_queued (h : Placed t H b (.waiting (.queued n) : Leg α))
    (hmove : b.Moves j b') (hclear : (.waiting (.queued n) : Leg α).Clear j) :
    Placed t (.aside j :: H) b' ((.waiting (.queued n) : Leg α).after j) := by
  obtain ⟨hrunning, ahead, behind, hqueue, hlength, hearlier⟩ := h
  obtain ⟨hdied, hcases⟩ := hclear.queued
  have hstopped : ∀ clean, j ≠ .stopped clean := by
    rintro clean rfl
    cases hmove with
    | stop _ _ _ hempty => simp [hqueue] at hempty
  obtain ⟨hphase, hqueue'⟩ := hmove.queue hdied hstopped
  have hrunning' := hphase.trans hrunning
  rw [hqueue] at hqueue'
  rcases hcases with ⟨hnone, hafter⟩ | ⟨m, x, rfl, rfl⟩
  · rw [hafter]
    rw [hnone] at hqueue'
    refine ⟨hrunning', ahead, _, hqueue'.symm.trans (List.append_assoc ..), hlength, ?_⟩
    rw [atWorker_aside, Shift.started_cons, hnone]
    exact hearlier.trans (congrArg (· ++ ahead) (List.append_nil _).symm)
  · obtain ⟨y, ahead, rfl⟩ := List.exists_cons_of_length_eq_add_one hlength
    obtain ⟨rfl, htail⟩ := List.cons.inj hqueue'
    refine ⟨hrunning', ahead, behind, htail.symm.trans (List.append_nil _),
      Nat.succ.inj hlength, ?_⟩
    rw [atWorker_aside, Shift.started_cons, List.append_assoc]
    exact hearlier

/-- What is none of a task that runs leaves it running. -/
theorem Placed.aside_running (h : Placed t H b (.waiting .running : Leg α))
    (hmove : b.Moves j b') (hclear : (.waiting .running : Leg α).Clear j) :
    Placed t (.aside j :: H) b' (.waiting .running : Leg α) := by
  obtain ⟨hbusy, hearlier⟩ := h
  have hfinished : ∀ x, j ≠ .finished x := by
    rintro x rfl
    exact hclear
  have hfailed : ∀ x, j ≠ .failed x := by
    rintro x rfl
    exact hclear
  have hlight := hmove.light_of_busy hbusy hfinished hfailed
  refine ⟨(hmove.job_of_light hlight).trans hbusy, ?_⟩
  rw [atWorker_aside, Shift.started_cons, hlight.started?_eq_none]
  exact (List.append_nil _).trans hearlier

/-- What is none of the task leaves the task at a place. -/
theorem Placed.aside {l : Leg α} (h : Placed t H b l) (hmove : b.Moves j b')
    (hclear : l.Clear j) : Placed t (.aside j :: H) b' (l.after j) := by
  by_cases hqueued : ∃ n, l = .waiting (.queued n)
  · obtain ⟨n, rfl⟩ := hqueued
    exact h.aside_queued hmove hclear
  · have hsame : l.after j = l := (l.after_eq j).resolve_right fun ⟨n, hl, _⟩ => hqueued ⟨_, hl⟩
    rw [hsame]
    cases l with
    | waiting x =>
      cases x with
      | queued n => exact absurd ⟨n, rfl⟩ hqueued
      | running => exact h.aside_running hmove hclear
      | sent a => trivial
      | gone => trivial
    | _ => trivial

/-- The task is taken, and waits behind all others. -/
theorem placed_accept {id : SequenceId} {name : String} {w : Worker τ}
    (h : (Shift.new id name).Takes (atWorker t H) b) (ht : b.worker.post? t = some w) :
    Placed t (.accepted :: H) { b with worker := w }
      (.waiting (.queued b.worker.queue.toList.length) : Leg α) := by
  obtain ⟨-, hrunning, rfl⟩ := Worker.post?_eq_some_iff.1 ht
  refine ⟨hrunning, b.worker.queue.toList, [], Fifo.toList_push .., rfl, ?_⟩
  rw [atWorker_cons]
  show Shift.accepted (atWorker t H) = Shift.started ([.accepted t] ++ atWorker t H) ++ _
  rw [List.singleton_append, Shift.started_cons, h.flow.running hrunning]
  exact congrArg (· ++ _) (List.append_nil _).symm

/-- The task is started. -/
theorem Placed.start (h : Placed t H b (.waiting (.queued 0) : Leg α))
    (hmove : b.Moves (.started t) b') :
    Placed t (.started :: H) b' (.waiting .running : Leg α) := by
  obtain ⟨-, ahead, behind, -, hlength, hearlier⟩ := h
  obtain rfl := List.length_eq_zero_iff.1 hlength
  have hbusy : b'.job = .busy t := by
    cases hmove
    rfl
  refine ⟨hbusy, ?_⟩
  show Shift.started (.started t :: atWorker t H) = earlier t H ++ [t]
  rw [Shift.started_cons, hearlier, List.append_nil]
  rfl

end

/-- By cases on what happens. -/
theorem Moves.tracks (h : e.Moves current t k e₁) (ht : e₀.Tracks current t H e) :
    e₀.Tracks current t (k :: H) e₁ := by
  obtain ⟨hid, hkind⟩ := h.host
  refine ⟨hid.trans ht.id, hkind.trans ht.kind, ?_, ?_⟩
  · have htale := ht.tale
    rw [← ht.id] at htale
    rw [← ht.id, show e₁.host.IsManual = e.host.IsManual from propext hkind]
    exact h.tale rfl htale
  · have hstep {b b' : Shift τ} {j : Shift.Event τ} {l : Leg α} (hhost : e.host = .worker b)
        (hk : k.atWorker? t = some j) (hmove : b.Moves j b')
        (hplaced : ∀ name, (Shift.new e₀.host.id name).Takes (atWorker t H) b →
          Placed t H b e.leg → Placed t (k :: H) b' l) :
        ∃ name, (Shift.new e₀.host.id name).Takes (atWorker t (k :: H)) b' ∧
          Placed t (k :: H) b' l := by
      obtain ⟨name, htakes, hold⟩ := ht.worker b hhost
      refine ⟨name, ?_, hplaced name htakes hold⟩
      rw [atWorker_cons, hk]
      exact .step htakes hmove
    have hsame {l : Leg α} (hk : k.atWorker? t = none) (hl : l = .asking ∨ ∃ x, l = .ended x) :
        ∀ b, e.host = .worker b →
          ∃ name, (Shift.new e₀.host.id name).Takes (atWorker t (k :: H)) b ∧
            Placed t (k :: H) b l := by
      intro b hb
      obtain ⟨name, htakes, -⟩ := ht.worker b hb
      refine ⟨name, ?_, ?_⟩
      · rw [atWorker_cons, hk]
        exact htakes
      · rcases hl with rfl | ⟨x, rfl⟩ <;> trivial
    cases h with
    | aside hhost hmove hclear =>
      rintro _ ⟨⟩
      exact hstep hhost rfl hmove fun _ _ hold => hold.aside hmove hclear
    | elsewhere => exact nofun
    | panic => exact hsame rfl (.inr ⟨_, rfl⟩)
    | pass => exact hsame rfl (.inl rfl)
    | refrain => exact hsame rfl (.inr ⟨_, rfl⟩)
    | refuse _ hhost hpost =>
      intro b hb
      cases hhost.symm.trans hb
      exact hstep hhost rfl (.refuse hpost) fun _ _ _ => trivial
    | accept hleg hhost hpost =>
      rintro _ ⟨⟩
      exact hstep hhost rfl (.accept hpost) fun _ htakes _ => placed_accept htakes hpost
    | start hleg hhost hmove =>
      rintro _ ⟨⟩
      exact hstep hhost rfl hmove fun _ _ hold => Placed.start (hleg ▸ hold) hmove
    | finish a _ hhost hmove =>
      rintro _ ⟨⟩
      exact hstep hhost rfl hmove fun _ _ _ => trivial
    | fail _ hhost hmove =>
      rintro _ ⟨⟩
      exact hstep hhost rfl hmove fun _ _ _ => trivial
    | drop _ hhost hmove =>
      rintro _ ⟨⟩
      exact hstep hhost rfl hmove fun _ _ _ => trivial
    | receive => exact hsame rfl (.inr ⟨_, rfl⟩)
    | lose => exact hsame rfl (.inr ⟨_, rfl⟩)

/-- Whatever happens, what is known of a call follows it. -/
theorem Takes.tracks (h : e₀.Takes current t H e) (hfresh : e₀.host.Fresh)
    (hleg : e₀.leg = .unmade) : e₀.Tracks current t H e := by
  induction h with
  | refl =>
    refine ⟨rfl, Iff.rfl, hleg ▸ .unmade, fun b hb => ?_⟩
    obtain ⟨host, leg⟩ := e₀
    obtain rfl : leg = .unmade := hleg
    cases hfresh with
    | manual m => cases hb
    | worker id name =>
      cases hb
      exact ⟨name, .refl, trivial⟩
  | step _ last ih => exact last.tracks ih

/-! ## The laws of a call -/

/-- Why a call ended as it did. -/
structure Verdict (id : SequenceId) (current : Option SequenceId) (isManual : Prop)
    (H : List (Event τ α)) (x : Except SequenceFault (Except SequenceError α)) : Prop where
  /-- It failed because the sequence of the runner was current where it was made. -/
  itself : x = .error (.waitsForItself id) ↔ current = some id
  /-- Otherwise, it was refused because the runner is manual. -/
  unsupported : current ≠ some id →
    (x = .ok (.error (.blockingWaitUnsupported id)) ↔ isManual)
  /-- Otherwise, it was refused because the task was. -/
  shutDown : current ≠ some id → ¬ isManual →
    (x = .ok (.error (.runnerShutDown id)) ↔ .refused ∈ H)
  /-- It returned what the task gave, which ran to its end. -/
  done : ∀ a, x = .ok (.ok a) ↔ .finished a ∈ H
  /-- It was told that the task is lost, which failed or was dropped. -/
  abandoned : x = .ok (.error (.taskAbandoned id)) ↔ .failed ∈ H ∨ ∃ ts, .dropped ts ∈ H
  /-- There is no other end. -/
  exhaustive : x = .error (.waitsForItself id) ∨
    x = .ok (.error (.blockingWaitUnsupported id)) ∨ x = .ok (.error (.runnerShutDown id)) ∨
    x = .ok (.error (.taskAbandoned id)) ∨ ∃ a, x = .ok (.ok a)

/-- How often a task is started, and when it is not. -/
structure Started (id : SequenceId) (current : Option SequenceId) (isManual : Prop)
    (H : List (Event τ α)) : Prop where
  /-- The task is started once at most. -/
  once : H.countP Event.starts ≤ 1
  /-- A call that would wait for itself, or for a manual runner, posts nothing. -/
  unposted : current = some id ∨ isManual → .refused ∉ H ∧ .accepted ∉ H
  /-- A task is never started that was not taken, or was refused, or was dropped. -/
  unrun : .accepted ∉ H ∨ .refused ∈ H ∨ (∃ ts, .dropped ts ∈ H) → .started ∉ H
  /-- A task ends, one way or the other, only after it was started. -/
  ended : ∀ a, .finished a ∈ H ∨ .failed ∈ H → .started ∈ H

section

variable {id : SequenceId} {isManual : Prop} {l : Leg α}
  {x : Except SequenceFault (Except SequenceError α)}

/-- How a call came to its end tells why it ended so. -/
theorem Tale.verdict (h : Tale id current isManual K (.ended x)) :
    Verdict id current isManual K x := by
  cases h with
  | panicked hown => constructor <;> simp [hown]
  | unsupported hother hmanual => constructor <;> simp [hother, hmanual]
  | refused hother hworker => constructor <;> simp [hother, hworker]
  | received hother hworker h =>
    cases h
    constructor <;> simp [hother, hworker, eq_comm]
  | lost hother hworker h =>
    cases h with
    | failed => constructor <;> simp [hother, hworker]
    | dropped ts => constructor <;> simp [hother, hworker]

/-- How a call came to its leg tells whether its task was started. -/
theorem Tale.started (h : Tale id current isManual K l) : Started id current isManual K := by
  cases h with
  | waiting hother hworker h =>
    cases h <;> constructor <;> simp [hother, hworker, Event.starts, List.countP_cons]
  | received hother hworker h =>
    cases h
    constructor <;> simp [hother, hworker, Event.starts, List.countP_cons]
  | lost hother hworker h =>
    cases h <;> constructor <;> simp [hother, hworker, Event.starts, List.countP_cons]
  | refused hother hworker => constructor <;> simp [hother, hworker, Event.starts]
  | _ => constructor <;> simp [Event.starts]

/-- The events of the call and of its task are among those of the run. -/
theorem mem_own_iff (hk : k.own = true) : k ∈ H.filter Event.own ↔ k ∈ H := by
  rw [List.mem_filter]
  exact and_iff_left hk

end

namespace Tracks

variable {n : Nat}

/-- While the task waits, the call has only posted it. -/
theorem own_of_queued (h : e₀.Tracks current t H e) (hleg : e.leg = .waiting (.queued n)) :
    H.filter Event.own = [.accepted, .passed] := by
  have htale := h.tale
  generalize H.filter Event.own = K at htale
  rw [hleg] at htale
  cases htale with
  | waiting _ _ hfate =>
    obtain rfl := hfate.eq_nil_of_queued
    rfl

/-- All tasks that were taken before have run to their ends when the task is started. -/
theorem in_order (h : e₀.Tracks current t H e) (hmove : e.Moves current t .started e₁) :
    Shift.finished (atWorker t H) = earlier t H := by
  cases hmove with
  | start hleg hhost hmove =>
    obtain ⟨name, htakes, hplaced⟩ := h.worker _ hhost
    rw [hleg] at hplaced
    obtain ⟨hrunning, ahead, behind, -, hlength, hearlier⟩ := hplaced
    obtain rfl := List.length_eq_zero_iff.1 hlength
    cases hmove with
    | start hidle =>
      have hjob := htakes.flow.job
      rw [hidle] at hjob
      rw [hearlier, List.append_nil, hjob (htakes.flow.not_failed hidle hrunning)]

/-- A task is dropped together with the queue in which it waits, after the failure of a task that
was taken before. -/
theorem dropped (h : e₀.Tracks current t H e) {ts : List τ}
    (hmove : e.Moves current t (.dropped ts) e₁) :
    t ∈ ts ∧ ∃ x ∈ earlier t H, .aside (.failed x) ∈ H := by
  cases hmove with
  | drop hleg hhost hmove =>
    obtain ⟨name, htakes, hplaced⟩ := h.worker _ hhost
    rw [hleg] at hplaced
    obtain ⟨-, ahead, behind, hqueue, -, hearlier⟩ := hplaced
    cases hmove with
    | die hfailing =>
      have hjob := htakes.flow.job
      rw [hfailing] at hjob
      obtain ⟨x, hx⟩ := hjob
      refine ⟨by simp [hqueue], x, ?_, ?_⟩
      · rw [hearlier]
        exact List.mem_append_left _ (htakes.started_of_failed hx)
      · obtain ⟨k, hk, heq⟩ := List.mem_filterMap.1 hx
        -- The task of the call waits, so it is not the one that failed.
        cases k with
        | aside j => exact Option.some.inj heq ▸ hk
        | failed =>
          have hown := (mem_own_iff rfl).2 hk
          rw [h.own_of_queued hleg] at hown
          simp at hown
        | _ => cases heq

end Tracks

end Errand

end EntityStore
