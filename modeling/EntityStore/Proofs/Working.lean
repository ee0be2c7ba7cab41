import EntityStore.Proofs.Programs
import EntityStore.Proofs.Shifts

/-!
# Programs of workers

The machine runs the tasks of a worker when somebody waits for it.  A command is *modest* at a place
if the machine can carry it out there without a task that waits for another one: only the main
thread waits for workers, and a task may close its own.

What the machine does with modest commands are moves of the shift of each worker, and the answers
tell what happened at it (`Machine.attends_execute`).

Of the calls that shut a worker down the one that takes the handle of the thread waits for it.  That
need not be the first one that is made or that returns.
-/

namespace EntityStore

open EntityStore.Action

variable {S : Schema} {ρ : Type}

/-! ## Modest commands -/

/-- Whether a command is carried out without tasks, at any place. -/
def Command.Plain : Command S ρ → Prop
  | .nextId | .compareIds .. | .current | .threadName | .enterScope _ | .leaveScope _ | .mintToken
  | .inspectToken _ | .newManual | .spawnWorker _ | .inspectRunner _ | .explain _ | .raise _ => True
  | _ => False

/-- Whether a command waits for workers on the main thread only. -/
inductive Command.Modest : Place → Command S ρ → Prop where
  /-- It is carried out without tasks. -/
  | plain {p : Place} {k : Command S ρ} (hk : k.Plain) : Modest p k
  /-- Post a task of such commands. -/
  | post {p : Place} {i : Nat} {body : List (Command S ρ)}
      (hbody : ∀ k ∈ body, Modest (.worker i) k) : Modest p (.post i body)
  /-- Post such a task from the main thread, and wait for it. -/
  | runAndWait {i : Nat} {body : List (Command S ρ)}
      (hbody : ∀ k ∈ body, Modest (.worker i) k) : Modest .main (.runAndWait i body)
  /-- Shut a worker down from the main thread. -/
  | shutDown {i : Nat} : Modest .main (.shutDown i)
  /-- Shut down the worker that runs the task. -/
  | shutDownOwn {i : Nat} : Modest (.worker i) (.shutDown i)
  /-- Give up the handle of a runner on the main thread. -/
  | dropRunner {i : Nat} : Modest .main (.dropRunner i)

/-- Whether the commands of a task are modest on the thread of a worker, and nothing was moved into
it. -/
structure Task.Modest (i : Nat) (t : Task S ρ) : Prop where
  /-- The commands are modest. -/
  body : ∀ k ∈ t.body, k.Modest (.worker i)
  /-- Nothing was moved into the task. -/
  parcel : t.parcel = none

/-! ## Runners of a world -/

namespace World

variable {w : World S ρ} {i j : Nat} {x y : Engine S ρ} {p : Place} {t t' : Thread}

/-- A change of one place shows at that place only. -/
theorem engine?_modify (f : Cell S ρ → Cell S ρ) :
    ({ w with cells := w.cells.modify i f } : World S ρ).engine? j =
      if i = j then w.cells[j]?.map fun c => (f c).engine else w.engine? j := by
  show (w.cells.modify i f)[j]?.map Cell.engine = _
  rw [Array.getElem?_modify]
  split
  · rw [Option.map_map]
    rfl
  · rfl

theorem engine?_setEngine (hx : w.engine? i = some x) :
    (w.setEngine i y).engine? j = if i = j then some y else w.engine? j := by
  obtain ⟨c, hc, -⟩ := Option.map_eq_some_iff.1 hx
  rw [setEngine, engine?_modify]
  split
  · next hij =>
    subst hij
    rw [hc]
    rfl
  · rfl

/-- What is noted beside a runner does not change the runner. -/
theorem engine?_modify_of_engine_eq {f : Cell S ρ → Cell S ρ} (hf : ∀ c, (f c).engine = c.engine) :
    ({ w with cells := w.cells.modify i f } : World S ρ).engine? j = w.engine? j := by
  rw [engine?_modify]
  split
  · rw [funext hf]
    rfl
  · rfl

/-- A change of a thread changes the runner of the thread at most. -/
theorem engine?_setThread (p : Place) (t : Thread) (j : Nat) :
    (w.setThread p t).engine? j = w.engine? j ∨ ∃ y t', w.engine? j = some (.worker y t') ∧
      (w.setThread p t).engine? j = some (.worker y t) := by
  cases p with
  | main => exact .inl rfl
  | worker i =>
    by_cases hij : i = j
    · subst hij
      rw [setThread, engine?_modify, if_pos rfl, engine?]
      cases w.cells[i]? with
      | none => exact .inl rfl
      | some c =>
        obtain ⟨held, waiters, x⟩ := c
        cases x with
        | manual m => exact .inl rfl
        | worker y t' => exact .inr ⟨y, t', rfl, rfl⟩
    · rw [setThread, engine?_modify, if_neg hij]
      exact .inl rfl

theorem engine?_push (hx : w.engine? j = some x) (c : Cell S ρ) :
    ({ w with cells := w.cells.push c } : World S ρ).engine? j = some x := by
  obtain ⟨d, hd, rfl⟩ := Option.map_eq_some_iff.1 hx
  show (w.cells.push c)[j]?.map Cell.engine = _
  have hne : j ≠ w.cells.size := Nat.ne_of_lt (Array.getElem?_eq_some_iff.1 hd).1
  rw [Array.getElem?_push, if_neg hne, hd]
  rfl

/-- A runner that is found after a new one was added was there before, or is the new one. -/
theorem engine?_of_push {c : Cell S ρ}
    (hx : ({ w with cells := w.cells.push c } : World S ρ).engine? j = some x) :
    w.engine? j = some x ∨ x = c.engine := by
  obtain ⟨d, hd, rfl⟩ := Option.map_eq_some_iff.1 hx
  change (w.cells.push c)[j]? = some d at hd
  rw [Array.getElem?_push] at hd
  split at hd
  · cases hd
    exact .inr rfl
  · exact .inl (by rw [engine?, hd]; rfl)

/-- The thread of a worker is kept with it. -/
theorem thread_of_engine? {y : Worker (Task S ρ)} (hy : w.engine? i = some (.worker y t)) :
    w.thread (.worker i) = t := by
  obtain ⟨c, hc, heq⟩ := Option.map_eq_some_iff.1 hy
  obtain ⟨held, waiters, x⟩ := c
  cases heq
  rw [thread, hc]

/-- A worker that changes keeps its thread. -/
theorem thread_setEngine {y z : Worker (Task S ρ)} (hy : w.engine? i = some (.worker y t)) :
    (w.setEngine i (.worker z t)).thread p = w.thread p := by
  cases p with
  | main => rfl
  | worker j =>
    by_cases hij : i = j
    · subst hij
      have hz : (w.setEngine i (.worker z t)).engine? i = some (.worker z t) := by
        rw [engine?_setEngine hy, if_pos rfl]
      rw [thread_of_engine? hz, thread_of_engine? hy]
    · have hcell : (w.setEngine i (.worker z t)).cells[j]? = w.cells[j]? := by
        show (w.cells.modify i _)[j]? = _
        rw [Array.getElem?_modify, if_neg hij]
      rw [thread, thread, hcell]

end World

/-- A worker that runs and has no next task has an empty queue. -/
theorem Worker.toList_of_next?_eq_none {τ : Type} {y : Worker τ} (hrunning : y.phase = .running)
    (h : y.next? = none) : y.queue.toList = [] := by
  rw [next?, if_neg (not_not.2 hrunning), Option.map_eq_none_iff] at h
  exact Fifo.pop?_eq_none_iff.1 h

/-- The runner of a number is the worker of a shift, and modest tasks wait. -/
structure World.Holds (w : World S ρ) (r : Nat) (b : Shift (Task S ρ)) : Prop where
  /-- The runner is the worker of the shift. -/
  worker : ∃ t, w.engine? r = some (.worker b.worker t)
  /-- The tasks that wait are modest. -/
  modest : ∀ i x, w.engine? i = some x → ∀ t ∈ x.waiting, t.Modest i

namespace World.Holds

variable {w w' : World S ρ} {b b' : Shift (Task S ρ)} {r i : Nat} {x y : Engine S ρ}
  {p : Place} {t : Thread}

/-- The rest of the world and of the shift does not matter. -/
theorem congr (h : w.Holds r b) (hw : ∀ i, w'.engine? i = w.engine? i)
    (hb : b'.worker = b.worker) : w'.Holds r b' where
  worker := by
    rw [hw, hb]
    exact h.worker
  modest i x hx := h.modest i x (by rw [← hw, hx])

theorem setThread (h : w.Holds r b) : (w.setThread p t).Holds r b where
  worker := by
    obtain ⟨t', ht'⟩ := h.worker
    rcases engine?_setThread p t r with heq | ⟨y, t'', hy, heq⟩
    · exact ⟨t', heq.trans ht'⟩
    · cases ht'.symm.trans hy
      exact ⟨t, heq⟩
  modest i x hx := by
    rcases engine?_setThread p t i with heq | ⟨y, t'', hy, heq⟩
    · exact h.modest i x (heq.symm.trans hx)
    · cases heq.symm.trans hx
      exact h.modest i (.worker y t'') hy

/-- If a runner is changed and its tasks are modest then, so are all tasks that wait anywhere. -/
theorem modest_setEngine (h : w.Holds r b) (hx : w.engine? i = some x)
    (hmodest : ∀ t ∈ y.waiting, t.Modest i) :
    ∀ j z, (w.setEngine i y).engine? j = some z → ∀ t ∈ z.waiting, t.Modest j := by
  intro j z hz
  rw [engine?_setEngine hx] at hz
  split at hz
  · next hij =>
    subst hij
    cases hz
    exact hmodest
  · exact h.modest j z hz

/-- What becomes of the worker becomes of the shift. -/
theorem setOwn {z : Worker (Task S ρ)} (h : w.Holds r b) (hz : b'.worker = z)
    (hmodest : ∀ x ∈ z.queue.toList, x.Modest r) :
    (w.setEngine r (.worker z t)).Holds r b' := by
  obtain ⟨t', hy⟩ := h.worker
  exact ⟨⟨t, by rw [engine?_setEngine hy, if_pos rfl, hz]⟩, h.modest_setEngine hy hmodest⟩

/-- Another runner may change. -/
theorem setOther (h : w.Holds r b) (hx : w.engine? i = some x) (hi : i ≠ r)
    (hmodest : ∀ t ∈ y.waiting, t.Modest i) : (w.setEngine i y).Holds r b := by
  refine ⟨?_, h.modest_setEngine hx hmodest⟩
  rw [engine?_setEngine hx, if_neg hi]
  exact h.worker

theorem push (h : w.Holds r b) (c : Cell S ρ) (hc : c.engine.waiting = []) :
    ({ w with cells := w.cells.push c } : World S ρ).Holds r b where
  worker := by
    obtain ⟨t, ht⟩ := h.worker
    exact ⟨t, engine?_push ht c⟩
  modest i x hx := by
    rcases engine?_of_push hx with hold | rfl
    · exact h.modest i x hold
    · rw [hc]
      nofun

/-- A worker that was just made has done nothing. -/
theorem spawn (hmodest : ∀ i x, w.engine? i = some x → ∀ t ∈ x.waiting, t.Modest i)
    (q : SequenceId) (name : String) (t : Thread) :
    ({ w with cells := w.cells.push { engine := .worker { id := q, name } t } } : World S ρ).Holds
      w.cells.size (Shift.new q name) where
  worker := by
    refine ⟨t, ?_⟩
    show (w.cells.push _)[w.cells.size]?.map Cell.engine = _
    rw [Array.getElem?_push_size]
    rfl
  modest i x hx := by
    rcases engine?_of_push hx with hold | rfl
    · exact hmodest i x hold
    · exact fun _ => nofun

theorem modest_queue (h : w.Holds r b) : ∀ x ∈ b.worker.queue.toList, x.Modest r := by
  obtain ⟨t, ht⟩ := h.worker
  exact h.modest r _ ht

end World.Holds

/-! ## What the machine does -/

/-- At a place on the thread of the worker a task runs, and elsewhere none does. -/
structure Shift.Suits {τ : Type} (b : Shift τ) (r : Nat) (p : Place) : Prop where
  /-- A task runs on the thread of the worker. -/
  busy : p = .worker r → ∃ t, b.job = .busy t
  /-- No task runs while another thread is in control. -/
  idle : p ≠ .worker r → b.job = .idle

/-- Whether a place suits depends on what the thread of the worker does. -/
theorem Shift.Suits.congr {τ : Type} {b b' : Shift τ} {r : Nat} {p : Place} (h : b.Suits r p)
    (hjob : b'.job = b.job) : b'.Suits r p := ⟨hjob ▸ h.busy, hjob ▸ h.idle⟩

/-- While the main thread is in control, no task runs on the thread of a worker. -/
theorem Shift.suits_main_iff {τ : Type} {b : Shift τ} {r : Nat} :
    b.Suits r .main ↔ b.job = .idle := by
  have hne : Place.main ≠ .worker r := Place.noConfusion
  exact ⟨fun h => h.idle hne, fun hidle => ⟨fun heq => absurd heq hne, fun _ => hidle⟩⟩

/-- A world gets from a shift to a shift of one of its workers. -/
structure World.Works (r : Nat) (w : World S ρ) (b : Shift (Task S ρ))
    (K : List (Shift.Event (Task S ρ))) (b' : Shift (Task S ρ)) (w' : World S ρ) : Prop where
  /-- The events lead from shift to shift. -/
  takes : b.Takes K b'
  /-- The world follows. -/
  holds : w'.Holds r b'
  /-- Numbers of calls are not used again. -/
  next_le : b.next ≤ b'.next
  /-- The calls that were made before are as far as they were. -/
  calls : ∀ n, n < b.next → b'.calls n = b.calls n
  /-- The world remembers the tasks that were started, among others. -/
  records : ∃ paths, w'.startedPaths = w.startedPaths ++ paths ∧
    ((Shift.started K).map Task.path).Sublist paths

namespace World.Works

variable {w w' w'' : World S ρ} {b b' b'' : Shift (Task S ρ)} {r n : Nat}
  {K K' : List (Shift.Event (Task S ρ))} {e : Shift.Event (Task S ρ)}

theorem refl (h : w.Holds r b) : w.Works r b [] b w :=
  ⟨.refl, h, Nat.le_refl _, fun _ _ => rfl, [], (List.append_nil _).symm, List.nil_sublist _⟩

/-- First one run of the worker, then another one. -/
theorem trans (h : w.Works r b K b' w') (h' : w'.Works r b' K' b'' w'') :
    w.Works r b (K' ++ K) b'' w'' where
  takes := h.takes.trans h'.takes
  holds := h'.holds
  next_le := Nat.le_trans h.next_le h'.next_le
  calls n hn := (h'.calls n (Nat.lt_of_lt_of_le hn h.next_le)).trans (h.calls n hn)
  records := by
    obtain ⟨paths, hpaths, hsub⟩ := h.records
    obtain ⟨paths', hpaths', hsub'⟩ := h'.records
    refine ⟨paths ++ paths', by rw [hpaths', hpaths, List.append_assoc], ?_⟩
    rw [Shift.started_append, List.map_append]
    exact hsub.append hsub'

/-- A step of the world that is none of the worker. -/
theorem aside (h : w.Works r b K b' w') (hholds : w''.Holds r b')
    (hpaths : w''.startedPaths = w'.startedPaths) : w.Works r b K b' w'' where
  takes := h.takes
  holds := hholds
  next_le := h.next_le
  calls := h.calls
  records := by rw [hpaths]; exact h.records

theorem setThread {p : Place} {t : Thread} (h : w.Works r b K b' w') :
    w.Works r b K b' (w'.setThread p t) := by
  refine h.aside h.holds.setThread ?_
  cases p <;> rfl

theorem sameEngines {f : Cell S ρ → Cell S ρ} {i : Nat} (h : w.Works r b K b' w')
    (hf : ∀ c, (f c).engine = c.engine) :
    w.Works r b K b' { w' with cells := w'.cells.modify i f } :=
  h.aside (h.holds.congr (fun _ => engine?_modify_of_engine_eq hf) rfl) rfl

/-- An event that starts no task, and that none of the old calls notices. -/
theorem step (h : w.Works r b K b' w') (hmove : b'.Moves e b'') (he : e.started? = none)
    (hholds : w''.Holds r b'') (hnext : b'.next ≤ b''.next)
    (hcalls : ∀ n, n < b.next → b''.calls n = b'.calls n) (hrecords : w''.records = w'.records) :
    w.Works r b (e :: K) b'' w'' where
  takes := .step h.takes hmove
  holds := hholds
  next_le := Nat.le_trans h.next_le hnext
  calls n hn := (hcalls n hn).trans (h.calls n hn)
  records := by
    have hpaths : w''.startedPaths = w'.startedPaths := by
      rw [startedPaths, hrecords]
      rfl
    rw [hpaths, Shift.started_cons, he, Option.toList_none, List.append_nil]
    exact h.records

/-- A call gets on. -/
theorem setCall {x : Stage} (h : w.Works r b K b' w') (hn : b.next ≤ n)
    (hmove : b'.Moves e (b'.setCall n x)) (he : e.started? = none) :
    w.Works r b (e :: K) (b'.setCall n x) w' :=
  h.step hmove he (h.holds.congr (fun _ => rfl) rfl) (Nat.le_refl _)
    (fun _ hm => Function.update_of_ne (Nat.ne_of_lt (Nat.lt_of_lt_of_le hm hn)) ..) rfl

end World.Works

/-- A runner changes but for its sequence and its thread. -/
inductive Engine.Keeps : Engine S ρ → Engine S ρ → Prop where
  /-- A manual runner. -/
  | manual {m m' : Manual (Task S ρ)} (hid : m'.id = m.id) : Keeps (.manual m) (.manual m')
  /-- A worker. -/
  | worker {y y' : Worker (Task S ρ)} {t : Thread} (hid : y'.id = y.id) :
      Keeps (.worker y t) (.worker y' t)

theorem Engine.Keeps.id_eq {e e' : Engine S ρ} (h : e.Keeps e') : e'.id = e.id := by
  cases h <;> assumption

/-- To post a task changes the queue of a runner only. -/
theorem Engine.keeps_of_post? {e e' : Engine S ρ} {t : Task S ρ} (h : e.post? t = some e') :
    e.Keeps e' := by
  cases e with
  | manual m =>
    obtain ⟨m', hpost, rfl⟩ := Option.map_eq_some_iff.1 h
    unfold Manual.post? at hpost
    split at hpost
    · cases hpost
    · cases hpost
      exact .manual rfl
  | worker y t =>
    obtain ⟨y', hpost, rfl⟩ := Option.map_eq_some_iff.1 h
    obtain ⟨-, -, rfl⟩ := Worker.post?_eq_some_iff.1 hpost
    exact .worker rfl

/-- What plain commands at a place do to the world. -/
inductive World.Drifts (w : World S ρ) (p : Place) : World S ρ → Prop where
  /-- Nothing. -/
  | idle : Drifts w p w
  /-- The number of a sequence is taken. -/
  | newId : Drifts w p { w with nextId := w.nextId + 1 }
  /-- A runner is made. -/
  | runner (e : Engine S ρ) (he : e.waiting = []) :
      Drifts w p { w with nextId := w.nextId + 1, cells := w.cells.push { engine := e } }
  /-- The thread of the place changes. -/
  | thread {w' : World S ρ} (before : Drifts w p w') (t : Thread) : Drifts w p (w'.setThread p t)

/-- A world that drifts leaves the worker alone. -/
theorem World.Drifts.works {w w' : World S ρ} {p : Place} {r : Nat} {b : Shift (Task S ρ)}
    (h : w.Drifts p w') (hw : w.Holds r b) : w.Works r b [] b w' := by
  induction h with
  | idle => exact .refl hw
  | newId => exact (World.Works.refl hw).aside (hw.congr (fun _ => rfl) rfl) rfl
  | runner e he =>
    exact (World.Works.refl hw).aside ((hw.push { engine := e } he).congr (fun _ => rfl) rfl) rfl
  | thread before t ih => exact ih.setThread

/-- What an answer tells about what happened at a worker while a command was carried out.  The path
leads to the command, and a sequence may be current where it was carried out. -/
inductive Command.Tells (r : Nat) (current : Option SequenceId) : List Nat → Command S ρ →
    Except SequenceFault (Answer S ρ) → List (Shift.Event (Task S ρ)) → Prop where
  /-- The task was taken. -/
  | accepted {t : Task S ρ} : Tells r current t.path (.post r t.body) (.ok (.done .nothing))
      [.accepted t]
  /-- The task was refused. -/
  | refused {t : Task S ρ} {q : SequenceId} : Tells r current t.path (.post r t.body)
      (.ok (.refused (.runnerShutDown q))) [.refused t]
  /-- The worker was shut down. -/
  | returned {path : List Nat} {n : Nat} {K : List (Shift.Event (Task S ρ))} :
      Tells r current path (.shutDown r) (.ok (.done .nothing))
        (.returned n (.ok ()) :: (K ++ [.closed n current]))
  /-- The worker was shut down, and turned out to have failed. -/
  | lost {path : List Nat} {n : Nat} {e : SequenceError} {K : List (Shift.Event (Task S ρ))} :
      Tells r current path (.shutDown r) (.ok (.refused e))
        (.returned n (.error e) :: (K ++ [.closed n current]))
  /-- The wait for the end of the worker failed. -/
  | gaveUp {path : List Nat} {n : Nat} {f : SequenceFault} {K : List (Shift.Event (Task S ρ))} :
      Tells r current path (.shutDown r) (.error f) (.gaveUp n :: (K ++ [.closed n current]))
  /-- There is no such runner. -/
  | vacant {path : List Nat} {k : Command S ρ} : Tells r current path k (.ok .vacant) []
  /-- The bound of the machine was passed. -/
  | unbounded {path : List Nat} {k : Command S ρ} :
      Tells r current path k (.error .unbounded) []
  /-- The command neither posts to the worker nor shuts it down. -/
  | other {path : List Nat} {k : Command S ρ} {x : Except SequenceFault (Answer S ρ)}
      {K : List (Shift.Event (Task S ρ))} (hpost : ∀ body, k ≠ .post r body)
      (hshut : k ≠ .shutDown r) : Tells r current path k x K

/-- How a call came back that shut a worker down. -/
def Shift.Event.ofResult {τ : Type} (n : Nat) :
    Except SequenceFault (Except SequenceError Unit) → Shift.Event τ
  | .ok x => .returned n x
  | .error _ => .gaveUp n

theorem Engine.waiting_of_post? {e e' : Engine S ρ} {t : Task S ρ} (h : e.post? t = some e') :
    e'.waiting = e.waiting ++ [t] := by
  cases e with
  | manual m =>
    obtain ⟨m', hpost, rfl⟩ := Option.map_eq_some_iff.1 h
    exact Manual.toList_of_post? hpost
  | worker y th =>
    obtain ⟨y', hpost, rfl⟩ := Option.map_eq_some_iff.1 h
    obtain ⟨-, -, rfl⟩ := Worker.post?_eq_some_iff.1 hpost
    exact Fifo.toList_push ..

namespace Machine

/-- Modest commands are carried out by moves, and the thread of the worker is left to do what it
did. -/
def Attends (r : Nat) (run : Place → List Nat → Command S ρ → Machine S ρ (Answer S ρ)) : Prop :=
  ∀ (k : Command S ρ) (p : Place) (path : List Nat) (w : World S ρ) (b : Shift (Task S ρ)),
    k.Modest p → w.Holds r b → b.Suits r p →
    (run p path k).Ends w fun x w' => ∃ K b', w.Works r b K b' w' ∧ b'.job = b.job ∧
      k.Tells r (w.current p) path x K

section

variable {run : Place → List Nat → Command S ρ → Machine S ρ (Answer S ρ)}
  {r i record bound : Nat} {p : Place} {path : List Nat} {w w' : World S ρ}
  {b b' : Shift (Task S ρ)} {K : List (Shift.Event (Task S ρ))} {t : Task S ρ}

/-! ### Tasks -/

/-- The commands of a task are carried out one after another, so what they do comes together. -/
theorem Attends.runFrom (hrun : Attends r run) {body : List (Command S ρ)} {n : Nat}
    (hmodest : ∀ k ∈ body, k.Modest p) (hw : w.Holds r b) (hsuits : b.Suits r p) :
    (runFrom run p record path n body).Ends w fun _ w' => ∃ K b',
      w.Works r b K b' w' ∧ b'.job = b.job := by
  induction body generalizing n w b with
  | nil => exact ⟨[], b, .refl hw, rfl⟩
  | cons c rest ih =>
    have hmodest' := List.forall_mem_cons.1 hmodest
    by_cases hraise : ∃ message, c = .raise message
    · obtain ⟨message, rfl⟩ := hraise
      exact ⟨[], b, .refl hw, rfl⟩
    · rw [runFrom_cons fun message heq => hraise ⟨message, heq⟩]
      have hfirst := ends_step (hrun c p (path ++ [n]) w b hmodest'.1 hw hsuits)
      refine ends_bind (hfirst.imp ?_)
      intro x w₁ h
      obtain ⟨x', rfl, K, b₁, hworks, hjob, -⟩ := h
      have hworks₁ : w.Works r b K b₁ (w₁.addAnswer record (.ofResult x')) :=
        hworks.aside (hworks.holds.congr (fun _ => rfl) rfl) (World.startedPaths_addAnswer ..)
      refine ends_modify_bind ?_
      refine (ih hmodest'.2 hworks₁.holds (hsuits.congr hjob)).imp ?_
      intro _ w₂ h
      obtain ⟨K', b₂, hworks₂, hjob'⟩ := h
      exact ⟨K' ++ K, b₂, hworks₁.trans hworks₂, hjob'.trans hjob⟩

/-- The start of a task is remembered before its commands are carried out. -/
theorem Attends.runTask (hrun : Attends r run) (ht : t.Modest i) (hw : w.Holds r b)
    (hsuits : b.Suits r (.worker i)) :
    (runTask run (.worker i) t).Ends w fun _ w' => ∃ x K b', x.path = t.path ∧
      ({ w with records := w.records.push x } : World S ρ).Works r b K b' w' ∧
        b'.job = b.job := by
  obtain ⟨hbody, hparcel⟩ := ht
  have hbegin : (w.begin (.worker i) t).Holds r b := by
    rw [World.begin_of_parcel w (.worker i) hparcel]
    exact hw.congr (fun _ => rfl) rfl
  refine ends_runTask ((hrun.runFrom hbody hbegin hsuits).imp ?_)
  rintro - w₁ ⟨K, b₁, hworks, hjob⟩
  rw [World.begin_of_parcel w (.worker i) hparcel] at hworks
  exact ⟨_, K, b₁, rfl, hworks, hjob⟩

/-- The first task that waits at a runner is taken out of its queue. -/
theorem ends_takeTask_cases :
    (takeTask i : Machine S ρ _).Ends w fun x w' =>
      (x = .ok none ∧ w' = w ∧ ∀ y t, w.engine? i = some (.worker y t) → y.next? = none) ∨
      ∃ e e' task, x = .ok (some task) ∧ w' = w.setEngine i e' ∧ w.engine? i = some e ∧
        e.waiting = task :: e'.waiting ∧ e.Keeps e' ∧ ∀ y t, e = .worker y t →
          ∃ y', y.next? = some (task, y') ∧ e' = .worker y' t := by
  unfold Ends takeTask
  rw [run_modifyGet]
  cases hengine : w.engine? i with
  | none => exact .inl ⟨rfl, rfl, nofun⟩
  | some e =>
    cases e with
    | manual m =>
      cases hnext : m.next? with
      | none => exact .inl ⟨by simp [hnext], by simp [hnext], nofun⟩
      | some x =>
        refine .inr ⟨_, .manual x.2, x.1, by simp [hnext], by simp [hnext], rfl,
          (Manual.toList_of_next? hnext).1, .manual ?_, nofun⟩
        obtain ⟨y, -, rfl⟩ := Option.map_eq_some_iff.1 hnext
        rfl
    | worker y t =>
      cases hnext : y.next? with
      | none =>
        refine .inl ⟨by simp [hnext], by simp [hnext], ?_⟩
        rintro _ _ ⟨⟩
        exact hnext
      | some x =>
        obtain ⟨-, queue, hqueue, hy⟩ := Worker.exists_of_next? hnext
        refine .inr ⟨_, .worker x.2 t, x.1, by simp [hnext], by simp [hnext], rfl, ?_, ?_, ?_⟩
        · rw [hy]
          exact hqueue
        · exact .worker (by rw [hy])
        · rintro _ _ ⟨⟩
          exact ⟨x.2, hnext, rfl⟩

/-- A round of the loop starts a task, which runs and returns or fails. -/
theorem Attends.round (hrun : Attends r run) {e e' : Engine S ρ} (hw : w.Holds r b)
    (hidle : b.job = .idle) (he : w.engine? i = some e) (hwaiting : e.waiting = t :: e'.waiting)
    (hnext : ∀ y th, e = .worker y th → ∃ y', y.next? = some (t, y') ∧ e' = .worker y' th) :
    (Machine.runTask run (.worker i) t).Ends (w.setEngine i e') fun x w' => ∃ K b',
      w.Works r b K b' w' ∧
        match x with
        | .ok _ => b'.job = .idle
        | .error _ => b'.job = if i = r then .failing else .idle := by
  have htasks : t.Modest i ∧ ∀ x ∈ e'.waiting, x.Modest i :=
    List.forall_mem_cons.1 (hwaiting ▸ hw.modest i e he)
  by_cases hi : i = r
  · subst hi
    obtain ⟨th, hth⟩ := hw.worker
    cases he.symm.trans hth
    obtain ⟨y', hy', rfl⟩ := hnext _ _ rfl
    have hstart : b.Moves (.started t) { b with worker := y', job := .busy t } := .start hidle hy'
    have hw₁ : (w.setEngine i (.worker y' th)).Holds i { b with worker := y', job := .busy t } :=
      hw.setOwn rfl htasks.2
    refine (hrun.runTask htasks.1 hw₁ ⟨fun _ => ⟨t, rfl⟩, fun hne => absurd rfl hne⟩).imp ?_
    rintro x w₂ ⟨x', K, b₂, hpath, hworks, hjob⟩
    have hstarted : w.Works i b [.started t] { b with worker := y', job := .busy t }
        { w.setEngine i (.worker y' th) with records := w.records.push x' } := by
      refine ⟨hstart.takes, hw₁.congr (fun _ => rfl) rfl, Nat.le_refl _, fun _ _ => rfl,
        [x'.path], World.startedPaths_push .., ?_⟩
      rw [hpath]
      exact .refl _
    have hworks₂ := hstarted.trans hworks
    have hholds : ∀ job, w₂.Holds i { b₂ with job } :=
      fun _ => hworks₂.holds.congr (fun _ => rfl) rfl
    cases x with
    | ok answers =>
      exact ⟨_, _, hworks₂.step (.finish hjob) rfl (hholds _) (Nat.le_refl _) (fun _ _ => rfl) rfl,
        rfl⟩
    | error f =>
      exact ⟨_, _, hworks₂.step (.fail hjob) rfl (hholds _) (Nat.le_refl _) (fun _ _ => rfl) rfl,
        (if_pos rfl).symm⟩
  · have hw₁ := hw.setOther he hi htasks.2
    refine (hrun.runTask htasks.1 hw₁ ⟨fun heq => absurd (Place.worker.inj heq) hi,
      fun _ => hidle⟩).imp ?_
    rintro x w₂ ⟨x', K, b₂, -, hworks, hjob⟩
    have hstarted : w.Works r b [] b
        { w.setEngine i e' with records := w.records.push x' } :=
      ⟨.refl, hw₁.congr (fun _ => rfl) rfl, Nat.le_refl _, fun _ _ => rfl, [x'.path],
        World.startedPaths_push .., List.nil_sublist _⟩
    refine ⟨_, b₂, hstarted.trans hworks, ?_⟩
    cases x with
    | ok answers => exact hjob.trans hidle
    | error f => exact (hjob.trans hidle).trans (if_neg hi).symm

/-- Reports do not matter. -/
theorem ends_quietly {σ ε α : Type} {x : Action σ ε α} {s : σ} {Q : Except ε α → σ → Prop}
    (h : x.Ends s Q) : (quietly x).Ends s Q := h

/-! ### Changes of a worker -/

/-- What becomes of a worker that is changed. -/
theorem ends_changeWorker {f : Worker (Task S ρ) → Thread → Worker (Task S ρ)}
    {y : Worker (Task S ρ)} {th : Thread} {Q : Except SequenceFault Unit → World S ρ → Prop}
    (hy : w.engine? i = some (.worker y th))
    (h : Q (.ok ()) (w.setEngine i (.worker (f y th) th))) : (changeWorker i f).Ends w Q := by
  unfold Ends changeWorker
  rw [run_modify, hy]
  exact h

/-- A change of another runner is no concern of the worker. -/
theorem ends_changeWorker_of_ne {f : Worker (Task S ρ) → Thread → Worker (Task S ρ)}
    (hworks : w.Works r b K b' w') (hi : i ≠ r)
    (hf : ∀ y th, (f y th).queue.toList ⊆ y.queue.toList) :
    (changeWorker i f).Ends w' fun x w'' => x = .ok () ∧ w.Works r b K b' w'' := by
  unfold Ends changeWorker
  rw [run_modify]
  refine ⟨rfl, ?_⟩
  split
  · next y th hy =>
    refine hworks.aside (hworks.holds.setOther hy hi fun t ht => ?_) rfl
    exact hworks.holds.modest i _ hy t (hf y th ht)
  · exact hworks

/-- After a failed task the worker ends. -/
theorem ends_fail (hworks : w.Works r b K b' w')
    (hjob : b'.job = if i = r then .failing else .idle) :
    (changeWorker i fun y _ => y.fail).Ends w' fun x w'' => x = .ok () ∧ ∃ K' b'',
      w.Works r b K' b'' w'' ∧ b''.job = .idle ∧ (i = r → b''.worker.next? = none) := by
  by_cases hi : i = r
  · subst hi
    obtain ⟨th, hth⟩ := hworks.holds.worker
    have hdie := Shift.Moves.die (hjob.trans (if_pos rfl))
    have hholds : (w'.setEngine i (.worker b'.worker.fail th)).Holds i
      { b' with worker := b'.worker.fail, job := .idle } := hworks.holds.setOwn rfl (fun _ => nofun)
    have hworks' := hworks.step hdie rfl hholds (Nat.le_refl _) (fun _ _ => rfl) rfl
    exact ends_changeWorker hth ⟨rfl, _, _, hworks', rfl, fun _ => rfl⟩
  · refine (ends_changeWorker_of_ne hworks hi fun _ _ => List.nil_subset _).imp ?_
    rintro x w'' ⟨rfl, hworks'⟩
    exact ⟨rfl, K, b', hworks', hjob.trans (if_neg hi), fun heq => absurd heq hi⟩

/-! ### Waiting for a worker -/

/-- By induction on the bound for the number of rounds. -/
theorem Attends.drainWorker (hrun : Attends r run) {target : Option Nat} (hw : w.Holds r b)
    (hidle : b.job = .idle) :
    (drainWorker run i target bound).Ends w fun x w' => ∃ K b', w.Works r b K b' w' ∧
      b'.job = .idle ∧ (i = r → target = none → ∀ a, x = .ok a → b'.worker.next? = none) := by
  induction bound generalizing w b with
  | zero => exact ⟨[], b, .refl hw, hidle, nofun⟩
  | succ bound ih =>
    refine ends_bind (ends_takeTask_cases.imp ?_)
    rintro x w₁ (⟨rfl, rfl, hnone⟩ | ⟨e, e', t, rfl, rfl, he, hwaiting, -, hnext⟩)
    · refine ⟨[], b, .refl hw, hidle, ?_⟩
      rintro rfl - a -
      obtain ⟨th, hth⟩ := hw.worker
      exact hnone _ _ hth
    · refine ends_attempt_bind (ends_quietly ((hrun.round hw hidle he hwaiting hnext).imp ?_))
      rintro x w₂ ⟨K, b₂, hworks, hjob⟩
      cases x with
      | error f =>
        refine ends_bind ((ends_fail hworks hjob).imp ?_)
        rintro _ w₃ ⟨rfl, K', b₃, hworks₃, hidle₃, hnone⟩
        exact ⟨K', b₃, hworks₃, hidle₃, fun hi _ _ _ => hnone hi⟩
      | ok answers =>
        show Ends (if target = some t.ticket then _ else _) _ _
        split
        · next htarget =>
          refine ⟨K, b₂, hworks, hjob, ?_⟩
          rintro - rfl
          cases htarget
        · refine (ih hworks.holds hjob).imp ?_
          rintro x w₃ ⟨K', b₃, hworks₃, hidle₃, hnone⟩
          exact ⟨_, b₃, hworks.trans hworks₃, hidle₃, hnone⟩

/-- When no task waits, the thread of a closed worker ends, unless it ended before. -/
theorem ends_stop {n : Nat} (hworks : w.Works r b K b' w') (hidle : b'.job = .idle)
    (hcall : b'.calls n = .waiting) (hclosed : b'.worker.closed = true)
    (hnone : b'.worker.next? = none) :
    (changeWorker r fun y th => y.stop th.current).Ends w' fun x w'' => x = .ok () ∧ ∃ K' b'',
      w.Works r b (K' ++ K) b'' w'' ∧ b''.job = .idle ∧ b''.calls n = .waiting ∧
        b''.worker.phase ≠ .running := by
  obtain ⟨th, hth⟩ := hworks.holds.worker
  refine ends_changeWorker hth ⟨rfl, ?_⟩
  by_cases hrunning : b'.worker.phase = .running
  · have hempty := Worker.toList_of_next?_eq_none hrunning hnone
    have hstop := Shift.Moves.stop hidle hrunning hclosed hempty th.current
    have hholds : (w'.setEngine r (.worker (b'.worker.stop th.current) th)).Holds r
        { b' with worker := b'.worker.stop th.current } := by
      refine hworks.holds.setOwn rfl ?_
      rw [Worker.queue_stop]
      exact hworks.holds.modest_queue
    have hworks' := hworks.step hstop rfl hholds (Nat.le_refl _) (fun _ _ => rfl) rfl
    refine ⟨[_], _, hworks', hidle, hcall, ?_⟩
    rw [Worker.phase_stop hrunning]
    split <;> nofun
  · have hsame : b'.worker.stop th.current = b'.worker := if_neg hrunning
    rw [hsame]
    have hworks' : w.Works r b K b' (w'.setEngine r (.worker b'.worker th)) :=
      hworks.aside (hworks.holds.setOwn rfl hworks.holds.modest_queue) rfl
    exact ⟨[], b', hworks', hidle, hcall, hrunning⟩

/-- The call that has the handle of the worker waits for its end. -/
theorem Attends.awaitEnd (hrun : Attends r run) {n : Nat} (hworks : w.Works r b K b' w')
    (hn : b.next ≤ n) (hlt : n < b'.next) (hidle : b'.job = .idle)
    (hcall : b'.calls n = .waiting) (hclosed : b'.worker.closed = true) :
    (do
      let _ ← Machine.drainWorker run r none bound
      changeWorker r fun y th => y.stop th.current
      match (← Action.state).engine? r with
      | some (.worker y _) => pure y.outcome
      | _ => pure (.ok ()) : Machine S ρ (Except SequenceError Unit)).Ends w' fun x w'' =>
        ∃ K' b'', w.Works r b (.ofResult n x :: (K' ++ K)) b'' w'' ∧ b''.job = .idle := by
  refine ends_bind ((hrun.drainWorker hworks.holds hidle).imp ?_)
  rintro x w₁ ⟨K₁, b₁, hworks₁, hidle₁, hnone⟩
  have hcall₁ : b₁.calls n = .waiting := (hworks₁.calls n hlt).trans hcall
  have hworks₁' := hworks.trans hworks₁
  cases x with
  | error f => exact ⟨K₁, _, hworks₁'.setCall hn (.giveUp hcall₁) rfl, hidle₁⟩
  | ok answers =>
    have hclosed₁ := (hworks₁.takes.closed hclosed).1
    refine ends_bind ((ends_stop hworks₁' hidle₁ hcall₁ hclosed₁ (hnone rfl rfl _ rfl)).imp ?_)
    rintro _ w₂ ⟨rfl, K₂, b₂, hworks₂, hidle₂, hcall₂, hended⟩
    obtain ⟨th, hth⟩ := hworks₂.holds.worker
    refine ends_state_bind ?_
    rw [hth]
    refine ⟨K₂ ++ K₁, b₂.setCall n .over, ?_, hidle₂⟩
    rw [List.append_assoc]
    exact hworks₂.setCall hn (.join hcall₂ hended) rfl

/-- The call that shuts the worker down closes its queue, and it returns or gives up. -/
theorem Attends.shutDown_own (hrun : Attends r run) (hp : p = .main ∨ p = .worker r)
    (hw : w.Holds r b) (hsuits : b.Suits r p) :
    (shutDown run p r bound).Ends w fun x w' => ∃ n K b',
      w.Works r b (.ofResult n x :: (K ++ [.closed n (w.current p)])) b' w' ∧ b'.job = b.job := by
  obtain ⟨th, hth⟩ := hw.worker
  have hmodest := hw.modest_queue
  have hnew : ∀ (calls : Nat → Stage) x m, m < b.next →
      Function.update calls b.next x m = calls m :=
    fun _ _ _ hm => Function.update_of_ne (Nat.ne_of_lt hm) ..
  -- The call closes the queue.
  let b₁ : Shift (Task S ρ) :=
    { b.setCall b.next (.closing (w.current p)) with worker := b.worker.close, next := b.next + 1 }
  have hworks₁ : w.Works r b [.closed b.next (w.current p)] b₁
      (w.setEngine r (.worker b.worker.close th)) :=
    (World.Works.refl hw).step (.close _) rfl (hw.setOwn rfl hmodest) (Nat.le_succ _)
      (hnew _ _) rfl
  have hcall₁ : b₁.calls b.next = .closing (w.current p) := Function.update_self ..
  have hth₁ : (w.setEngine r (.worker b.worker.close th)).engine? r =
      some (.worker b.worker.close th) := by
    rw [World.engine?_setEngine hth, if_pos rfl]
  have hcurrent : (w.setEngine r (.worker b.worker.close th)).current p = w.current p := by
    rw [World.current, World.thread_setEngine hth]
    rfl
  refine ends_bind (ends_changeWorker hth ?_)
  refine ends_state_bind ?_
  rw [hth₁, hcurrent]
  show Ends (if (decide (w.current p = some b.worker.id) || b₁.worker.joined) = true then _
    else _) _ _
  by_cases hinside : w.current p = some b.worker.id
  · rw [if_pos (by rw [Bool.or_eq_true]; exact .inl (decide_eq_true hinside))]
    exact ⟨b.next, [], b₁.setCall b.next .over,
      hworks₁.setCall (Nat.le_refl _) (.pass (hcall₁.trans (congrArg _ hinside))) rfl, rfl⟩
  cases hjoined : b₁.worker.joined with
  | true =>
    rw [if_pos (by rw [Bool.or_eq_true]; exact .inr rfl)]
    exact ⟨b.next, [], b₁.setCall b.next .over,
      hworks₁.setCall (Nat.le_refl _) (.miss hcall₁ hinside hjoined) rfl, rfl⟩
  | false =>
    rw [Bool.or_false, if_neg (fun heq => hinside (of_decide_eq_true heq))]
    refine ends_bind (ends_changeWorker hth₁ ?_)
    -- The call takes the handle.
    let b₂ (joiner : Option Nat) : Shift (Task S ρ) :=
      { b₁.setCall b.next .waiting with worker := { b₁.worker with joined := true, joiner } }
    have hcall₂ : ∀ joiner, (b₂ joiner).calls b.next = .waiting :=
      fun _ => Function.update_self ..
    have hholds₂ : World.Holds _ r (b₂ b.worker.joiner) :=
      hworks₁.holds.setOwn (t := th) rfl hmodest
    have hworks₂ := hworks₁.step (.take hcall₁ hinside hjoined b.worker.joiner) rfl hholds₂
      (Nat.le_refl _) (hnew _ _) rfl
    obtain ⟨th₂, hth₂⟩ := hholds₂.worker
    refine ends_require_bind (fun _ => ?_) fun hcomes => ?_
    · exact ⟨b.next, [.took b.next], (b₂ b.worker.joiner).setCall b.next .over,
        hworks₂.setCall (Nat.le_refl _) (.giveUp (hcall₂ _)) rfl, rfl⟩
    · cases hp with
      | inl hmain =>
        subst hmain
        have hidle := Shift.suits_main_iff.1 hsuits
        have hholds₃ : World.Holds _ r (b₂ none) := hholds₂.setOwn (t := th₂) rfl hmodest
        have hworks₃ := hworks₁.step (.take hcall₁ hinside hjoined none) rfl hholds₃
          (Nat.le_refl _) (hnew _ _) rfl
        refine ends_bind (ends_changeWorker hth₂ ?_)
        refine (hrun.awaitEnd hworks₃ (Nat.le_refl _) (Nat.lt_succ_self _) hidle (hcall₂ _)
          rfl).imp ?_
        rintro x w' ⟨K, b', hworks, hidle'⟩
        refine ⟨b.next, K ++ [.took b.next], b', ?_, hidle'.trans hidle.symm⟩
        rw [List.append_assoc]
        exact hworks
      | inr hown =>
        subst hown
        simp [World.neverEnds] at hcomes

/-- The end of another worker is waited for. -/
theorem Attends.shutDown_of_ne (hrun : Attends r run) (hi : i ≠ r) (hw : w.Holds r b)
    (hidle : b.job = .idle) :
    (shutDown run p i bound).Ends w fun _ w' => ∃ K b', w.Works r b K b' w' ∧
      b'.job = .idle := by
  have hsame : ∀ y : Worker (Task S ρ), y.queue.toList ⊆ y.queue.toList := fun _ => .refl _
  refine ends_bind (.imp (ends_changeWorker_of_ne (.refl hw) hi fun y _ => hsame y) ?_)
  rintro _ w₁ ⟨rfl, hworks₁⟩
  refine ends_state_bind ?_
  split
  · split
    · exact ⟨[], b, hworks₁, hidle⟩
    · refine ends_bind (.imp (ends_changeWorker_of_ne hworks₁ hi fun y _ => hsame y) ?_)
      rintro _ w₂ ⟨rfl, hworks₂⟩
      refine ends_require_bind (fun _ => ⟨[], b, hworks₂, hidle⟩) fun _ => ?_
      refine ends_bind (.imp (ends_changeWorker_of_ne hworks₂ hi fun y _ => hsame y) ?_)
      rintro _ w₃ ⟨rfl, hworks₃⟩
      refine ends_bind ((hrun.drainWorker hworks₃.holds hidle).imp ?_)
      rintro x w₄ ⟨K, b₄, hworks₄, hidle₄, -⟩
      have hworks₄' := hworks₃.trans hworks₄
      cases x with
      | error f => exact ⟨_, b₄, hworks₄', hidle₄⟩
      | ok answers =>
        have hstop : ∀ (y : Worker (Task S ρ)) (th : Thread),
            (y.stop th.current).queue.toList ⊆ y.queue.toList := by
          intro y th
          rw [Worker.queue_stop]
          exact hsame y
        refine ends_bind ((ends_changeWorker_of_ne hworks₄' hi hstop).imp ?_)
        rintro _ w₅ ⟨rfl, hworks₅⟩
        refine ends_state_bind ?_
        split <;> exact ⟨_, b₄, hworks₅, hidle₄⟩
  · exact ⟨[], b, hworks₁, hidle⟩

/-- The main thread may shut down any worker, and that is a run of the one that is watched. -/
theorem Attends.shutDown_main (hrun : Attends r run) (hw : w.Holds r b) (hidle : b.job = .idle) :
    (shutDown run .main i bound).Ends w fun _ w' => ∃ K b', w.Works r b K b' w' ∧
      b'.job = .idle := by
  by_cases hi : i = r
  · subst hi
    refine (hrun.shutDown_own (.inl rfl) hw (Shift.suits_main_iff.2 hidle)).imp ?_
    rintro x w' ⟨n, K, b', hworks, hjob⟩
    exact ⟨_, b', hworks, hjob.trans hidle⟩
  · exact hrun.shutDown_of_ne hi hw hidle

/-- To let go of a runner may shut it down, and else it does nothing. -/
theorem Attends.release (hrun : Attends r run) (hw : w.Holds r b) (hidle : b.job = .idle) :
    (release run .main i bound).Ends w fun _ w' => ∃ K b', w.Works r b K b' w' ∧
      b'.job = .idle := by
  refine ends_state_bind ?_
  split
  · split
    · exact ⟨[], b, .refl hw, hidle⟩
    · refine ends_bind ((hrun.shutDown_main hw hidle).imp ?_)
      rintro x w₁ ⟨K, b₁, hworks, hidle₁⟩
      cases x with
      | error f => exact ⟨K, b₁, hworks, hidle₁⟩
      | ok y =>
        cases y with
        | error e => exact ⟨K, b₁, hworks, hidle₁⟩
        | ok u => exact ⟨K, b₁, hworks, hidle₁⟩
  · exact ⟨[], b, .refl hw, hidle⟩

/-- To wait for a task runs tasks of the worker, and lets go of it then. -/
theorem Attends.waitFor (hrun : Attends r run) {ticket : Nat} (hw : w.Holds r b)
    (hidle : b.job = .idle) :
    (waitFor run .main i ticket bound).Ends w fun _ w' => ∃ K b', w.Works r b K b' w' ∧
      b'.job = .idle := by
  have hworks₁ : w.Works r b [] b (w.changeWaiters i (· + 1)) :=
    (World.Works.refl hw).sameEngines fun _ => rfl
  refine ends_modify_bind ?_
  refine ends_bind ((hrun.drainWorker hworks₁.holds hidle).imp ?_)
  rintro x w₂ ⟨K₂, b₂, hworks₂, hidle₂, -⟩
  have hworks₂' := hworks₁.trans hworks₂
  cases x with
  | error f => exact ⟨_, b₂, hworks₂', hidle₂⟩
  | ok answers =>
    have hworks₃ : w.Works r b _ b₂ (w₂.changeWaiters i (· - 1)) :=
      hworks₂'.sameEngines fun _ => rfl
    refine ends_modify_bind ?_
    refine ends_bind ((hrun.release hworks₃.holds hidle₂).imp ?_)
    rintro x w₄ ⟨K₄, b₄, hworks₄, hidle₄⟩
    have hworks₄' := hworks₃.trans hworks₄
    cases x with
    | error f => exact ⟨_, b₄, hworks₄', hidle₄⟩
    | ok u => exact ⟨_, b₄, hworks₄', hidle₄⟩

/-! ### Posting -/

/-- A task is posted to a runner.  If that is the worker, it takes the task or refuses it. -/
theorem ends_postTask_of_holds {body : List (Command S ρ)}
    (hbody : ∀ k ∈ body, k.Modest (.worker i)) (hw : w.Holds r b) :
    (postTask i path body none : Machine S ρ _).Ends w fun x w' => ∃ K b',
      w.Works r b K b' w' ∧ b'.job = b.job ∧ (i = r → ∃ t, t.path = path ∧ t.body = body ∧
        ((∃ n, x = .ok (.ok n) ∧ K = [.accepted t]) ∨
          ∃ q, x = .ok (.error (.runnerShutDown q)) ∧ K = [.refused t])) := by
  let t : Task S ρ := { ticket := w.nextTicket, path, body, parcel := none }
  have ht : t.Modest i := ⟨hbody, rfl⟩
  have hset : ∀ {e e' : Engine S ρ}, w.engine? i = some e → e.post? t = some e' →
      ∀ x ∈ e'.waiting, x.Modest i := by
    intro e e' he hpost
    rw [Engine.waiting_of_post? hpost]
    exact List.forall_mem_append.2 ⟨hw.modest i e he, List.forall_mem_singleton.2 ht⟩
  refine ends_postTask_cases.imp ?_
  by_cases hi : i = r
  · subst hi
    obtain ⟨th, hth⟩ := hw.worker
    rintro x w' (⟨⟨q, rfl⟩, rfl, hnone⟩ | ⟨e, e', rfl, he, hsome, rfl⟩)
    · have hpost : b.worker.post? t = none := Option.map_eq_none_iff.1 (hnone _ hth).1
      have hworks := (World.Works.refl hw).step (.refuse hpost) rfl hw (Nat.le_refl _)
        (fun _ _ => rfl) rfl
      exact ⟨[.refused t], b, hworks, rfl, fun _ => ⟨t, rfl, rfl, .inr ⟨q, rfl, rfl⟩⟩⟩
    · cases he.symm.trans hth
      have hmodest := hset hth hsome
      obtain ⟨y, hpost, rfl⟩ := Option.map_eq_some_iff.1 hsome
      have hholds : (w.setEngine i (.worker y th)).Holds i { b with worker := y } :=
        hw.setOwn rfl hmodest
      have hworks : w.Works i b [.accepted t] { b with worker := y }
          { w.setEngine i (.worker y th) with nextTicket := w.nextTicket + 1 } :=
        (World.Works.refl hw).step (.accept hpost) rfl (hholds.congr (fun _ => rfl) rfl)
          (Nat.le_refl _) (fun _ _ => rfl) rfl
      exact ⟨[.accepted t], { b with worker := y }, hworks, rfl,
        fun _ => ⟨t, rfl, rfl, .inl ⟨_, rfl, rfl⟩⟩⟩
  · rintro x w' (⟨-, rfl, -⟩ | ⟨e, e', rfl, he, hsome, rfl⟩)
    · exact ⟨[], b, .refl hw, rfl, fun heq => absurd heq hi⟩
    · have hholds := hw.setOther he hi (hset he hsome)
      exact ⟨[], b, (World.Works.refl hw).aside (hholds.congr (fun _ => rfl) rfl) rfl, rfl,
        fun heq => absurd heq hi⟩

/-! ### Commands -/

theorem ends_withSome_of {α : Type} {o : Option α} {f : α → Machine S ρ (Answer S ρ)}
    {Q : Except SequenceFault (Answer S ρ) → World S ρ → Prop} (hnone : Q (.ok .vacant) w)
    (hsome : ∀ a, o = some a → (f a).Ends w Q) : (withSome o f).Ends w Q := by
  cases ho : o with
  | none => exact hnone
  | some a => exact hsome a ho

/-- A plain command leaves the runners and the guarded stores alone. -/
theorem ends_plain {k : Command S ρ} {n : Nat} (hk : k.Plain) :
    (perform run n p path k w (w.thread p)).Ends w fun _ w' => w.Drifts p w' := by
  cases k with
  | nextId => exact ends_modifyGet_bind .newId
  | compareIds a b => exact .idle
  | current => exact .idle
  | threadName => exact .idle
  | enterScope q => exact ends_modify_bind (.thread .idle _)
  | leaveScope i =>
    refine ends_withSome_of .idle fun x _ => ?_
    refine ends_modify_bind (ends_query_bind (fun _ _ => .thread .idle _) fun t _ => ?_)
    exact ends_modify_bind (.thread (.thread .idle _) _)
  | mintToken => exact ends_modify_bind (.thread .idle _)
  | inspectToken i => exact ends_withSome_of .idle fun _ _ => .idle
  | newManual => exact ends_modifyGet_bind (ends_modifyGet_bind (.runner _ rfl))
  | spawnWorker naming =>
    refine ends_modifyGet_bind ?_
    refine ends_require_bind (fun _ => .newId) fun _ => ?_
    exact ends_modifyGet_bind (.runner _ rfl)
  | inspectRunner i =>
    refine ends_withSome_of .idle fun x _ => ?_
    cases x with
    | manual m => exact .idle
    | worker y th => exact .idle
  | explain e => exact .idle
  | raise message => exact .idle
  | _ => exact hk.elim

/-- The answer to a shutdown tells what the call found at the worker. -/
theorem Attends.settle_shutDown (hrun : Attends r run) (hp : p = .main ∨ p = .worker i)
    (hw : w.Holds r b) (hsuits : b.Suits r p) :
    (do settle (← Machine.shutDown run p i bound)).Ends w fun x w' => ∃ K b',
      w.Works r b K b' w' ∧ b'.job = b.job ∧
        (Command.shutDown i).Tells r (w.current p) path x K := by
  by_cases hi : i = r
  · subst hi
    refine ends_bind ((hrun.shutDown_own hp hw hsuits).imp ?_)
    rintro x w' ⟨n, K, b', hworks, hjob⟩
    cases x with
    | error f => exact ⟨_, b', hworks, hjob, .gaveUp⟩
    | ok y =>
      cases y with
      | error e => exact ⟨_, b', hworks, hjob, .lost⟩
      | ok u => exact ⟨_, b', hworks, hjob, .returned⟩
  · have hne : p ≠ .worker r := by
      rintro rfl
      rcases hp with hp | hp
      · cases hp
      · exact hi (Place.worker.inj hp).symm
    have hidle := hsuits.idle hne
    have hother : ∀ {x K}, (Command.shutDown i : Command S ρ).Tells r (w.current p) path x K :=
      .other nofun fun heq => hi (Command.shutDown.inj heq)
    refine ends_bind ((hrun.shutDown_of_ne hi hw hidle).imp ?_)
    rintro x w' ⟨K, b', hworks, hidle'⟩
    have hjob := hidle'.trans hidle.symm
    cases x with
    | error f => exact ⟨K, b', hworks, hjob, hother⟩
    | ok y => cases y <;> exact ⟨K, b', hworks, hjob, hother⟩

/-- The answer to a command without tasks tells nothing about the worker. -/
theorem tells_of_plain {k : Command S ρ} {current : Option SequenceId}
    {x : Except SequenceFault (Answer S ρ)} (hk : k.Plain) : k.Tells r current path x K := by
  refine .other ?_ ?_
  · rintro body rfl
    exact hk.elim
  · rintro rfl
    exact hk.elim

/-- The answer to a post tells whether the worker took the task. -/
theorem attends_post {body : List (Command S ρ)} {n : Nat}
    (hbody : ∀ k ∈ body, k.Modest (.worker i)) (hw : w.Holds r b) :
    (perform run n p path (.post i body) w (w.thread p)).Ends w fun x w' => ∃ K b',
      w.Works r b K b' w' ∧ b'.job = b.job ∧
        (Command.post i body).Tells r (w.current p) path x K := by
  refine ends_withSome_of ⟨[], b, .refl hw, rfl, .vacant⟩ fun _ _ => ?_
  refine ends_bind ((ends_postTask_of_holds hbody hw).imp ?_)
  rintro x w' ⟨K, b', hworks, hjob, hown⟩
  by_cases hi : i = r
  · subst hi
    obtain ⟨t, rfl, rfl, ⟨m, rfl, rfl⟩ | ⟨q, rfl, rfl⟩⟩ := hown rfl
    · exact ⟨_, b', hworks, hjob, .accepted⟩
    · exact ⟨_, b', hworks, hjob, .refused⟩
  · have hother : ∀ {x}, (Command.post i body).Tells r (w.current p) path x K := by
      refine .other ?_ nofun
      rintro _ ⟨⟩
      exact hi rfl
    cases x with
    | error f => exact ⟨K, b', hworks, hjob, hother⟩
    | ok y => cases y <;> exact ⟨K, b', hworks, hjob, hother⟩

/-- The main thread posts a task and waits for it, and the worker may run tasks meanwhile. -/
theorem Attends.runAndWait (hrun : Attends r run) {body : List (Command S ρ)}
    (hbody : ∀ k ∈ body, k.Modest (.worker i)) (hw : w.Holds r b) (hidle : b.job = .idle) :
    (perform run bound .main path (.runAndWait i body) w (w.thread .main)).Ends w fun x w' =>
      ∃ K b', w.Works r b K b' w' ∧ b'.job = b.job ∧
        (Command.runAndWait i body).Tells r (w.current .main) path x K := by
  have hother : ∀ {x K}, (Command.runAndWait i body).Tells r (w.current .main) path x K :=
    .other nofun nofun
  refine ends_withSome_of ⟨[], b, .refl hw, rfl, .vacant⟩ fun x _ => ?_
  refine ends_require_bind (fun _ => ⟨[], b, .refl hw, rfl, hother⟩) fun _ => ?_
  cases x with
  | manual m => exact ⟨[], b, .refl hw, rfl, hother⟩
  | worker y th =>
    refine ends_bind ((ends_postTask_of_holds hbody hw).imp ?_)
    rintro x w₁ ⟨K₁, b₁, hworks₁, hjob₁, -⟩
    cases x with
    | error f => exact ⟨K₁, b₁, hworks₁, hjob₁, hother⟩
    | ok x =>
      cases x with
      | error e => exact ⟨K₁, b₁, hworks₁, hjob₁, hother⟩
      | ok ticket =>
        refine ends_bind ((hrun.waitFor hworks₁.holds (hjob₁.trans hidle)).imp ?_)
        rintro x w₂ ⟨K₂, b₂, hworks₂, hidle₂⟩
        have hworks₂' := hworks₁.trans hworks₂
        have hjob₂ := hidle₂.trans hidle.symm
        cases x with
        | error f => exact ⟨_, b₂, hworks₂', hjob₂, hother⟩
        | ok answers => cases answers <;> exact ⟨_, b₂, hworks₂', hjob₂, hother⟩

/-- To give up the handle of a runner tells nothing about the worker. -/
theorem Attends.dropRunner (hrun : Attends r run) (hw : w.Holds r b) (hidle : b.job = .idle) :
    (perform run bound .main path (.dropRunner i) w (w.thread .main)).Ends w fun x w' =>
      ∃ K b', w.Works r b K b' w' ∧ b'.job = b.job ∧
        (Command.dropRunner i).Tells r (w.current .main) path x K := by
  have hother : ∀ {x K}, (Command.dropRunner i : Command S ρ).Tells r (w.current .main) path
      x K := .other nofun nofun
  refine ends_withSome_of ⟨[], b, .refl hw, rfl, .vacant⟩ fun _ _ => ?_
  have hworks₁ : w.Works r b [] b (w.giveUp i) :=
    (World.Works.refl hw).sameEngines fun _ => rfl
  refine ends_modify_bind (ends_bind ((hrun.release hworks₁.holds hidle).imp ?_))
  rintro x w₂ ⟨K, b₂, hworks₂, hidle₂⟩
  have hworks₂' := hworks₁.trans hworks₂
  have hjob₂ := hidle₂.trans hidle.symm
  cases x with
  | error f => exact ⟨_, b₂, hworks₂', hjob₂, hother⟩
  | ok u => exact ⟨_, b₂, hworks₂', hjob₂, hother⟩

/-- By induction on the bound: the commands of the tasks have a smaller one. -/
theorem attends_execute (r n : Nat) :
    Attends r (execute n : Place → List Nat → Command S ρ → _) := by
  induction n with
  | zero => exact fun _ _ _ w b _ hw _ => ⟨[], b, .refl hw, rfl, .unbounded⟩
  | succ n ih =>
    intro k p path w b hmodest hw hsuits
    refine ends_state_bind ?_
    cases hmodest with
    | plain hk =>
      refine (ends_plain hk).imp ?_
      intro x w' hdrifts
      exact ⟨[], b, hdrifts.works hw, rfl, tells_of_plain hk⟩
    | post hbody => exact attends_post hbody hw
    | runAndWait hbody => exact ih.runAndWait hbody hw (Shift.suits_main_iff.1 hsuits)
    | @shutDown i =>
      refine ends_withSome_of ⟨[], b, .refl hw, rfl, .vacant⟩ fun _ _ => ?_
      exact ih.settle_shutDown (.inl rfl) hw hsuits
    | @shutDownOwn i =>
      refine ends_withSome_of ⟨[], b, .refl hw, rfl, .vacant⟩ fun _ _ => ?_
      exact ih.settle_shutDown (.inr rfl) hw hsuits
    | dropRunner => exact ih.dropRunner hw (Shift.suits_main_iff.1 hsuits)

/-- A worker that is made has done nothing. -/
theorem ends_spawnWorker {naming : SequenceId → String} {n : Nat}
    (hmodest : ∀ i x, w.engine? i = some x → ∀ t ∈ x.waiting, t.Modest i) :
    (execute (n + 1) p path (.spawnWorker naming)).Ends w fun x w' =>
      ∀ r q name, x = .ok (.done (.runner r q name)) →
        name = some (naming q) ∧ w'.Holds r (Shift.new q (naming q)) := by
  refine ends_state_bind (ends_modifyGet_bind ?_)
  refine ends_require_bind (fun _ => nofun) fun _ => ?_
  refine ends_modifyGet_bind ?_
  have hholds := World.Holds.spawn hmodest ⟨w.nextId⟩ (naming ⟨w.nextId⟩)
    { name := some (naming ⟨w.nextId⟩), current := some ⟨w.nextId⟩ }
  rintro r q name ⟨⟩
  exact ⟨rfl, hholds.congr (fun _ => rfl) rfl⟩

end

end Machine

/-- The commands of a program are carried out one after another, and no task runs in between. -/
theorem Session.works_runFrom {program : List (Command S ρ)} {w : World S ρ}
    {b : Shift (Task S ρ)} {r n i : Nat} (hmodest : ∀ k ∈ program, k.Modest .main)
    (hw : w.Holds r b) (hidle : b.job = .idle) :
    ∃ K b', w.Works r b K b' (runFrom n i program w).2 ∧ b'.job = .idle := by
  induction program generalizing i w b with
  | nil => exact ⟨[], b, .refl hw, hidle⟩
  | cons k rest ih =>
    have hmodest' := List.forall_mem_cons.1 hmodest
    obtain ⟨x, -, K, b₁, hworks, hjob, -⟩ := Machine.ends_step (Machine.attends_execute r n k .main
      [i] w b hmodest'.1 hw (Shift.suits_main_iff.2 hidle))
    obtain ⟨K', b₂, hworks', hidle'⟩ := ih (i := i + 1) hmodest'.2 hworks.holds
      (hjob.trans hidle)
    exact ⟨K' ++ K, b₂, hworks.trans hworks', hidle'⟩

namespace Shift

variable {b : Shift (Task S ρ)} {H : List (Event (Task S ρ))} {id : SequenceId} {name : String}

/-- After any run of a worker the tasks were run in the order of the queue, and each call that shut
it down was told what happened until then.  If no task failed, all tasks that were accepted are done
when the call returns that took the handle.  What the machine does with a modest command makes a
longer run, and so does what it does with a program of such commands. -/
theorem Takes.serves_in_order (h : (new id name).Takes H b) : Orderly id H ∧
    (∀ (w : World S ρ) (r : Nat) (k : Command S ρ) (p : Place) (path : List Nat) (n : Nat),
      w.Holds r b → b.Suits r p → k.Modest p →
      (execute n p path k).Ends w fun x w' => ∃ K b',
        b.Takes K b' ∧ Orderly id (K ++ H) ∧ w'.Holds r b' ∧ b'.Suits r p ∧
        k.Tells r (w.current p) path x K ∧
        ∃ paths, w'.startedPaths = w.startedPaths ++ paths ∧
          ((started K).map Task.path).Sublist paths) ∧
    ∀ (w : World S ρ) (r : Nat) (program : List (Command S ρ)) (n i : Nat),
      w.Holds r b → b.job = .idle → (∀ k ∈ program, k.Modest .main) → ∃ K b',
        b.Takes K b' ∧ Orderly id (K ++ H) ∧
        (Session.runFrom n i program w).2.Holds r b' ∧ b'.job = .idle ∧
        ∃ paths, (Session.runFrom n i program w).2.startedPaths = w.startedPaths ++ paths ∧
          ((started K).map Task.path).Sublist paths := by
  refine ⟨h.orderly, ?_, ?_⟩
  · intro w r k p path n hw hsuits hk
    refine (Machine.attends_execute r n k p path w b hk hw hsuits).imp ?_
    rintro x w' ⟨K, b', hworks, hjob, htells⟩
    exact ⟨K, b', hworks.takes, (h.trans hworks.takes).orderly, hworks.holds, hsuits.congr hjob,
      htells, hworks.records⟩
  · intro w r program n i hw hidle hmodest
    obtain ⟨K, b', hworks, hidle'⟩ := Session.works_runFrom (n := n) (i := i) hmodest hw hidle
    exact ⟨K, b', hworks.takes, (h.trans hworks.takes).orderly, hworks.holds, hidle',
      hworks.records⟩

/-- A task closed the queue from inside while another one waited.  The call that waits for the
worker returns after that one ran. -/
theorem serves_in_order_closed_inside :
    ∃ (H : List (Event (Task Schema.sample Unit))) (b : Shift (Task Schema.sample Unit))
      (w : World Schema.sample Unit), (new ⟨1⟩ "w").Takes H b ∧ Orderly ⟨1⟩ H ∧
      .returned 0 (.ok ()) ∈ H ∧ (execute 12 .main [3] (.shutDown 0)).Ends w fun x w' => ∃ K b',
        x = .ok (.done .nothing) ∧ w'.startedPaths = [[2]] ∧
        b.Takes K b' ∧ Orderly ⟨1⟩ (K ++ H) ∧ w'.Holds 0 b' ∧
        (Command.shutDown 0).Tells 0 none [3] x K := by
  have hposted : (new ⟨1⟩ "w" : Shift (Task Schema.sample Unit)).Takes _ _ :=
    (Takes.refl.step (.accept (t := { ticket := 0, path := [1], body := [.shutDown 0] }) rfl)).step
      (.accept (t := { ticket := 1, path := [2], body := [] }) rfl)
  have hrun := (((hposted.step (.start rfl rfl)).step (.close (some ⟨1⟩))).step
    (.pass (n := 0) rfl)).step (.finish rfl)
  have hnone : ∀ i x, ({} : World Schema.sample Unit).engine? i = some x →
      ∀ t ∈ x.waiting, t.Modest i := by simp [World.engine?]
  have hspawn : (execute 1 .main [0] (.spawnWorker fun _ => "w")).Ends {} _ :=
    Machine.ends_spawnWorker hnone
  obtain ⟨-, hnew⟩ := hspawn 0 ⟨1⟩ (some "w") rfl
  obtain ⟨horderly, hexecute, -⟩ := hrun.serves_in_order
  have hend := hexecute _ 0 (.shutDown 0) .main [3] 12
    (hnew.setOwn (t := { name := some "w", current := some ⟨1⟩ }) rfl
      (List.forall_mem_singleton.2 ⟨List.forall_mem_nil _, rfl⟩))
    (suits_main_iff.2 rfl) .shutDown
  unfold Ends at hend
  obtain ⟨K, b', htakes, horderly', hholds', -, htells, -⟩ := hend
  refine ⟨_, _, _, hrun, horderly, by simp, K, b', ?_, ?_, htakes, horderly', hholds', htells⟩
  · cbv
  · cbv

/-- The first call from outside may return while an accepted task still waits, even if it is both
the first that is made and the first that returns, and no task fails: two calls are made one after
the other, the second one takes the handle, and so the first one does not wait. -/
theorem not_drained_on_first_return :
    ¬ ∀ (H : List (Event (Task Schema.sample Unit))) (b : Shift (Task Schema.sample Unit)),
      (new ⟨1⟩ "w").Takes H b → ¬ Failed H →
      ∀ n r K K', H = K' ++ .returned n r :: K → Outside ⟨1⟩ K n →
        (∀ m, Outside ⟨1⟩ K m → n ≤ m) → (∀ m r', .returned m r' ∈ K → ¬ Outside ⟨1⟩ K m) →
        finished H = accepted H := by
  intro hclaim
  let t : Task Schema.sample Unit := { ticket := 0, path := [1], body := [] }
  have hnone : (none : Option SequenceId) ≠ some ⟨1⟩ := nofun
  have hposted : (new ⟨1⟩ "w").Takes [.accepted t] _ := Takes.refl.step (.accept rfl)
  have hcalled : (new ⟨1⟩ "w").Takes [.closed 1 none, .closed 0 none, .accepted t] _ :=
    (hposted.step (.close none)).step (.close none)
  have hrun : (new ⟨1⟩ "w").Takes
      [.returned 0 (.ok ()), .took 1, .closed 1 none, .closed 0 none, .accepted t] _ :=
    (hcalled.step (.take rfl hnone rfl none)).step (.miss rfl hnone rfl)
  have hdrained := hclaim _ _ hrun (by simp [Failed]) 0 (.ok ()) _ [] rfl
    ⟨none, by simp, hnone⟩ (fun m _ => Nat.zero_le m) (by simp)
  cases hdrained

end Shift

end EntityStore
