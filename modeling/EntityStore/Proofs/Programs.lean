import EntityStore.Proofs.Draining
import EntityStore.Proofs.Runs
import EntityStore.Sequence.Machine
import Mathlib.Algebra.BigOperators.Group.List.Basic

/-!
# Programs of manual runners

A *simple* command makes a manual runner, posts a task of simple commands to it, closes it, drains
it, asks how many tasks wait there, or fails.  A world with manual runners only is a bench.  What
the machine does there with simple commands are moves of that bench, and the answers tell what
happened (`Machine.serves_execute`).

The machine has a bound on the depth of tasks and on the length of drains.  The number of commands
that are still to come is a bound that is never passed.
-/

namespace EntityStore

open EntityStore.Action

variable {S : Schema} {ρ : Type}

/-! ## Simple commands -/

/-- Whether a command is about manual runners only. -/
inductive Command.Simple : Command S ρ → Prop where
  /-- Make a manual runner. -/
  | newManual : Simple .newManual
  /-- Post a task of such commands. -/
  | post {r : Nat} {body : List (Command S ρ)} (hbody : ∀ k ∈ body, Simple k) :
      Simple (.post r body)
  /-- Close a runner. -/
  | close {r : Nat} : Simple (.close r)
  /-- Run the tasks of a runner. -/
  | drain {r : Nat} : Simple (.drain r)
  /-- Ask how many tasks wait. -/
  | inspectRunner {r : Nat} : Simple (.inspectRunner r)
  /-- Fail. -/
  | raise {message : String} : Simple (.raise message)

/-- Whether the commands of a task are simple, and nothing was moved into it. -/
structure Task.Simple (t : Task S ρ) : Prop where
  /-- The commands are simple. -/
  body : ∀ k ∈ t.body, k.Simple
  /-- Nothing was moved into the task. -/
  parcel : t.parcel = none

/-- How many steps of the machine a task may need. -/
def Task.load (t : Task S ρ) : Nat := 2 * Command.weights t.body + 1

namespace Bench

variable {b : Bench (Task S ρ)} {r : Nat} {m m' : Manual (Task S ρ)}

/-- How many steps of the machine the tasks may need that wait at a runner. -/
def manualLoad (m : Manual (Task S ρ)) : Nat := (m.queue.toList.map Task.load).sum

/-- How many steps of the machine the tasks may need that wait. -/
def load (b : Bench (Task S ρ)) : Nat := (b.runners.toList.map manualLoad).sum

/-- What becomes of one runner changes the load by what it does to that runner. -/
theorem load_set (hm : b.runners[r]? = some m) (m' : Manual (Task S ρ)) :
    (b.set r m').load + manualLoad m = b.load + manualLoad m' := by
  have hget : (b.runners.toList.map manualLoad)[r]? = some (manualLoad m) := by
    rw [List.getElem?_map, Array.getElem?_toList, hm]
    rfl
  obtain ⟨hlt, hloads⟩ := List.getElem?_eq_some_iff.1 hget
  have hset : ∀ n, ((b.runners.toList.map manualLoad).set r n).sum =
      ((b.runners.toList.map manualLoad).take r).sum + n +
        ((b.runners.toList.map manualLoad).drop (r + 1)).sum := by
    intro n
    rw [List.sum_set, if_pos hlt]
  have hold := hset (manualLoad m)
  rw [← hloads, List.set_getElem_self, hloads] at hold
  have hnew : (b.set r m').load =
      ((b.runners.toList.map manualLoad).set r (manualLoad m')).sum := by
    show ((b.runners.setIfInBounds r m').toList.map manualLoad).sum = _
    rw [Array.toList_setIfInBounds, List.map_set]
  show (b.set r m').load + _ = (b.runners.toList.map manualLoad).sum + _
  rw [hnew, hset, hold]
  omega

/-- A task that is taken takes its load along. -/
theorem load_next {t : Task S ρ} (hm : b.runners[r]? = some m) (ht : m.next? = some (t, m')) :
    b.load = (b.set r m').load + t.load := by
  have hload := load_set hm m'
  have hnext : manualLoad m = t.load + manualLoad m' := by
    rw [manualLoad, (Manual.toList_of_next? ht).1]
    rfl
  omega

end Bench

/-! ## Worlds with manual runners only -/

/-- The runners of a world are those of a bench, and simple tasks wait. -/
structure World.Tracks (w : World S ρ) (b : Bench (Task S ρ)) : Prop where
  /-- The runners are those of the bench. -/
  cells : w.cells = b.runners.map fun m => { engine := .manual m }
  /-- The tasks that wait are simple. -/
  simple : ∀ r, ∀ t ∈ b.waiting r, t.Simple

namespace World.Tracks

variable {w w' : World S ρ} {b b' : Bench (Task S ρ)} {r : Nat} {m m' : Manual (Task S ρ)}

/-- The empty world has no runners. -/
theorem new : ({} : World S ρ).Tracks {} := ⟨Array.map_empty.symm, fun _ => nofun⟩

/-- The rest of the world and the drains do not matter. -/
theorem congr (h : w.Tracks b) (hcells : w'.cells = w.cells) (hrunners : b'.runners = b.runners) :
    w'.Tracks b' where
  cells := by rw [hcells, hrunners, h.cells]
  simple r := by
    unfold Bench.waiting
    rw [hrunners]
    exact h.simple r

theorem cell? (h : w.Tracks b) (r : Nat) :
    w.cells[r]? = b.runners[r]?.map fun m => { engine := .manual m } := by
  rw [h.cells, Array.getElem?_map]

theorem held? (h : w.Tracks b) (r : Nat) : w.held? r = b.runners[r]?.map .manual := by
  unfold World.held?
  rw [h.cell?]
  cases b.runners[r]? with
  | none => rfl
  | some m => rfl

theorem engine? (h : w.Tracks b) (r : Nat) : w.engine? r = b.runners[r]?.map .manual := by
  unfold World.engine?
  rw [h.cell?]
  cases b.runners[r]? with
  | none => rfl
  | some m => rfl

/-- What becomes of a runner in the world becomes of it on the bench. -/
theorem set (h : w.Tracks b) (hm : b.runners[r]? = some m)
    (hsimple : ∀ t ∈ m'.queue.toList, t.Simple) :
    (w.setEngine r (.manual m')).Tracks (b.set r m') where
  cells := by
    show w.cells.modify r (fun c => { c with engine := .manual m' }) =
      (b.runners.setIfInBounds r m').map fun m => { engine := .manual m }
    rw [h.cells]
    refine Array.ext_getElem? fun i => ?_
    rw [Array.getElem?_modify, Array.getElem?_map, Array.getElem?_map, Array.getElem?_setIfInBounds,
      if_pos (Bench.lt_size hm)]
    split
    · rename_i hi
      subst hi
      rw [hm]
      rfl
    · rfl
  simple x := by
    rw [Bench.waiting_set hm]
    split
    · exact hsimple
    · exact h.simple x

/-- A post to a runner in the world is one on the bench. -/
theorem post {t : Task S ρ} (h : w.Tracks b) (hm : b.runners[r]? = some m)
    (ht : m.post? t = some m') (hsimple : t.Simple) :
    (w.setEngine r (.manual m')).Tracks (b.set r m') := by
  refine h.set hm ?_
  rw [Manual.toList_of_post? ht, ← Bench.waiting_of_runner? hm]
  intro x hx
  cases List.mem_append.1 hx with
  | inl hx => exact h.simple r x hx
  | inr hx =>
    obtain rfl := List.mem_singleton.1 hx
    exact hsimple

/-- A new runner in the world is a new one on the bench. -/
theorem push (h : w.Tracks b) (q : SequenceId) :
    ({ w with cells := w.cells.push { engine := .manual { id := q } } } : World S ρ).Tracks
      { b with runners := b.runners.push { id := q } } where
  cells := by
    show w.cells.push _ = (b.runners.push _).map _
    rw [h.cells, Array.map_push]
  simple x := by
    rw [Bench.waiting_push]
    exact h.simple x

end World.Tracks

/-! ## What the machine does -/

/-- What an answer tells about what happened while a simple command was carried out.  The path leads
to the command. -/
inductive Command.Fits : List Nat → Command S ρ → Except SequenceFault (Answer S ρ) →
    List (Bench.Event (Task S ρ)) → Prop where
  /-- A runner was made. -/
  | made {path : List Nat} {r : Nat} {q : SequenceId} :
      Fits path .newManual (.ok (.done (.runner r q none))) [.made r]
  /-- The task was taken. -/
  | accepted {r : Nat} {t : Task S ρ} :
      Fits t.path (.post r t.body) (.ok (.done .nothing)) [.accepted r t]
  /-- The task was refused. -/
  | refused {r : Nat} {t : Task S ρ} {q : SequenceId} :
      Fits t.path (.post r t.body) (.ok (.refused (.runnerShutDown q))) [.refused r t]
  /-- The runner was closed. -/
  | closed {path : List Nat} {r : Nat} {ts : List (Task S ρ)} :
      Fits path (.close r) (.ok (.done .nothing)) [.closed r ts]
  /-- The number of the tasks that wait was told. -/
  | counted {path : List Nat} {r n : Nat} {q : SequenceId} {isCurrent : Bool} {text : String} :
      Fits path (.inspectRunner r) (.ok (.done (.manualState q isCurrent n text))) [.counted r n]
  /-- The drain returned. -/
  | returned {path : List Nat} {r d n : Nat} {K : List (Bench.Event (Task S ρ))} :
      Fits path (.drain r) (.ok (.done (.count n))) (.returned r d n :: (K ++ [.begun r d]))
  /-- A task failed and ended the drain. -/
  | broken {path : List Nat} {r d : Nat} {K : List (Bench.Event (Task S ρ))}
      {e : SequenceFault} : Fits path (.drain r) (.error e) (.broken r d :: (K ++ [.begun r d]))
  /-- The command failed on purpose. -/
  | raised {path : List Nat} {message : String} :
      Fits path (.raise message) (.error (.raised message)) []
  /-- There is no such runner. -/
  | vacant {path : List Nat} {k : Command S ρ} : Fits path k (.ok .vacant) []

/-- The tasks that were started, by their paths. -/
def World.startedPaths (w : World S ρ) : List (List Nat) := w.records.toList.map Record.path

theorem World.startedPaths_push (w : World S ρ) (x : Record S ρ) :
    ({ w with records := w.records.push x } : World S ρ).startedPaths =
      w.startedPaths ++ [x.path] := by
  show (w.records.push x).toList.map Record.path = _
  rw [Array.toList_push, List.map_append]
  rfl

/-- An answer is added to the record of a task that was started already. -/
theorem World.startedPaths_addAnswer (w : World S ρ) (record : Nat) (a : Answer S ρ) :
    (w.addAnswer record a).startedPaths = w.startedPaths := by
  refine List.ext_getElem? fun i => ?_
  show ((w.records.modify record _).toList.map Record.path)[i]? = _
  rw [startedPaths, List.getElem?_map, List.getElem?_map, Array.getElem?_toList,
    Array.getElem?_toList, Array.getElem?_modify]
  split
  · cases w.records[i]? with
    | none => rfl
    | some x => rfl
  · rfl

/-- A world gets from a bench to a bench, with a bound for the tasks that are added. -/
structure World.Runs (w : World S ρ) (b : Bench (Task S ρ)) (cost : Nat)
    (K : List (Bench.Event (Task S ρ))) (b' : Bench (Task S ρ)) (w' : World S ρ) : Prop where
  /-- The events lead from bench to bench. -/
  takes : b.Takes K b'
  /-- The world follows. -/
  tracks : w'.Tracks b'
  /-- The thread is as it was. -/
  main : w'.main = w.main
  /-- Not more is to be done than before, apart from what the bound allows. -/
  load : b'.load ≤ b.load + cost
  /-- The world remembers the tasks that were started. -/
  records : w'.startedPaths = w.startedPaths ++ (Bench.startedTasks K).map Task.path

namespace World.Runs

variable {w w' w'' : World S ρ} {b b' b'' : Bench (Task S ρ)} {m n n' : Nat}
  {K K' : List (Bench.Event (Task S ρ))}

theorem refl (h : w.Tracks b) : w.Runs b n [] b w :=
  ⟨.refl, h, rfl, Nat.le_add_right .., (List.append_nil _).symm⟩

/-- First one run of the bench, then another one, and their costs add up. -/
theorem trans (h : w.Runs b n K b' w') (h' : w'.Runs b' n' K' b'' w'') (hm : n + n' ≤ m) :
    w.Runs b m (K' ++ K) b'' w'' where
  takes := h.takes.trans h'.takes
  tracks := h'.tracks
  main := h'.main.trans h.main
  load := by
    have hload := h.load
    have hload' := h'.load
    omega
  records := by
    rw [h'.records, h.records, Bench.startedTasks_append, List.map_append, List.append_assoc]

theorem mono (h : w.Runs b n K b' w') (hm : n ≤ m) : w.Runs b m K b' w' where
  takes := h.takes
  tracks := h.tracks
  main := h.main
  load := Nat.le_trans h.load (Nat.add_le_add_left hm _)
  records := h.records

/-- An event that starts no task. -/
theorem of_moves {e : Bench.Event (Task S ρ)} (h : b.Moves e b') (he : Bench.startedTasks [e] = [])
    (htracks : w'.Tracks b') (hmain : w'.main = w.main) (hload : b'.load ≤ b.load + n)
    (hrecords : w'.records = w.records) : w.Runs b n [e] b' w' where
  takes := h.takes
  tracks := htracks
  main := hmain
  load := hload
  records := by
    rw [he, World.startedPaths, hrecords, List.map_nil, List.append_nil]
    rfl

/-- What the world remembers of the answers does not matter. -/
theorem addAnswer (h : w.Runs b n K b' w') (record : Nat) (a : Answer S ρ) :
    w.Runs b n K b' (w'.addAnswer record a) where
  takes := h.takes
  tracks := h.tracks.congr rfl rfl
  main := h.main
  load := h.load
  records := by rw [World.startedPaths_addAnswer, h.records]

end World.Runs

theorem Bench.Free.congr {τ : Type} {b b' : Bench τ} (h : b.Free) (hdrains : b'.drains = b.drains) :
    b'.Free := by
  unfold Free
  rw [hdrains]
  exact h

/-- The world in which the commands of a task begin. -/
def World.begin (w : World S ρ) (p : Place) (t : Task S ρ) : World S ρ :=
  let w' := { w with records := w.records.push (w.startRecord p t) }
  match t.parcel with
  | some (g, guard) => w'.setGuard g (some guard)
  | none => w'

/-- The start of a task without a parcel adds a record. -/
theorem World.begin_of_parcel (w : World S ρ) (p : Place) {t : Task S ρ} (ht : t.parcel = none) :
    w.begin p t = { w with records := w.records.push (w.startRecord p t) } := by
  rw [World.begin, ht]

/-- How a command was answered that ended in a way. -/
def Answer.ofResult : Except SequenceFault (Answer S ρ) → Answer S ρ
  | .ok a => a
  | .error f => .failed f

/-- Takes a task, unless the runner is closed or has ended. -/
def Engine.post? (t : Task S ρ) : Engine S ρ → Option (Engine S ρ)
  | .manual m => (m.post? t).map .manual
  | .worker y th => (y.post? t).map (.worker · th)

namespace Machine

/-- Simple commands of a bounded weight are carried out by moves, and the drains are as before. -/
def Serves (run : Place → List Nat → Command S ρ → Machine S ρ (Answer S ρ)) (n : Nat) : Prop :=
  ∀ (k : Command S ρ) (path : List Nat) (w : World S ρ) (b : Bench (Task S ρ)),
    k.Simple → w.Tracks b → b.Free → 2 * k.weight + b.load ≤ n →
    (run .main path k).Ends w fun r w' => ∃ K b', w.Runs b (2 * k.weight - 1) K b' w' ∧
      b'.drains = b.drains ∧ k.Fits path r K

section

variable {run : Place → List Nat → Command S ρ → Machine S ρ (Answer S ρ)} {n record r : Nat}
  {w : World S ρ} {b : Bench (Task S ρ)} {path : List Nat} {m : Manual (Task S ρ)}

/-- A command that does not end its task is carried out, its answer is added, and the next one
comes. -/
theorem runFrom_cons {p : Place} {i : Nat} {c : Command S ρ} {rest : List (Command S ρ)}
    (hc : ∀ message, c ≠ .raise message) :
    runFrom run p record path i (c :: rest) = (do
      let a ← step run p (path ++ [i]) c
      Action.modify fun w => w.addAnswer record a
      runFrom run p record path (i + 1) rest) := by
  rw [runFrom]
  exact hc

/-- A step has an answer, also where its command fails. -/
theorem ends_step {p : Place} {c : Command S ρ}
    {Q : Except SequenceFault (Answer S ρ) → World S ρ → Prop} (h : (run p path c).Ends w Q) :
    (step run p path c).Ends w fun r w' => ∃ r', r = .ok (.ofResult r') ∧ Q r' w' := by
  refine ends_attempt_bind (h.imp ?_)
  intro r w' hr
  cases r with
  | ok a => exact ⟨.ok a, rfl, hr⟩
  | error f => exact ⟨.error f, rfl, hr⟩

/-- A task leaves the world that its commands leave. -/
theorem ends_runTask {p : Place} {t : Task S ρ} {Q : World S ρ → Prop}
    (h : (runFrom run p w.records.size t.path 0 t.body).Ends (w.begin p t) fun _ w' => Q w') :
    (runTask run p t).Ends w fun _ w' => Q w' := by
  have hrest : (do
      runFrom run p w.records.size t.path 0 t.body
      pure (((← Action.state).records[w.records.size]?).elim [] (·.answers.toList)) :
        Machine S ρ _).Ends (w.begin p t) fun _ w' => Q w' := by
    refine ends_bind (h.imp ?_)
    intro r w' hw'
    cases r with
    | ok _ => exact hw'
    | error _ => exact hw'
  obtain ⟨ticket, path, body, parcel⟩ := t
  cases parcel with
  | none => exact ends_modifyGet_bind hrest
  | some x => exact ends_modifyGet_bind (ends_modify_bind hrest)

/-- The commands of a task make one run, and their costs add up. -/
theorem Serves.runFrom (hrun : Serves run n) {body : List (Command S ρ)} {i : Nat}
    (hsimple : ∀ k ∈ body, k.Simple) (hw : w.Tracks b) (hfree : b.Free)
    (hn : 2 * Command.weights body + b.load ≤ n) :
    (runFrom run .main record path i body).Ends w fun _ w' => ∃ K b',
      w.Runs b (2 * Command.weights body) K b' w' ∧ b'.drains = b.drains := by
  induction body generalizing i w b with
  | nil => exact ⟨[], b, .refl hw, rfl⟩
  | cons c rest ih =>
    have hweights : Command.weights (c :: rest) = c.weight + Command.weights rest := by
      rw [Command.weights]
    rw [hweights] at hn ⊢
    have hsimple' := List.forall_mem_cons.1 hsimple
    by_cases hraise : ∃ message, c = .raise message
    · obtain ⟨message, rfl⟩ := hraise
      exact ⟨[], b, .refl hw, rfl⟩
    · rw [runFrom_cons fun message heq => hraise ⟨message, heq⟩]
      have hfirst := ends_step (hrun c (path ++ [i]) w b hsimple'.1 hw hfree (by omega))
      refine ends_bind (hfirst.imp ?_)
      intro r w₁ h
      obtain ⟨r', rfl, K, b₁, hruns, hdrains, -⟩ := h
      have hload := hruns.load
      have hruns₁ := hruns.addAnswer record (.ofResult r')
      refine ends_modify_bind ?_
      refine (ih hsimple'.2 hruns₁.tracks (hfree.congr hdrains) (by omega)).imp ?_
      intro _ w₂ h
      obtain ⟨K', b₂, hruns₂, hdrains'⟩ := h
      exact ⟨K' ++ K, b₂, hruns₁.trans hruns₂ (by omega), hdrains'.trans hdrains⟩

/-- The start of a task is remembered before its commands are carried out. -/
theorem Serves.runTask (hrun : Serves run n) {t : Task S ρ} (ht : t.Simple) (hw : w.Tracks b)
    (hfree : b.Free) (hn : t.load + b.load ≤ n + 1) :
    (runTask run .main t).Ends w fun _ w' => ∃ x K b', x.path = t.path ∧
      ({ w with records := w.records.push x } : World S ρ).Runs b (t.load - 1) K b' w' ∧
        b'.drains = b.drains := by
  obtain ⟨hbody, hparcel⟩ := ht
  have hbegin : (w.begin .main t).Tracks b := by
    rw [World.begin_of_parcel w .main hparcel]
    exact hw.congr rfl rfl
  have hload : t.load = 2 * Command.weights t.body + 1 := rfl
  refine ends_runTask ((hrun.runFrom hbody hbegin hfree (by omega)).imp ?_)
  rintro - w₁ ⟨K, b₁, hruns, hdrains⟩
  rw [World.begin_of_parcel w .main hparcel] at hruns
  exact ⟨_, K, b₁, rfl, hruns, hdrains⟩

/-- The first task of a queue is taken out of it. -/
theorem ends_takeTask (hw : w.Tracks b) (hm : b.runners[r]? = some m) :
    (takeTask r : Machine S ρ _).Ends w fun x w' =>
      (m.next? = none ∧ x = .ok none ∧ w' = w) ∨ ∃ t m', m.next? = some (t, m') ∧
        x = .ok (some t) ∧ w' = w.setEngine r (.manual m') := by
  have hengine : w.engine? r = some (.manual m) := by
    rw [hw.engine?, hm]
    rfl
  unfold Ends takeTask
  rw [run_modifyGet, hengine]
  cases hnext : m.next? with
  | none => exact .inl ⟨rfl, by simp [hnext], by simp [hnext]⟩
  | some x => exact .inr ⟨x.1, x.2, rfl, by simp [hnext], by simp [hnext]⟩

/-- A round of the loop starts a task, which runs and returns or fails.  Then the queue has less to
do. -/
theorem Serves.round (hrun : Serves run n) {d i : Nat} {ds : List Drain} {t : Task S ρ}
    {m' : Manual (Task S ρ)} (hw : w.Tracks b) (hd : b.drains = ⟨r, d, i, false⟩ :: ds)
    (hm : b.runners[r]? = some m) (hnext : m.next? = some (t, m')) (hn : b.load ≤ n) :
    (Machine.runTask run .main t).Ends (w.setEngine r (.manual m')) fun x w' => ∃ K b',
      w.Runs b 0 K b' w' ∧ b'.load < b.load ∧
        match x with
        | .ok _ => b'.drains = ⟨r, d, i + 1, false⟩ :: ds
        | .error _ => b'.drains = ⟨r, d, i, true⟩ :: ds := by
  have hload := Bench.load_next hm hnext
  have hwaiting : ∀ x ∈ t :: m'.queue.toList, x.Simple := by
    rw [← (Manual.toList_of_next? hnext).1, ← Bench.waiting_of_runner? hm]
    exact hw.simple r
  have htasks := List.forall_mem_cons.1 hwaiting
  have hstart := Bench.Moves.start hd hm hnext
  have hw₁ : (w.setEngine r (.manual m')).Tracks
      { b.set r m' with drains := ⟨r, d, i, true⟩ :: ds } := (hw.set hm htasks.2).congr rfl rfl
  have hfree : ({ b.set r m' with drains := ⟨r, d, i, true⟩ :: ds } : Bench _).Free := by
    intro x hx
    obtain rfl := Option.some.inj hx
    rfl
  have hload₁ : ({ b.set r m' with drains := ⟨r, d, i, true⟩ :: ds } : Bench _).load =
    (b.set r m').load := rfl
  refine (hrun.runTask htasks.1 hw₁ hfree (by omega)).imp ?_
  intro x w₂ h
  obtain ⟨x', K, b₂, hpath, hruns, hdrains⟩ := h
  have hpos : 0 < t.load := Nat.succ_pos _
  have hload₂ := hruns.load
  have hless : b₂.load < b.load := by omega
  have hruns' : w.Runs b 0 (K ++ [.started r d t]) b₂ w₂ := by
    refine ⟨hstart.takes.trans hruns.takes, hruns.tracks, hruns.main, by omega, ?_⟩
    rw [hruns.records, World.startedPaths_push, hpath, Bench.startedTasks_append,
      List.map_append, List.append_assoc]
    rfl
  cases x with
  | error e => exact ⟨_, b₂, hruns', hless, hdrains⟩
  | ok answers =>
    have hfinish := Bench.Moves.finish hdrains
    have hw₂ : w₂.Tracks { b₂ with drains := ⟨r, d, i + 1, false⟩ :: ds } :=
      hruns.tracks.congr rfl rfl
    have hruns₂ := hruns'.trans (m := 0)
      (.of_moves (n := 0) hfinish rfl hw₂ rfl (Nat.le_refl _) rfl) (Nat.le_refl _)
    exact ⟨_, _, hruns₂, hless, rfl⟩

/-- By induction on the bound for the number of rounds. -/
theorem Serves.drainManual (hrun : Serves run n) {d i bound : Nat} {ds : List Drain}
    (hw : w.Tracks b) (hd : b.drains = ⟨r, d, i, false⟩ :: ds) (hm : b.runners[r]? = some m)
    (hn : b.load ≤ n) (hbound : b.load < bound) :
    (drainManual run .main r bound).Ends w fun x w' => ∃ K b', w.Runs b 0 K b' w' ∧
      ((∃ j m', x = .ok j ∧ b'.drains = ⟨r, d, i + j, false⟩ :: ds ∧
          b'.runners[r]? = some m' ∧ m'.next? = none) ∨
        ∃ j e, x = .error e ∧ b'.drains = ⟨r, d, j, true⟩ :: ds) := by
  induction bound generalizing i w b m with
  | zero => exact absurd hbound (Nat.not_lt_zero _)
  | succ bound ih =>
    refine ends_bind ((ends_takeTask hw hm).imp ?_)
    intro x w₁ h
    cases h with
    | inl hidle =>
      obtain ⟨hnext, rfl, rfl⟩ := hidle
      exact ⟨[], b, .refl hw, .inl ⟨0, m, rfl, hd, hm, hnext⟩⟩
    | inr hbusy =>
      obtain ⟨t, m', hnext, rfl, rfl⟩ := hbusy
      refine ends_bind ((hrun.round hw hd hm hnext hn).imp ?_)
      intro x w₂ h
      obtain ⟨K, b₂, hruns, hless, hdrains⟩ := h
      cases x with
      | error e => exact ⟨K, b₂, hruns, .inr ⟨i, e, rfl, hdrains⟩⟩
      | ok answers =>
        obtain ⟨m₂, hm₂⟩ := hruns.takes.runner? hm
        refine ends_bind ((ih hruns.tracks hdrains hm₂ (by omega) (by omega)).imp ?_)
        intro x w₃ h
        obtain ⟨K', b₃, hruns₃, hend⟩ := h
        have hruns₄ := hruns.trans hruns₃ (Nat.le_refl _)
        cases hend with
        | inl hend =>
          obtain ⟨j, m₃, rfl, hdrains₃, hm₃, hnext₃⟩ := hend
          refine ⟨_, b₃, hruns₄, .inl ⟨j + 1, m₃, rfl, ?_, hm₃, hnext₃⟩⟩
          rw [hdrains₃, Nat.add_right_comm, Nat.add_assoc]
        | inr hend =>
          obtain ⟨j, e, rfl, hdrains₃⟩ := hend
          exact ⟨_, b₃, hruns₄, .inr ⟨j, e, rfl, hdrains₃⟩⟩

/-- The current sequence is left as it was. -/
theorem Serves.drainInScope (hrun : Serves run n) {q : SequenceId} {bound : Nat}
    (path : List Nat) (hw : w.Tracks b) (hfree : b.Free) (hm : b.runners[r]? = some m)
    (hn : b.load ≤ n) (hbound : b.load < bound) :
    (drainInScope run .main r q bound).Ends w fun x w' => ∃ K b', w.Runs b 0 K b' w' ∧
      b'.drains = b.drains ∧
        (Command.drain r : Command S ρ).Fits path (x.map (.done <| .count ·)) K := by
  have hbegin := Bench.Moves.begin hfree hm
  refine ends_modifyGet_bind (ends_attempt_bind ?_)
  have hw₁ : (w.setThread .main ((w.thread .main).enter q).2).Tracks
      { b with drains := { runner := r, number := b.next } :: b.drains, next := b.next + 1 } :=
    hw.congr rfl rfl
  refine (hrun.drainManual hw₁ rfl hm hn hbound).imp ?_
  intro x w₂ h
  obtain ⟨K, b₂, hruns, hend⟩ := h
  -- The drain left the thread as it found it, so its scope can be left.
  have hleave : (w₂.thread .main).leave ((w.thread .main).enter q).1 = .ok w.main := by
    show w₂.main.leave _ = _
    rw [hruns.main]
    show (if some q = some q then Except.ok w.main else _) = _
    exact if_pos rfl
  refine ends_state_bind ?_
  rw [hleave]
  refine ends_modify_bind ?_
  have hruns₂ : ∀ {e b'}, b₂.Moves e b' → b'.runners = b₂.runners →
      Bench.startedTasks [e] = [] →
      w.Runs b 0 ([e] ++ (K ++ [.begun r b.next])) b' (w₂.setThread .main w.main) := by
    intro e b' hmove hrunners he
    refine ⟨.step (hbegin.takes.trans hruns.takes) hmove, hruns.tracks.congr rfl hrunners, rfl,
      ?_, ?_⟩
    · have hload := hruns.load
      unfold Bench.load at hload ⊢
      rw [hrunners]
      exact hload
    · rw [Bench.startedTasks_append, Bench.startedTasks_append, he, List.append_nil]
      exact hruns.records
  cases hend with
  | inl hend =>
    obtain ⟨j, m', rfl, hdrains, hm', hnext⟩ := hend
    rw [Nat.zero_add] at hdrains
    exact ⟨_, _, hruns₂ (.stop hdrains hm' hnext) rfl rfl, rfl, .returned⟩
  | inr hend =>
    obtain ⟨j, e, rfl, hdrains⟩ := hend
    exact ⟨_, _, hruns₂ (.fail hdrains) rfl rfl, rfl, .broken⟩

/-- The runner that is there takes the task, or nothing happens. -/
theorem ends_postTask_cases {body : List (Command S ρ)} {parcel : Option (Nat × Guard S)} :
    (postTask r path body parcel : Machine S ρ _).Ends w fun x w' =>
      (∃ q, x = .ok (.error (.runnerShutDown q))) ∧ w' = w ∧
        (∀ e, w.engine? r = some e → e.post? ⟨w.nextTicket, path, body, parcel⟩ = none ∧
          x = .ok (.error (.runnerShutDown e.id))) ∨
      ∃ e e', x = .ok (.ok w.nextTicket) ∧ w.engine? r = some e ∧
        e.post? ⟨w.nextTicket, path, body, parcel⟩ = some e' ∧
        w' = { w.setEngine r e' with nextTicket := w.nextTicket + 1 } := by
  refine ends_state_bind ?_
  cases w.engine? r with
  | none => exact .inl ⟨⟨_, rfl⟩, rfl, nofun⟩
  | some e =>
    cases e with
    | manual m =>
      dsimp only
      split
      · next m' hpost => exact .inr ⟨_, _, rfl, rfl, congrArg (Option.map _) hpost, rfl⟩
      · next hpost =>
        refine .inl ⟨⟨_, rfl⟩, rfl, ?_⟩
        rintro _ ⟨⟩
        exact ⟨congrArg (Option.map _) hpost, rfl⟩
    | worker y th =>
      dsimp only
      split
      · next y' hpost => exact .inr ⟨_, _, rfl, rfl, congrArg (Option.map _) hpost, rfl⟩
      · next hpost =>
        refine .inl ⟨⟨_, rfl⟩, rfl, ?_⟩
        rintro _ ⟨⟩
        exact ⟨congrArg (Option.map _) hpost, rfl⟩

end

end Machine

/-! ## Whole programs -/

namespace Session

variable {program : List (Command S ρ)} {w : World S ρ} {b : Bench (Task S ρ)} {n i : Nat}

end Session

namespace Bench

variable {b : Bench (Task S ρ)} {H : List (Event (Task S ρ))}

end Bench

end EntityStore
