import EntityStore.Sequence.World

/-!
# Running programs

`execute` carries out one command, and `Session.ofProgram` a whole program.

A manual runner runs its tasks on the thread that drains it, inside a scope of its own.  A worker
runs its tasks when somebody waits for it: for one of its tasks, for its end, or at the end of the
program.  Until then they wait.  So a program has one outcome, which is the outcome on real threads
of every program that waits for a worker before it looks at what the worker did.

The journal is that of the main thread: what a worker reports is not kept.

Every command runs at most once, so the number of commands in a program bounds the steps of the
machine.  `SequenceFault.unbounded` would say that the bound was passed.
-/

namespace EntityStore

variable {S : Schema} {ρ : Type}

namespace Machine

/-! ## Small steps -/

/-- An action on a store that is not in the world.  The answer has the store that is left. -/
def onStore {α : Type} (s : Store S) (x : Action (Store S) Fault α) :
    Machine S ρ (α × Store S) := fun w =>
  let o := x s
  { result := (o.result.map (·, o.state)).mapError .store, state := w, reports := o.reports }

/-- An action on a guarded store in its place. -/
def onGuard {ε α : Type} (g : Nat) (guard : Guard S) (x : Action (Guard S) ε α) :
    Action (World S ρ) ε α := fun w =>
  let o := x guard
  { result := o.result, state := w.setGuard g (some o.state), reports := o.reports }

/-- An action whose reports are not kept. -/
def quietly {σ ε α : Type} (x : Action σ ε α) : Action σ ε α := fun s =>
  { x s with reports := [] }

/-- Takes a new sequence number. -/
def newId : Machine S ρ SequenceId :=
  Action.modifyGet fun w => (⟨w.nextId⟩, { w with nextId := w.nextId + 1 })

/-- Adds a runner.  The answer is its number. -/
def addRunner (x : Engine S ρ) : Machine S ρ Nat :=
  Action.modifyGet fun w => (w.cells.size, { w with cells := w.cells.push { engine := x } })

/-- Adds a guarded store in a new place.  The answer is its number. -/
def addGuard (x : Guard S) : Machine S ρ Nat :=
  Action.modifyGet fun w => (w.guards.size, w.addGuard x)

/-- The report of a task that was not taken. -/
def rejected (kind : String) (q : SequenceId) : Report :=
  { level := .warn
    message := "task posted to a " ++ kind ++ " sequence"
    fields := [("sequence", .text q.display)] }

/-- Posts a task.  The answer is its number, or the refusal. -/
def postTask (r : Nat) (path : List Nat) (body : List (Command S ρ))
    (parcel : Option (Nat × Guard S)) : Machine S ρ (Except SequenceError Nat) := do
  let w ← Action.state
  let task : Task S ρ := { ticket := w.nextTicket, path, body, parcel }
  let accepted (x : Engine S ρ) : Machine S ρ (Except SequenceError Nat) := do
    Action.modify fun w => { w.setEngine r x with nextTicket := w.nextTicket + 1 }
    pure (.ok task.ticket)
  let refused (kind : String) (q : SequenceId) : Machine S ρ (Except SequenceError Nat) := do
    Action.report (rejected kind q)
    pure (.error (.runnerShutDown q))
  match w.engine? r with
  | some (.manual m) =>
    match m.post? task with
    | some m' => accepted (.manual m')
    | none => refused "closed" m.id
  | some (.worker x t) =>
    match x.post? task with
    | some x' => accepted (.worker x' t)
    | none => refused "stopped" x.id
  | none => pure (.error (.runnerShutDown ⟨0⟩))

/-- The task of a runner that has waited longest, which waits no more. -/
def takeTask (r : Nat) : Machine S ρ (Option (Task S ρ)) :=
  Action.modifyGet fun w =>
    match w.engine? r with
    | some (.manual m) =>
      match m.next? with
      | some (task, m') => (some task, w.setEngine r (.manual m'))
      | none => (none, w)
    | some (.worker x t) =>
      match x.next? with
      | some (task, x') => (some task, w.setEngine r (.worker x' t))
      | none => (none, w)
    | none => (none, w)

/-- Does something inside a scope, which is left whether that returns or fails. -/
def inScope {α : Type} (p : Place) (q : SequenceId) (x : Machine S ρ α) : Machine S ρ α := do
  let scope ← Action.modifyGet fun w =>
    let (scope, t) := (w.thread p).enter q
    (scope, w.setThread p t)
  let result ← Action.attempt x
  let left := ((← Action.state).thread p).leave scope
  if let .ok t := left then
    Action.modify fun w => w.setThread p t
  match result, left with
  | .ok a, .ok _ => pure a
  | .ok _, .error f => Action.fail f
  | .error f, _ => Action.fail f

/-- Changes a worker. -/
def changeWorker (r : Nat) (f : Worker (Task S ρ) → Thread → Worker (Task S ρ)) :
    Machine S ρ Unit :=
  Action.modify fun w =>
    match w.engine? r with
    | some (.worker x t) => w.setEngine r (.worker (f x t) t)
    | _ => w

/-! ## Tasks

How a command is carried out is the parameter `run`, so that everything about tasks is said before
the commands that start them. -/

section

variable (run : Place → List Nat → Command S ρ → Machine S ρ (Answer S ρ))

/-- Carries out a command.  A failure is an answer. -/
def step (p : Place) (path : List Nat) (c : Command S ρ) : Machine S ρ (Answer S ρ) := do
  match ← Action.attempt (run p path c) with
  | .ok a => pure a
  | .error f => pure (.failed f)

/-- Carries out the commands of a task from a position on, and keeps their answers.  The command
`raise` ends the task. -/
def runFrom (p : Place) (record : Nat) (path : List Nat) :
    (position : Nat) → List (Command S ρ) → Machine S ρ Unit
  | _, [] => pure ()
  | _, .raise message :: _ => Action.fail (.raised message)
  | i, c :: rest => do
    let a ← step run p (path ++ [i]) c
    Action.modify fun w => w.addAnswer record a
    runFrom p record path (i + 1) rest

/-- Runs a task.  A guarded store that was moved into it is put back in its place first. -/
def runTask (p : Place) (t : Task S ρ) : Machine S ρ (List (Answer S ρ)) := do
  let record ← Action.modifyGet fun w =>
    (w.records.size, { w with records := w.records.push (w.startRecord p t) })
  if let some (g, guard) := t.parcel then
    Action.modify fun w => w.setGuard g (some guard)
  runFrom run p record t.path 0 t.body
  pure (((← Action.state).records[record]?).elim [] (·.answers.toList))

/-- Runs the tasks of a manual runner until none waits.  The answer is how many ran. -/
def drainManual (p : Place) (r : Nat) : (bound : Nat) → Machine S ρ Nat
  | 0 => Action.fail .unbounded
  | n + 1 => do
    match ← takeTask r with
    | none => pure 0
    | some task =>
      let _ ← runTask run p task
      let ran ← drainManual p r n
      pure (ran + 1)

/-- Runs the tasks of a manual runner inside a scope of its own. -/
def drainInScope (p : Place) (r : Nat) (q : SequenceId) (bound : Nat) : Machine S ρ Nat :=
  inScope p q (drainManual run p r bound)

/-- Runs the tasks of a worker until none waits, or until the task of a number ended.  The answer
is what that task answered, if it ended well. -/
def drainWorker (r : Nat) (target : Option Nat) :
    (bound : Nat) → Machine S ρ (Option (List (Answer S ρ)))
  | 0 => Action.fail .unbounded
  | n + 1 => do
    match ← takeTask r with
    | none => pure none
    | some task =>
      match ← Action.attempt (quietly (runTask run (.worker r) task)) with
      | .error _ =>
        changeWorker r fun x _ => x.fail
        pure none
      | .ok answers =>
        if target = some task.ticket then pure (some answers)
        else drainWorker r target n

/-- Closes a worker and waits for its end.  Work of its own sequence does not wait for it, and its
end is waited for only once, even if that fails because the end cannot come. -/
def shutDown (p : Place) (r : Nat) (bound : Nat) : Machine S ρ (Except SequenceError Unit) := do
  changeWorker r fun x _ => x.close
  let w ← Action.state
  match w.engine? r with
  | some (.worker x _) =>
    if w.current p = some x.id || x.joined then pure (.ok ())
    else
      changeWorker r fun x _ => { x with joined := true }
      Action.require (!w.neverEnds p r) .endNeverComes
      changeWorker r fun x _ => { x with joiner := p.worker? }
      let _ ← drainWorker run r none bound
      changeWorker r fun x t => x.stop t.current
      match (← Action.state).engine? r with
      | some (.worker x _) => pure x.outcome
      | _ => pure (.ok ())
  | _ => pure (.ok ())

/-- The report of a worker that turns out to have failed. -/
def workerLost (q : SequenceId) (e : SequenceError) : Report :=
  { level := .warn, message := e.message, fields := [("sequence", .text q.display)] }

/-- Shuts down a worker that nobody can reach any more. -/
def release (p : Place) (r : Nat) (bound : Nat) : Machine S ρ Unit := do
  let w ← Action.state
  match w.engine? r with
  | some (.worker x _) =>
    unless w.reachable r do
      if let .error e ← shutDown run p r bound then
        Action.report (workerLost x.id e)
  | _ => pure ()

/-- Waits for the task of a number, which waits at a worker.  The worker stays until then, even if
its handle is given up meanwhile. -/
def waitFor (p : Place) (r : Nat) (ticket : Nat) (bound : Nat) :
    Machine S ρ (Option (List (Answer S ρ))) := do
  Action.modify (·.changeWaiters r (· + 1))
  let answers ← drainWorker run r (some ticket) bound
  Action.modify (·.changeWaiters r (· - 1))
  release run p r bound
  pure answers

end

/-! ## Commands -/

/-- Ends with a reply. -/
def reply (r : Reply S ρ) : Machine S ρ (Answer S ρ) := pure (.done r)

/-- Goes on with something that may not be there. -/
def withSome {α : Type} (x : Option α) (f : α → Machine S ρ (Answer S ρ)) :
    Machine S ρ (Answer S ρ) :=
  match x with
  | some a => f a
  | none => pure .vacant

/-- Ends with nothing, or with a refusal. -/
def settle {α : Type} : Except SequenceError α → Machine S ρ (Answer S ρ)
  | .ok _ => reply .nothing
  | .error e => pure (.refused e)

/-- Uses a guarded store, after the check. -/
def access (p : Place) (g : Nat) (guard : Guard S) (via : Via)
    (operation : Action (Store S) Fault ρ) : Machine S ρ (Answer S ρ) := do
  let thread := (← Action.state).thread p
  let use (check : Action (Guard S) SequenceError Unit) : Machine S ρ (Answer S ρ) := do
    let x ← onGuard g guard do
      check.mapError .refused
      Guard.within (operation.mapError .store)
    reply (.operation x)
  match via with
  | .asserted => use (Guard.check thread.current)
  | .checked =>
    match (Guard.check thread.current guard).result with
    | .error e => pure (.refused e)
    | .ok () => use (Guard.check thread.current)
  | .token n => withSome thread.tokens[n]? fun q => use (Guard.checkToken q thread.current)

/-- Carries out a command at a place.  The path leads to the command, and the bound limits the
length of a drain. -/
def perform (run : Place → List Nat → Command S ρ → Machine S ρ (Answer S ρ)) (bound : Nat)
    (p : Place) (path : List Nat) (c : Command S ρ) (w : World S ρ) (thread : Thread) :
    Machine S ρ (Answer S ρ) :=
  match c with
  | .nextId => do reply (.id (← newId))
  | .compareIds a b => reply (.compared (a = b) (a < b))
  | .current => reply (.current thread.current)
  | .threadName => reply (.threadName thread.name)
  | .enterScope q => do
    let (kept, t) := thread.enterKept q
    Action.modify fun w => w.setThread p t
    reply (.scope kept.1 kept.2)
  | .leaveScope i => withSome (thread.scope? i) fun s => do
    Action.modify fun w => w.setThread p (thread.forget i)
    let t ← Action.query fun _ => (thread.forget i).leave s
    Action.modify fun w => w.setThread p t
    reply (.current t.current)
  | .mintToken => do
    let (token, t) := thread.mint
    Action.modify fun w => w.setThread p t
    reply (.token token)
  | .inspectToken i => withSome thread.tokens[i]? fun q =>
    reply (.tokenState q (thread.current = some q))
  | .newManual => do
    let q ← newId
    reply (.runner (← addRunner (.manual { id := q })) q none)
  | .spawnWorker naming => do
    let q ← newId
    let name := naming q
    Action.require (!name.toList.contains '\x00') (.nullInName name)
    let r ← addRunner (.worker { id := q, name } { name := some name, current := some q })
    reply (.runner r q (some name))
  | .inspectRunner r => withSome (w.held? r) fun
    | .manual m => reply (.manualState m.id (thread.current = some m.id) m.pending m.debug)
    | .worker x _ => reply (.workerState x.id (thread.current = some x.id) x.name x.debug)
  | .post r body => withSome (w.held? r) fun _ => do settle (← postTask r path body none)
  | .runAndWait r body => withSome (w.held? r) fun x => do
    Action.require (thread.current ≠ some x.id) (.waitsForItself x.id)
    match x with
    | .manual m => pure (.refused (.blockingWaitUnsupported m.id))
    | .worker x _ =>
      match ← postTask r path body none with
      | .error e => pure (.refused e)
      | .ok ticket =>
        match ← waitFor run p r ticket bound with
        | some answers => reply (.steps answers)
        | none => pure (.refused (.taskAbandoned x.id))
  | .drain r => withSome (w.held? r) fun
    | .manual m => do reply (.count (← drainInScope run p r m.id bound))
    | .worker .. => pure .vacant
  | .close r => withSome (w.held? r) fun
    | .manual m => do
      Action.modify fun w => w.setEngine r (.manual m.close)
      reply .nothing
    | .worker .. => pure .vacant
  | .shutDown r => withSome (w.held? r) fun _ => do settle (← shutDown run p r bound)
  | .dropRunner r => withSome (w.held? r) fun _ => do
    Action.modify (·.giveUp r)
    release run p r bound
    reply .nothing
  | .newGuard r => withSome (w.held? r) fun x => do
    reply (.guarded (← addGuard { home := ⟨r, x.id⟩ }) none)
  | .guardStore r setup => withSome (w.held? r) fun x => do
    let (answer, store) ← onStore {} setup
    reply (.guarded (← addGuard { home := ⟨r, x.id⟩, store }) (some answer))
  | .inspectGuard g => withSome (w.guard? g) fun x =>
    reply (.guardState (thread.current = some x.home.sequence) x)
  | .access g via operation => withSome (w.guard? g) fun x => access p g x via operation
  | .resetOrCreate g name e c v => withSome (w.guard? g) fun x => do
    let v ← onGuard g x (Guard.resetOrCreate thread.current name e c v)
    reply (.value c v)
  | .transfer g r => withSome (w.guard? g) fun x => withSome (w.held? r) fun target => do
    let y := x.transfer ⟨r, target.id⟩
    Action.report (Guard.handedOff x.home.sequence target.id)
    Action.modify fun w => w.setGuard g none
    release run p x.home.runner bound
    Action.modify fun w => w.setGuard g (some y)
    reply (.affinity y.bound)
  | .takeOut g => withSome (w.guard? g) fun x => do
    Action.modify fun w => w.setGuard g none
    release run p x.home.runner bound
    reply (.store x.store)
  | .postGuard g body => withSome (w.guard? g) fun x => do
    Action.modify fun w => w.setGuard g none
    match ← postTask x.home.runner path body (some (g, x)) with
    | .ok _ => reply .nothing
    | .error e =>
      release run p x.home.runner bound
      pure (.refused e)
  | .explain e => reply (.text e.message)
  | .raise message => Action.fail (.raised message)

end Machine

/-- Carries out a command at a place.  The bound limits the depth of tasks inside tasks and the
length of a drain. -/
def execute : (bound : Nat) → Place → List Nat → Command S ρ → Machine S ρ (Answer S ρ)
  | 0 => fun _ _ _ => Action.fail .unbounded
  | n + 1 => fun p path c => do
    let w ← Action.state
    Machine.perform (execute n) n p path c w (w.thread p)

/-! ## Programs -/

/-- What is left of a runner at the end of a program. -/
inductive Ending where
  /-- Its handle was given up. -/
  | dropped
  /-- A manual runner with the number of tasks that wait. -/
  | waiting (n : Nat)
  /-- A worker, and what the wait for its end learned. -/
  | joined (outcome : Except SequenceError Unit)

/-- A program that was carried out. -/
structure Session (S : Schema) (ρ : Type) where
  /-- The answers of the commands, each with the reports of the main thread. -/
  answers : List (Answer S ρ × List Report)
  /-- The tasks that were started, in the order of their paths. -/
  records : List (Record S ρ)
  /-- What is left of the runners. -/
  endings : List Ending

namespace Session

/-- Carries out commands on the main thread from a position on. -/
def runFrom (bound : Nat) :
    (position : Nat) → List (Command S ρ) → World S ρ → List (Answer S ρ × List Report) × World S ρ
  | _, [], w => ([], w)
  | i, c :: rest, w =>
    let o := Machine.step (execute bound) .main [i] c w
    let answer : Answer S ρ :=
      match o.result with
      | .ok a => a
      | .error f => .failed f
    let (answers, w) := runFrom bound (i + 1) rest o.state
    ((answer, o.reports) :: answers, w)

/-- Ends a runner.  A worker runs the tasks that still wait, and one whose handle is there is shut
down first. -/
def endRunner (bound : Nat) (w : World S ρ) (r : Nat) : Ending × World S ρ :=
  let finish (w : World S ρ) : World S ρ :=
    (Machine.drainWorker (execute bound) r none bound w).state
  match w.engine? r, (w.held? r).isSome with
  | some (.manual m), true => (.waiting m.pending, w)
  | some (.worker ..), true =>
    let o := Machine.shutDown (execute bound) .main r bound w
    (.joined (o.result.toOption.getD (.ok ())), finish o.state)
  | some (.worker ..), false => (.dropped, finish w)
  | _, _ => (.dropped, w)

/-- Ends the runners from a number on, at most `n` of them.  The tasks that a worker still runs may
add runners, which are ended in their turn. -/
def endRunners (bound : Nat) : (n : Nat) → (r : Nat) → World S ρ → List Ending × World S ρ
  | 0, _, w => ([], w)
  | n + 1, r, w =>
    if r < w.cells.size then
      let (x, w) := endRunner bound w r
      let (xs, w) := endRunners bound n (r + 1) w
      (x :: xs, w)
    else ([], w)

/-- Carries out a program.  At its end all runners are ended, in order. -/
def ofProgram (program : List (Command S ρ)) : Session S ρ :=
  let bound := 2 * Command.weights program + 2
  let (answers, w) := runFrom bound 0 program {}
  let (endings, w) := endRunners bound bound 0 w
  { answers
    endings
    records := w.records.toList.mergeSort fun a b => pathLE a.path b.path }

end Session

end EntityStore
