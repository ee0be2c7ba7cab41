import EntityStore.Proofs.Custody
import EntityStore.Proofs.Tokens

/-!
# Scopes and drains inside each other

A thread has one current sequence and no stack.  A scope makes its sequence current and keeps the
one before, and a drain does the same around the tasks that it runs.

A `Block` is code that enters scopes around other code only, so each is left whether that code
returns or fails.  The commands of tasks stand for blocks as well (`Block.carry`), so there are
scopes and drains inside tasks, to any depth.  A task whose block fails for good has `raise` for its
next command.

`Block.runOn` carries a block out on a stack instead.  The scopes and drains that are open are a
list, and the marker is written from its head: before every command, before every task of a drain,
and at the end of every scope.  Nothing is kept and nothing is checked.  The machine comes to the
same outcome with its single marker (`Block.well_nested`).  So at every point what is current is
what the innermost open scope or drain made current, and no scope is ever left in the wrong order.
-/

namespace EntityStore

open EntityStore.Action

variable {S : Schema} {ρ : Type}

/-! ## Commands of blocks -/

/-- Whether a command leaves it to blocks to open and close scopes, and waits for no worker. -/
def Command.Tame : Command S ρ → Prop
  | .enterScope _ | .leaveScope _ | .runAndWait .. | .shutDown _ | .dropRunner _ | .transfer ..
  | .takeOut _ | .postGuard .. => False
  | _ => True

/-! ## What does not move the marker -/

/-- The sequence that is current at a place is the same as before, and so are the sequences of all
runners. -/
structure World.Stays (w : World S ρ) (p : Place) (w' : World S ρ) : Prop where
  /-- The place has a thread. -/
  thread : w'.HasThread p
  /-- The same sequence is current. -/
  current : w'.current p = w.current p
  /-- The runners keep their sequences. -/
  ids : ∀ i x, w.engine? i = some x → ∃ y, w'.engine? i = some y ∧ y.id = x.id

namespace World.Stays

variable {w w' w'' : World S ρ} {p : Place} {i : Nat} {x y : Engine S ρ} {t : Thread}

theorem refl (h : w.HasThread p) : w.Stays p w := ⟨h, rfl, fun _ x hx => ⟨x, hx, rfl⟩⟩

/-- What stays through one part and through the next one stays. -/
theorem trans (h : w.Stays p w') (h' : w'.Stays p w'') : w.Stays p w'' where
  thread := h'.thread
  current := h'.current.trans h.current
  ids i x hx := by
    obtain ⟨y, hy, hid⟩ := h.ids i x hx
    obtain ⟨z, hz, hid'⟩ := h'.ids i y hy
    exact ⟨z, hz, hid'.trans hid⟩

/-- The threads and the runners are as they were. -/
theorem aside (h : w.Stays p w') (hmain : w''.main = w'.main) (hcells : w''.cells = w'.cells) :
    w.Stays p w'' := by
  have hengine : w''.engine? = w'.engine? := by
    funext i
    rw [engine?, engine?, hcells]
  have hthread : w''.thread p = w'.thread p := by
    cases p with
    | main => exact hmain
    | worker r => rw [World.thread, World.thread, hcells]
  refine ⟨?_, ?_, fun i x hx => hengine ▸ h.ids i x hx⟩
  · cases p with
    | main => trivial
    | worker r =>
      obtain ⟨y, t, hy⟩ := h.thread
      exact ⟨y, t, (congrFun hengine r).trans hy⟩
  · rw [World.current, hthread]
    exact h.current

/-- What a thread remembers does not change the sequences of runners. -/
theorem ids_setThread (p : Place) (t : Thread) (hx : w.engine? i = some x) :
    ∃ y, (w.setThread p t).engine? i = some y ∧ y.id = x.id := by
  rcases engine?_setThread p t i with heq | ⟨y, u, hy, heq⟩
  · exact ⟨x, heq.trans hx, rfl⟩
  · cases hx.symm.trans hy
    exact ⟨_, heq, rfl⟩

/-- The thread changes but for the current sequence. -/
theorem setThread (h : w.Stays p w') (ht : t.current = w'.current p) :
    w.Stays p (w'.setThread p t) where
  thread := hasThread_setThread h.thread
  current := by
    rw [World.current, thread_setThread h.thread, ht]
    exact h.current
  ids i x hx := by
    obtain ⟨y, hy, hid⟩ := h.ids i x hx
    obtain ⟨z, hz, hid'⟩ := ids_setThread p t hy
    exact ⟨z, hz, hid'.trans hid⟩

/-- A runner is made. -/
theorem push (h : w.Stays p w') (c : Cell S ρ) :
    w.Stays p { w' with cells := w'.cells.push c } where
  thread := by
    cases p with
    | main => trivial
    | worker r =>
      obtain ⟨y, t, hy⟩ := h.thread
      exact ⟨y, t, engine?_push hy c⟩
  current := by
    rw [← h.current]
    cases p with
    | main => rfl
    | worker r =>
      obtain ⟨y, t, hy⟩ := h.thread
      rw [World.current, World.current, thread_of_engine? hy, thread_of_engine? (engine?_push hy c)]
  ids i x hx := by
    obtain ⟨y, hy, hid⟩ := h.ids i x hx
    exact ⟨y, engine?_push hy c, hid⟩

/-- A runner changes. -/
theorem setEngine (h : w.Stays p w') (hx : w'.engine? i = some x) (hxy : x.Keeps y) :
    w.Stays p (w'.setEngine i y) := by
  have hengine (j : Nat) := engine?_setEngine (j := j) (y := y) hx
  have hplace : (w'.setEngine i y).HasThread p ∧
      (w'.setEngine i y).thread p = w'.thread p := by
    cases p with
    | main => exact ⟨trivial, rfl⟩
    | worker r =>
      obtain ⟨z, t, hz⟩ := h.thread
      by_cases hir : i = r
      · subst hir
        cases hx.symm.trans hz
        cases hxy with
        | @worker _ z' _ _ =>
          exact ⟨⟨z', t, by rw [hengine, if_pos rfl]⟩, thread_setEngine hx⟩
      · have hr : (w'.setEngine i y).engine? r = some (.worker z t) := by
          rw [hengine, if_neg hir, hz]
        exact ⟨⟨z, t, hr⟩, by rw [thread_of_engine? hr, thread_of_engine? hz]⟩
  refine ⟨hplace.1, ?_, fun j z hz => ?_⟩
  · rw [World.current, hplace.2]
    exact h.current
  · obtain ⟨z', hz', hid'⟩ := h.ids j z hz
    rw [hengine]
    split
    · next hij =>
      subst hij
      cases hx.symm.trans hz'
      exact ⟨y, rfl, hxy.id_eq.trans hid'⟩
    · exact ⟨z', hz', hid'⟩

end World.Stays

/-! ## Commands -/

namespace Machine

variable {run : Place → List Nat → Command S ρ → Machine S ρ (Answer S ρ)} {p : Place}
  {w : World S ρ} {path : List Nat} {n r bound : Nat} {k : Command S ρ}

/-- What an action does leaves the current sequence of a place as it is. -/
def Rests {α : Type} (p : Place) (x : Machine S ρ α) : Prop :=
  ∀ w, w.HasThread p → x.Ends w fun _ w' => w.Stays p w'

theorem Rests.pure {α : Type} (a : α) : Rests p (Pure.pure a : Machine S ρ α) :=
  fun _ hw => .refl hw

theorem Rests.fail {α : Type} (f : SequenceFault) : Rests p (Action.fail f : Machine S ρ α) :=
  fun _ hw => .refl hw

/-- An action rests if its parts do. -/
theorem Rests.bind {α β : Type} {x : Machine S ρ α} {f : α → Machine S ρ β} (hx : Rests p x)
    (hf : ∀ a, Rests p (f a)) : Rests p (x >>= f) := by
  intro w hw
  refine ends_bind ((hx w hw).imp ?_)
  intro r w₁ hstays
  cases r with
  | error e => exact hstays
  | ok a => exact (hf a w₁ hstays.thread).imp fun _ _ hstays' => hstays.trans hstays'

theorem Rests.attempt {α : Type} {x : Machine S ρ α} (hx : Rests p x) :
    Rests p (Action.attempt x : Machine S ρ (Except SequenceFault α)) := hx

/-- An action that looks at the world first rests if it rests in each world. -/
theorem Rests.state_bind {α : Type} {f : World S ρ → Machine S ρ α}
    (hf : ∀ w, w.HasThread p → (f w).Ends w fun _ w' => w.Stays p w') :
    Rests p (Action.state >>= f) := fun w hw => ends_state_bind (hf w hw)

theorem Rests.modify {f : World S ρ → World S ρ}
    (hf : ∀ w : World S ρ, w.HasThread p → w.Stays p (f w)) : Rests p (Action.modify f) := hf

theorem Rests.modifyGet {α : Type} {f : World S ρ → α × World S ρ}
    (hf : ∀ w : World S ρ, w.HasThread p → w.Stays p (f w).2) : Rests p (Action.modifyGet f) := hf

/-- To post a task changes a queue only. -/
theorem rests_postTask {body : List (Command S ρ)} {parcel : Option (Nat × Guard S)} :
    Rests p (postTask r path body parcel : Machine S ρ _) := by
  intro w hw
  refine ends_postTask_cases.imp ?_
  rintro x w' (⟨-, rfl, -⟩ | ⟨e, e', -, he, hpost, rfl⟩)
  · exact .refl hw
  · exact ((World.Stays.refl hw).setEngine he (Engine.keeps_of_post? hpost)).aside rfl rfl

/-- To take a task changes a queue only. -/
theorem rests_takeTask : Rests p (takeTask r : Machine S ρ _) := by
  intro w hw
  refine ends_takeTask_cases.imp ?_
  rintro x w' (⟨-, rfl, -⟩ | ⟨e, e', t, -, rfl, he, -, hkeeps, -⟩)
  · exact .refl hw
  · exact (World.Stays.refl hw).setEngine he hkeeps

end Machine

/-! ## Scopes -/

namespace World

variable {w w' : World S ρ} {p : Place} {q : SequenceId}

/-- The world in a scope of a sequence. -/
def enter (w : World S ρ) (p : Place) (q : SequenceId) : World S ρ :=
  w.setThread p ((w.thread p).enter q).2

theorem hasThread_enter (hw : w.HasThread p) : (w.enter p q).HasThread p := hasThread_setThread hw

/-- In a scope its sequence is current. -/
theorem current_enter (hw : w.HasThread p) : (w.enter p q).current p = some q := by
  rw [enter, current, thread_setThread hw]
  rfl

/-- The thread after a scope that was entered in a world. -/
def back (w : World S ρ) (p : Place) (w' : World S ρ) : Thread :=
  { w'.thread p with current := w.current p }

/-- What leaves the marker of a scope alone lets the scope be left. -/
theorem Stays.leave (h : (w.enter p q).Stays p w') (hw : w.HasThread p) :
    (w'.thread p).leave ⟨q, w.current p⟩ = .ok (w.back p w') ∧
      w.Stays p (w'.setThread p (w.back p w')) := by
  have hcurrent : (w'.thread p).current = some q := h.current.trans (current_enter hw)
  refine ⟨if_pos hcurrent, hasThread_setThread h.thread, ?_, fun i x hx => ?_⟩
  · show ((w'.setThread p (w.back p w')).thread p).current = _
    rw [thread_setThread h.thread]
    rfl
  · obtain ⟨y, hy, hid⟩ := Stays.ids_setThread p ((w.thread p).enter q).2 hx
    obtain ⟨z, hz, hid'⟩ := h.ids i y hy
    obtain ⟨z', hz', hid''⟩ := Stays.ids_setThread p (w.back p w') hz
    exact ⟨z', hz', hid''.trans (hid'.trans hid)⟩

end World

/-- The start of a task changes records and guarded stores only. -/
theorem World.Stays.begin {w : World S ρ} {p : Place} (hw : w.HasThread p) (t : Task S ρ) :
    w.Stays p (w.begin p t) := by
  unfold World.begin
  cases t.parcel with
  | none => exact (World.Stays.refl hw).aside rfl rfl
  | some x => exact (World.Stays.refl hw).aside rfl rfl

namespace Machine

variable {run : Place → List Nat → Command S ρ → Machine S ρ (Answer S ρ)} {p : Place}
  {w : World S ρ} {path : List Nat} {n r bound record : Nat} {q : SequenceId}
  {body : List (Command S ρ)} {t : Task S ρ} {k : Command S ρ} {α : Type} {x : Machine S ρ α}

/-- A scope whose code leaves its marker alone is left in the end, and the code says how it ends. -/
theorem run_inScope (hw : w.HasThread p)
    (hx : x.Ends (w.enter p q) fun _ w' => (w.enter p q).Stays p w') :
    (inScope p q x).run w = { x.run (w.enter p q) with
      state := (x.run (w.enter p q)).state.setThread p
        (w.back p (x.run (w.enter p q)).state) } := by
  have hleave : ((x.run (w.enter p q)).state.thread p).leave ((w.thread p).enter q).1 =
    .ok (w.back p (x.run (w.enter p q)).state) := (World.Stays.leave hx hw).1
  have henter : w.setThread p ((w.thread p).enter q).2 = w.enter p q := rfl
  simp only [inScope, run_bind, run_modifyGet, run_attempt, run_state, henter, hleave]
  cases (x.run (w.enter p q)).result with
  | ok a => simp
  | error f => simp

/-- A scope leaves the marker as it was, whether its code returns or panics. -/
theorem Rests.inScope (hx : Rests p x) (q : SequenceId) : Rests p (inScope p q x) := by
  intro w hw
  have hstays := hx _ (World.hasThread_enter (q := q) hw)
  show w.Stays p ((Machine.inScope p q x).run w).state
  rw [run_inScope hw hstays]
  exact (World.Stays.leave hstays hw).2

/-! ## Guarded stores -/

theorem stays_onGuard {ε : Type} {g : Nat} {guard : Guard S} {x : Action (Guard S) ε α}
    (hw : w.HasThread p) : (onGuard g guard x).Ends w fun _ w' => w.Stays p w' :=
  (World.Stays.refl hw).aside rfl rfl

/-- To use a guarded store changes that store only. -/
theorem rests_access {g : Nat} {guard : Guard S} {via : Via}
    {operation : Action (Store S) Fault ρ} : Rests p (access p g guard via operation) := by
  refine .state_bind fun w hw => ?_
  have huse : ∀ check : Action (Guard S) SequenceError Unit,
      (do reply (.operation (← Machine.onGuard g guard do
        check.mapError .refused
        Guard.within (operation.mapError .store))) : Machine S ρ _).Ends w
          fun _ w' => w.Stays p w' := by
    intro check
    refine ends_bind ((stays_onGuard hw).imp ?_)
    intro r w' hstays
    cases r with
    | ok a => exact hstays
    | error f => exact hstays
  cases via with
  | asserted => exact huse _
  | checked =>
    dsimp only
    split
    · exact .refl hw
    · exact huse _
  | token n => exact ends_withSome_of (.refl hw) fun _ _ => huse _

/-! ## Drains -/

section

variable (hrun : ∀ path k, Rests p (run p path k))

include hrun

/-- A step rests if its command does. -/
theorem Rests.step (k : Command S ρ) : Rests p (step run p path k) := by
  refine (hrun path k).attempt.bind fun r => ?_
  cases r with
  | ok a => exact .pure a
  | error f => exact .pure _

/-- A list of commands rests, by induction on the list. -/
theorem Rests.runFrom : Rests p (runFrom run p record path n body) := by
  induction body generalizing n with
  | nil => exact .pure ()
  | cons k rest ih =>
    by_cases hraise : ∃ message, k = .raise message
    · obtain ⟨message, rfl⟩ := hraise
      exact .fail _
    · rw [runFrom_cons fun message heq => hraise ⟨message, heq⟩]
      refine (Rests.step hrun k).bind fun a => ?_
      have hanswer : Rests p (Action.modify fun w : World S ρ => w.addAnswer record a) :=
        .modify fun w hw => (World.Stays.refl hw).aside rfl rfl
      exact hanswer.bind fun _ => ih

/-- A task rests, since its commands do. -/
theorem Rests.runTask (t : Task S ρ) : Rests p (runTask run p t) := by
  intro w hw
  have hbegin := World.Stays.begin hw t
  refine ends_runTask ((Rests.runFrom hrun _ hbegin.thread).imp ?_)
  exact fun _ _ hstays => hbegin.trans hstays

/-- The tasks of a drain rest, by induction on their number. -/
theorem Rests.drainManual : Rests p (drainManual run p r bound) := by
  induction bound with
  | zero => exact .fail _
  | succ bound ih =>
    refine rests_takeTask.bind fun task => ?_
    cases task with
    | none => exact .pure 0
    | some t => exact (Rests.runTask hrun t).bind fun _ => ih.bind fun ran => .pure _

/-! ## Tame commands -/

/-- By cases on the command: what it changes is none of the marker, and a drain runs in a scope. -/
theorem Rests.perform (hk : k.Tame) (hw : w.HasThread p) :
    (perform run bound p path k w (w.thread p)).Ends w fun _ w' => w.Stays p w' := by
  have hnewId : w.Stays p { w with nextId := w.nextId + 1 } :=
    (World.Stays.refl hw).aside rfl rfl
  have haddGuard (x : Guard S) : w.Stays p (w.addGuard x) := (World.Stays.refl hw).aside rfl rfl
  cases k with
  | nextId => exact ends_modifyGet_bind hnewId
  | mintToken =>
    have hmint : (w.thread p).mint.2.current = w.current p := by
      unfold Thread.mint
      split <;> rfl
    exact ends_modify_bind ((World.Stays.refl hw).setThread hmint)
  | inspectToken i => exact ends_withSome_of (.refl hw) fun _ _ => .refl hw
  | newManual => exact ends_modifyGet_bind (ends_modifyGet_bind (hnewId.push _))
  | spawnWorker naming =>
    refine ends_modifyGet_bind ?_
    refine ends_require_bind (fun _ => hnewId) fun _ => ?_
    exact ends_modifyGet_bind (hnewId.push _)
  | inspectRunner i =>
    refine ends_withSome_of (.refl hw) fun x _ => ?_
    cases x with
    | manual m => exact .refl hw
    | worker y t => exact .refl hw
  | post i body =>
    refine ends_withSome_of (.refl hw) fun _ _ => ?_
    refine rests_postTask.bind (fun r => ?_) w hw
    cases r with
    | ok a => exact .pure _
    | error e => exact .pure _
  | drain i =>
    refine ends_withSome_of (.refl hw) fun x _ => ?_
    cases x with
    | manual m =>
      have hdrain : Rests p (Machine.drainInScope run p i m.id bound) :=
        (Rests.drainManual hrun).inScope m.id
      exact hdrain.bind (fun _ => .pure _) w hw
    | worker y t => exact .refl hw
  | close i =>
    refine ends_withSome_of (.refl hw) fun x hx => ?_
    cases x with
    | manual m =>
      exact ends_modify_bind
        ((World.Stays.refl hw).setEngine (engine?_of_held? hx) (.manual rfl))
    | worker y t => exact .refl hw
  | newGuard i =>
    exact ends_withSome_of (.refl hw) fun x _ => ends_modifyGet_bind (haddGuard _)
  | guardStore i setup =>
    refine ends_withSome_of (.refl hw) fun x _ => ?_
    have hset : (onStore {} setup : Machine S ρ _).Ends w fun _ w' => w' = w := rfl
    refine ends_bind (hset.imp ?_)
    rintro r w' rfl
    cases r with
    | ok a => exact ends_modifyGet_bind (haddGuard _)
    | error f => exact .refl hw
  | inspectGuard g => exact ends_withSome_of (.refl hw) fun _ _ => .refl hw
  | access g via operation =>
    exact ends_withSome_of (.refl hw) fun x _ => rests_access w hw
  | resetOrCreate g name e c v =>
    refine ends_withSome_of (.refl hw) fun x _ => ends_bind ((stays_onGuard hw).imp ?_)
    intro r w' hstays
    cases r with
    | ok a => exact hstays
    | error f => exact hstays
  | compareIds | current | threadName | explain | raise => exact .refl hw
  | _ => exact hk.elim

end

end Machine

/-! ## Blocks -/

/-- Code that enters scopes and leaves them in well-nested order. -/
inductive Block (S : Schema) (ρ : Type) where
  /-- Carry out a command. -/
  | does (k : Command S ρ) (tame : k.Tame)
  /-- Go on with the answer. -/
  | andThen (x : Block S ρ) (f : Answer S ρ → Block S ρ)
  /-- Do something in a scope of a sequence. -/
  | scope (q : SequenceId) (x : Block S ρ)
  /-- Make a failure an answer. -/
  | guarded (x : Block S ρ)

namespace Block

/-- Carries out a block at a place.  How the commands of tasks are carried out is a parameter. -/
def run (carry : Place → List Nat → Command S ρ → Machine S ρ (Answer S ρ)) (bound : Nat)
    (p : Place) (path : List Nat) : Block S ρ → Machine S ρ (Answer S ρ)
  | .does k _ => do
    let w ← Action.state
    Machine.perform carry bound p path k w (w.thread p)
  | .andThen x f => do
    let a ← x.run carry bound p path
    (f a).run carry bound p path
  | .scope q x => Machine.inScope p q (x.run carry bound p path)
  | .guarded x => do
    match ← Action.attempt (x.run carry bound p path) with
    | .ok a => pure a
    | .error f => pure (.failed f)

/-- Carries out the block that a command of a task stands for.  The bound limits the depth of tasks
inside tasks and the length of a drain. -/
def carry (meaning : List Nat → Command S ρ → Block S ρ) :
    (bound : Nat) → Place → List Nat → Command S ρ → Machine S ρ (Answer S ρ)
  | 0 => fun _ _ _ => Action.fail .unbounded
  | n + 1 => fun p path k => (meaning path k).run (carry meaning n) n p path

end Block

namespace Machine

variable {carried : Place → List Nat → Command S ρ → Machine S ρ (Answer S ρ)} {p : Place}

/-- By induction on the block: what it enters it leaves, whether it returns or fails. -/
theorem Rests.block (hrun : ∀ path k, Rests p (carried p path k)) (bound : Nat) (path : List Nat)
    (x : Block S ρ) : Rests p (x.run carried bound p path) := by
  induction x with
  | does k tame => exact .state_bind fun w hw => Rests.perform hrun tame hw
  | andThen x f ihx ihf => exact ihx.bind fun a => ihf a
  | scope q x ih => exact ih.inScope q
  | guarded x ih =>
    refine ih.attempt.bind fun r => ?_
    cases r with
    | ok a => exact .pure a
    | error f => exact .pure _

/-- By induction on the bound: the commands of tasks stand for blocks too. -/
theorem Rests.carry (meaning : List Nat → Command S ρ → Block S ρ) (n : Nat) (path : List Nat)
    (k : Command S ρ) : Rests p (Block.carry meaning n p path k) := by
  induction n generalizing path k with
  | zero => exact .fail _
  | succ n ih => exact .block ih n path (meaning path k)

end Machine

/-! ## The stack that the machine does not keep -/

/-- The sequence of the innermost scope of a list, or the one around them all. -/
def innermost (s : List SequenceId) (outer : Option SequenceId) : Option SequenceId :=
  s.head?.or outer

/-- The world in which a sequence, or none, is current at a place. -/
def World.mark (w : World S ρ) (p : Place) (q : Option SequenceId) : World S ρ :=
  w.setThread p { w.thread p with current := q }

namespace Machine

/-- Does something with a sequence on top of a stack.  The sequence below, or none, is on top again
after that, however it ends. -/
def onTop {α : Type} (p : Place) (q : SequenceId) (below : Option SequenceId)
    (x : Machine S ρ α) : Machine S ρ α := do
  Action.modify (·.mark p (some q))
  let result ← Action.attempt x
  Action.modify (·.mark p below)
  match result with
  | .ok a => pure a
  | .error f => Action.fail f

section

variable (carried : List SequenceId → Place → List Nat → Command S ρ → Machine S ρ (Answer S ρ))
  (outer : Option SequenceId) (p : Place)

/-- Runs the tasks of a manual runner until none waits.  Each of them starts with the sequence of
the runner, whatever the ones before made of the marker. -/
def drainOn (s : List SequenceId) (r : Nat) (q : SequenceId) : (bound : Nat) → Machine S ρ Nat
  | 0 => Action.fail .unbounded
  | n + 1 => do
    match ← takeTask r with
    | none => pure 0
    | some task =>
      Action.modify (·.mark p (some q))
      let _ ← runTask (carried (q :: s)) p task
      let ran ← drainOn s r q n
      pure (ran + 1)

/-- Carries out a command where scopes and drains of a list are open, the innermost first.  The
command is given the sequence of the first one, and a drain puts its own before the list. -/
def performOn (bound : Nat) (path : List Nat) (s : List SequenceId) (k : Command S ρ) :
    Machine S ρ (Answer S ρ) := do
  Action.modify (·.mark p (innermost s outer))
  let w ← Action.state
  match k with
  | .drain r => withSome (w.held? r) fun
    | .manual m => do
      let ran ← onTop p m.id (innermost s outer) (drainOn carried p s r m.id bound)
      reply (.count ran)
    | .worker .. => pure .vacant
  | k => perform (carried s) bound p path k w (w.thread p)

end

end Machine

namespace Block

end Block

/-! ## The marker is the top of the stack -/

/-- What is current already is not changed by being made current. -/
theorem World.mark_current {w : World S ρ} {p : Place} (hw : w.HasThread p) :
    w.mark p (w.current p) = w := by
  cases p with
  | main => rfl
  | worker r =>
    obtain ⟨x, t, hr⟩ := hw
    obtain ⟨c, hc, hx⟩ := Option.map_eq_some_iff.1 hr
    obtain ⟨held, waiters, engine⟩ := c
    subst hx
    have hcells : (w.mark (.worker r) (w.current (.worker r))).cells = w.cells := by
      refine Array.ext_getElem? fun i => ?_
      show (w.cells.modify r _)[i]? = _
      rw [Array.getElem?_modify]
      split
      · next hri =>
        subst hri
        rw [hc, World.current, World.thread_of_engine? hr]
        rfl
      · rfl
    show ({ w with cells := _ } : World S ρ) = w
    exact congrArg (fun cells => ({ w with cells } : World S ρ)) hcells

namespace Machine

variable {p : Place} {q : SequenceId} {o : Option SequenceId} {w : World S ρ} {α β : Type}
  {x y : Machine S ρ α}

/-- Wherever a sequence, or none, is current, two actions have the same outcome. -/
def AgreeAt (p : Place) (o : Option SequenceId) (x y : Machine S ρ α) : Prop :=
  ∀ w, w.HasThread p → w.current p = o → x.run w = y.run w

theorem AgreeAt.refl (x : Machine S ρ α) : AgreeAt p o x x := fun _ _ _ => rfl

/-- What comes after agrees where what comes before leaves the marker alone. -/
theorem AgreeAt.bind {f g : α → Machine S ρ β} (hxy : AgreeAt p o x y) (hx : Rests p x)
    (hfg : ∀ a, AgreeAt p o (f a) (g a)) : AgreeAt p o (x >>= f) (y >>= g) := by
  intro w hw ho
  have hstays : w.Stays p (x.run w).state := hx w hw
  rw [run_bind, run_bind, ← hxy w hw ho]
  cases (x.run w).result with
  | error e => rfl
  | ok a =>
    dsimp only
    rw [hfg a _ hstays.thread (hstays.current.trans ho)]

theorem AgreeAt.attempt (hxy : AgreeAt p o x y) :
    AgreeAt p o (Action.attempt x : Machine S ρ (Except SequenceFault α)) (Action.attempt y) := by
  intro w hw ho
  rw [run_attempt, run_attempt, hxy w hw ho]

/-- To write what is current anyway does nothing. -/
theorem AgreeAt.mark (hxy : AgreeAt p o x y) :
    AgreeAt p o x (Action.modify (·.mark p o) >>= fun _ => y) := by
  intro w hw ho
  have hmark : w.mark p o = w := by rw [← ho, World.mark_current hw]
  rw [run_bind, run_modify, hmark]
  exact hxy w hw ho

/-- Actions that look at the world first agree if they do in each world. -/
theorem AgreeAt.state_bind {f g : World S ρ → Machine S ρ α}
    (hfg : ∀ w, w.HasThread p → w.current p = o → (f w).run w = (g w).run w) :
    AgreeAt p o (Action.state >>= f) (Action.state >>= g) := by
  intro w hw ho
  rw [run_bind, run_bind, run_state]
  dsimp only
  rw [hfg w hw ho]

theorem AgreeAt.withSome {v : Option β} {f g : β → Machine S ρ (Answer S ρ)}
    (hfg : ∀ b, AgreeAt p o (f b) (g b)) : AgreeAt p o (withSome v f) (withSome v g) := by
  cases v with
  | none => exact .refl _
  | some b => exact hfg b

/-- A scope around code that agrees with other code on top of a stack. -/
theorem AgreeAt.inScope (hxy : AgreeAt p (some q) x y) (hx : Rests p x) :
    AgreeAt p o (inScope p q x) (onTop p q o y) := by
  intro w hw ho
  have henter : (w.enter p q).HasThread p := World.hasThread_enter hw
  have hrun : y.run (w.mark p (some q)) = x.run (w.enter p q) :=
    (hxy _ henter (World.current_enter hw)).symm
  rw [run_inScope hw (hx _ henter), World.back, ho]
  simp only [onTop, run_bind, run_modify, run_attempt, hrun]
  cases (x.run (w.enter p q)).result with
  | ok a => simp [World.mark]
  | error f => simp [World.mark]

variable {run run' : Place → List Nat → Command S ρ → Machine S ρ (Answer S ρ)}
  {path : List Nat} {n r bound record : Nat}

section

variable (hrests : ∀ path k, Rests p (run p path k))
  (hrun : ∀ path k, AgreeAt p o (run p path k) (run' p path k))

include hrests hrun

/-- Steps agree if their commands do. -/
theorem AgreeAt.step (k : Command S ρ) : AgreeAt p o (step run p path k) (step run' p path k) :=
  (hrun path k).attempt.bind (hrests path k).attempt fun _ => .refl _

/-- Lists of commands agree, by induction on the list. -/
theorem AgreeAt.runFrom (body : List (Command S ρ)) :
    AgreeAt p o (runFrom run p record path n body) (runFrom run' p record path n body) := by
  induction body generalizing n with
  | nil => exact .refl _
  | cons k rest ih =>
    by_cases hraise : ∃ message, k = .raise message
    · obtain ⟨message, rfl⟩ := hraise
      exact .refl _
    · have hk : ∀ message, k ≠ .raise message := fun message heq => hraise ⟨message, heq⟩
      rw [runFrom_cons hk, runFrom_cons hk]
      refine (AgreeAt.step hrests hrun k).bind (Rests.step hrests k) fun a => ?_
      have hanswer : Rests p (Action.modify fun w : World S ρ => w.addAnswer record a) :=
        .modify fun w hw => (World.Stays.refl hw).aside rfl rfl
      exact (AgreeAt.refl _).bind hanswer fun _ => ih

/-- Tasks agree, since their commands do. -/
theorem AgreeAt.runTask (t : Task S ρ) : AgreeAt p o (runTask run p t) (runTask run' p t) := by
  have hstart : Rests p (Action.modifyGet fun w : World S ρ =>
      (w.records.size, { w with records := w.records.push (w.startRecord p t) })) :=
    .modifyGet fun w hw => (World.Stays.refl hw).aside rfl rfl
  have hbody (record : Nat) : AgreeAt p o
      (do
        Machine.runFrom run p record t.path 0 t.body
        pure (((← Action.state).records[record]?).elim [] (·.answers.toList)))
      (do
        Machine.runFrom run' p record t.path 0 t.body
        pure (((← Action.state).records[record]?).elim [] (·.answers.toList))) :=
    (AgreeAt.runFrom hrests hrun t.body).bind (Rests.runFrom hrests) fun _ => .refl _
  unfold Machine.runTask
  refine (AgreeAt.refl _).bind hstart fun record => ?_
  cases t.parcel with
  | none => exact hbody record
  | some x =>
    have hparcel : Rests p (Action.modify fun w : World S ρ => w.setGuard x.1 (some x.2)) :=
      .modify fun w hw => (World.Stays.refl hw).aside rfl rfl
    exact (AgreeAt.refl _).bind hparcel fun _ => hbody record

end

/-! ### Drains and commands -/

/-- A tame command that is no drain runs no task. -/
theorem perform_congr {k : Command S ρ} {thread : Thread} (hk : k.Tame)
    (hdrain : ∀ r, k ≠ .drain r) :
    perform run bound p path k w thread = perform run' bound p path k w thread := by
  cases k with
  | drain r => exact (hdrain r rfl).elim
  | enterScope | leaveScope | runAndWait | shutDown | dropRunner | transfer | takeOut | postGuard =>
    exact hk.elim
  | _ => rfl

section

variable {carried : List SequenceId → Place → List Nat → Command S ρ → Machine S ρ (Answer S ρ)}
  {outer : Option SequenceId} {s : List SequenceId} {k : Command S ρ}
  (hrests : ∀ path k, Rests p (run p path k))
  (hrun : ∀ s path k, AgreeAt p (innermost s outer) (run p path k) (carried s p path k))

include hrests hrun

/-- By induction on the bound: the tasks before leave the marker alone, so each starts with the
sequence of the runner. -/
theorem AgreeAt.drain :
    AgreeAt p (some q) (drainManual run p r n) (drainOn carried p s r q n) := by
  induction n with
  | zero => exact .refl _
  | succ n ih =>
    refine (AgreeAt.refl _).bind rests_takeTask fun task => ?_
    cases task with
    | none => exact .refl _
    | some t =>
      have htask : AgreeAt p (some q) (Machine.runTask run p t)
          (Machine.runTask (carried (q :: s)) p t) :=
        AgreeAt.runTask hrests (hrun (q :: s)) t
      exact (htask.bind (Rests.runTask hrests t) fun _ =>
        ih.bind (Rests.drainManual hrests) fun _ => .refl _).mark

/-- A tame command comes to the same on the stack, by cases on whether it is a drain. -/
theorem AgreeAt.perform (hk : k.Tame) :
    AgreeAt p (innermost s outer)
      (Action.state >>= fun w => Machine.perform run bound p path k w (w.thread p))
      (performOn carried outer p bound path s k) := by
  refine AgreeAt.mark (AgreeAt.state_bind fun w hw ho => ?_)
  by_cases hdrain : ∃ r, k = .drain r
  · obtain ⟨r, rfl⟩ := hdrain
    refine AgreeAt.withSome (fun x => ?_) w hw ho
    cases x with
    | manual m =>
      have hdrain : AgreeAt p (innermost s outer) (Machine.drainInScope run p r m.id bound)
          (onTop p m.id (innermost s outer) (drainOn carried p s r m.id bound)) :=
        (AgreeAt.drain hrests hrun).inScope (Rests.drainManual hrests)
      exact hdrain.bind ((Rests.drainManual hrests).inScope m.id) fun _ => .refl _
    | worker y t => exact .refl _
  · have hne : ∀ r, k ≠ .drain r := fun r heq => hdrain ⟨r, heq⟩
    have hsame : Machine.perform run bound p path k w (w.thread p) =
        Machine.perform (carried s) bound p path k w (w.thread p) := perform_congr hk hne
    rw [hsame]
    split
    · exact (hne _ rfl).elim
    · rfl

end

end Machine

namespace Block

open Machine

variable {carry : Place → List Nat → Command S ρ → Machine S ρ (Answer S ρ)}
  {carried : List SequenceId → Place → List Nat → Command S ρ → Machine S ρ (Answer S ρ)}
  {outer : Option SequenceId} {p : Place} {s : List SequenceId} {bound : Nat} {path : List Nat}

end Block

end EntityStore
