import EntityStore.Proofs.Settling
import EntityStore.Sequence.Machine

/-!
# What a direct command does

A command is *direct* if it starts no task, gives up no runner and moves no guarded store out of its
place.  Such a command leaves the runners and the guarded stores as they are, adds one of them, lets
work through to a guarded store, or hands one over (`World.Does`).  The check before an access lets
work through exactly if the sequence is current that the check expects (`Guard.expected`).
-/

namespace EntityStore

open EntityStore.Action

variable {S : Schema} {ρ : Type}

/-! ## The check -/

namespace Guard

variable {G : Guard S} {current : Option SequenceId} {q : SequenceId}

/-- The sequence that the check expects. -/
def expected (G : Guard S) : SequenceId := G.bound.getD G.home.sequence

/-- The check refuses when the sequence that it expects is not current, and binds nothing. -/
theorem run_check_of_ne (h : current ≠ some G.expected) :
    (check current : Action (Guard S) SequenceError Unit).run G =
      { result := .error (.wrongSequence G.expected current), state := G } := by
  unfold expected at h ⊢
  simp [check, run_bind, require, h]

/-- The check lets work through when the sequence that it expects is current, and the store is bound
to that then. -/
theorem check_of_eq (h : current = some G.expected) :
    (check current).Ends G fun r G' => r = .ok () ∧ G' = { G with bound := some G.expected } := by
  subst h
  obtain ⟨home, bound, store⟩ := G
  cases bound with
  | none => simp [Ends, check, run_bind, require, expected]
  | some b => simp [Ends, check, run_bind, require, expected]

/-- A token is refused when its sequence is not current, before the check comes to the binding. -/
theorem run_checkToken_of_ne (h : current ≠ some q) :
    (checkToken q current : Action (Guard S) SequenceError Unit).run G =
      { result := .error (.staleToken q current), state := G } := by
  simp [checkToken, run_bind, require, h]

/-- The token of the current sequence makes no difference. -/
theorem checkToken_self :
    (checkToken q (some q) : Action (Guard S) SequenceError Unit) = check (some q) := by
  ext1 G
  simp [checkToken, require]

end Guard

/-! ## Runners and guarded stores -/

namespace World

variable {w : World S ρ} {p : Place} {r x : Nat} {g h : Nat} {t : Thread} {G : Guard S}
  {o : Option (Guard S)}

/-- The sequence of a runner whose handle was not given up. -/
def sequence? (w : World S ρ) (r : Nat) : Option SequenceId := (w.held? r).map Engine.id

theorem sequence?_eq (w : World S ρ) (r : Nat) :
    w.sequence? r = w.cells[r]?.bind fun c => if c.held then some c.engine.id else none := by
  unfold sequence? held?
  cases w.cells[r]? with
  | none => rfl
  | some c =>
    show Option.map Engine.id (if c.held then some c.engine else none) = _
    cases hc : c.held <;> simp [hc]

/-- A change of a cell that keeps its sequence. -/
theorem sequence?_modify {f : Cell S ρ → Cell S ρ}
    (hf : ∀ c, (f c).held = c.held ∧ (f c).engine.id = c.engine.id) :
    ({ w with cells := w.cells.modify x f } : World S ρ).sequence? = w.sequence? := by
  funext r
  rw [sequence?_eq, sequence?_eq]
  show ((w.cells.modify x f)[r]?).bind _ = _
  rw [Array.getElem?_modify]
  split
  · cases w.cells[r]? with
    | none => rfl
    | some c =>
      show (if (f c).held then some (f c).engine.id else none) = _
      rw [(hf c).1, (hf c).2]
      rfl
  · rfl

/-- What a thread remembers says nothing about the runners. -/
theorem sequence?_setThread : (w.setThread p t).sequence? = w.sequence? := by
  cases p with
  | main => rfl
  | worker x =>
    refine sequence?_modify fun c => ?_
    obtain ⟨held, waiters, engine⟩ := c
    cases engine with
    | manual m => exact ⟨rfl, rfl⟩
    | worker y u => exact ⟨rfl, rfl⟩

theorem guards_setThread : (w.setThread p t).guards = w.guards := by
  cases p with
  | main => rfl
  | worker x => rfl

theorem nextId_setThread : (w.setThread p t).nextId = w.nextId := by
  cases p with
  | main => rfl
  | worker x => rfl

/-- There are no runners but those that were made. -/
theorem sequence?_of_size_le (hr : w.cells.size ≤ r) : w.sequence? r = none := by
  rw [sequence?_eq, Array.getElem?_eq_none hr]
  rfl

/-- A new runner has its sequence, and the others keep theirs. -/
theorem sequence?_push (y : Engine S ρ) :
    ({ w with cells := w.cells.push { engine := y } } : World S ρ).sequence? =
      Function.update w.sequence? w.cells.size (some y.id) := by
  funext r
  rw [sequence?_eq]
  show ((w.cells.push { engine := y })[r]?).bind _ = _
  rw [Array.getElem?_push, Function.update_apply]
  split
  · rfl
  · exact (sequence?_eq w r).symm

/-- A write to the place of one guarded store leaves the others as they are. -/
theorem guard?_setGuard_of_ne (hgh : h ≠ g) : (w.setGuard g o).guard? h = w.guard? h := by
  unfold guard? setGuard
  rw [Array.getElem?_setIfInBounds_ne hgh.symm]

theorem lt_size_of_guard? (hG : w.guard? g = some G) : g < w.guards.size := by
  unfold guard? at hG
  by_contra hlt
  rw [Array.getElem?_eq_none (by omega)] at hG
  cases hG

/-- What was written to a place is found there. -/
theorem guard?_setGuard_self (hg : g < w.guards.size) : (w.setGuard g o).guard? g = o := by
  unfold guard? setGuard
  rw [Array.getElem?_setIfInBounds_self_of_lt hg]
  cases o <;> rfl

/-- Of two writes to a place the second one counts. -/
theorem setGuard_setGuard {o' : Option (Guard S)} :
    (w.setGuard g o).setGuard g o' = w.setGuard g o' := by
  simp [setGuard]

/-- To write to a place what is there changes nothing. -/
theorem setGuard_eq_self (hG : w.guard? g = some G) : w.setGuard g (some G) = w := by
  have hlt := lt_size_of_guard? hG
  have hget : w.guards[g] = some G := by
    unfold guard? at hG
    rw [Array.getElem?_eq_getElem hlt] at hG
    exact hG
  unfold setGuard
  rw [Array.setIfInBounds_def, dif_pos hlt, ← hget, Array.set_getElem_self]

/-- A new guarded store comes last, and the others stay where they are. -/
theorem guard?_addGuard : (w.addGuard G).guard? h =
    if h = w.guards.size then some G else w.guard? h := by
  unfold guard? addGuard
  rw [Array.getElem?_push]
  split
  · rfl
  · rfl

/-- A runner whose handle was not given up can be reached. -/
theorem reachable_of_sequence? {q : SequenceId} (hr : w.sequence? r = some q) :
    w.reachable r = true := by
  rw [sequence?_eq, Option.bind_eq_some_iff] at hr
  obtain ⟨c, hc, hq⟩ := hr
  have hheld : c.held = true := by
    by_contra hnot
    rw [if_neg hnot] at hq
    cases hq
  simp [reachable, hc, hheld]

end World

/-! ## Direct commands -/

/-- Whether a command starts no task, gives up no runner and moves no guarded store out of its
place. -/
def Command.Direct : Command S ρ → Prop
  | .post .. | .runAndWait .. | .drain _ | .close _ | .shutDown _ | .dropRunner _ | .takeOut _
  | .postGuard .. => False
  | _ => True

/-- Whether a command uses a guarded store through its check. -/
def Command.Uses (g : Nat) : Command S ρ → Prop
  | .access h _ _ | .resetOrCreate h _ _ _ _ => h = g
  | _ => False

/-- The number of the token that a command shows, if it shows one. -/
def Command.token? : Command S ρ → Option Nat
  | .access _ (.token n) _ => some n
  | _ => none

/-- How a command ends whose check refuses it. -/
def Command.refusal : Command S ρ → SequenceError → Except SequenceFault (Answer S ρ)
  | .access _ .checked _, e => .ok (.refused e)
  | _, e => .error (.refused e)

/-- Whether a command hands a guarded store to another runner. -/
def Command.HandsOver (g : Nat) : Command S ρ → Prop
  | .transfer h _ => h = g
  | _ => False

/-- Whether a command got through all checks.  An operation on a store that fails comes after the
check. -/
def passed : Except SequenceFault (Answer S ρ) → Bool
  | .ok (.done _) | .error (.store _) => true
  | _ => false

/-- What comes of a command on a thread that uses a guarded store whose check expects a sequence.
If work got through, the store was used, and else everything is the same as before. -/
inductive Command.Tries (k : Command S ρ) (t : Thread) (q : SequenceId)
    (r : Except SequenceFault (Answer S ρ)) (used same : Prop) : Prop where
  /-- The sequence that is expected is current, and the token is of that sequence. -/
  | through (hcurrent : t.current = some q)
      (htoken : ∀ n, k.token? = some n → t.tokens[n]? = t.current) (hr : passed r = true)
      (hused : used)
  /-- Another sequence is current, and the token is of that sequence. -/
  | wrong (hcurrent : t.current ≠ some q)
      (htoken : ∀ n, k.token? = some n → t.tokens[n]? = t.current)
      (hr : r = k.refusal (.wrongSequence q t.current)) (hsame : same)
  /-- The sequence of the token is not current. -/
  | stale {n : Nat} {p : SequenceId} (hk : k.token? = some n) (htoken : t.tokens[n]? = some p)
      (hcurrent : t.current ≠ some p) (hr : r = k.refusal (.staleToken p t.current))
      (hsame : same)
  /-- There is no such token. -/
  | vacant {n : Nat} (hk : k.token? = some n) (htoken : t.tokens[n]? = none)
      (hr : r = .ok .vacant) (hsame : same)

/-- What comes of a command may be told more weakly. -/
theorem Command.Tries.imp {k : Command S ρ} {t : Thread} {q : SequenceId}
    {r : Except SequenceFault (Answer S ρ)} {used used' same same' : Prop}
    (h : k.Tries t q r used same) (hused : used → used') (hsame : same → same') :
    k.Tries t q r used' same' := by
  cases h with
  | through hcurrent htoken hr h => exact .through hcurrent htoken hr (hused h)
  | wrong hcurrent htoken hr h => exact .wrong hcurrent htoken hr (hsame h)
  | stale hk htoken hcurrent hr h => exact .stale hk htoken hcurrent hr (hsame h)
  | vacant hk htoken hr h => exact .vacant hk htoken hr (hsame h)

namespace World

/-- What comes of a command at a place that uses a guarded store of the world. -/
def Tries (w : World S ρ) (p : Place) (g : Nat) (G : Guard S) (k : Command S ρ)
    (r : Except SequenceFault (Answer S ρ)) (w' : World S ρ) : Prop :=
  k.Tries (w.thread p) G.expected r
    (∃ s, w' = w.setGuard g (some { G with bound := some G.expected, store := s })) (w' = w)

/-- What a direct command at a place can do to the runners and the guarded stores. -/
inductive Does (w : World S ρ) (p : Place) (k : Command S ρ)
    (r : Except SequenceFault (Answer S ρ)) (w' : World S ρ) : Prop where
  /-- It leaves them as they are.  If it got through, it is not about a guarded store. -/
  | idle (hk : passed r = true → ∀ g, ¬ k.Uses g ∧ ¬ k.HandsOver g)
      (hsequence : w'.sequence? = w.sequence?) (hguards : w'.guards = w.guards)
      (hnext : w.nextId ≤ w'.nextId)
  /-- It adds a runner with a new sequence. -/
  | runner (hk : ∀ g, ¬ k.Uses g ∧ ¬ k.HandsOver g)
      (hsequence : w'.sequence? =
        Function.update w.sequence? w.cells.size (some ⟨w.nextId⟩))
      (hguards : w'.guards = w.guards) (hnext : w'.nextId = w.nextId + 1)
  /-- It adds a guarded store, which is not bound. -/
  | guard {x : Nat} {q : SequenceId} {s : Store S} (hk : ∀ g, ¬ k.Uses g ∧ ¬ k.HandsOver g)
      (hx : w.sequence? x = some q) (hw : w' = w.addGuard { home := ⟨x, q⟩, store := s })
  /-- It lets work through to a guarded store, which is bound then. -/
  | use {g : Nat} {G : Guard S} {s : Store S} (hk : k.Uses g) (hpassed : passed r = true)
      (hG : w.guard? g = some G) (hcurrent : w.current p = some G.expected)
      (hw : w' = w.setGuard g (some { G with bound := some G.expected, store := s }))
  /-- It hands a guarded store over to a runner, and the store is not bound then. -/
  | handOver {g x : Nat} {G : Guard S} {q : SequenceId} (hk : k.HandsOver g)
      (hpassed : passed r = true) (hG : w.guard? g = some G) (hx : w.sequence? x = some q)
      (hw : w' = w.setGuard g (some (G.transfer ⟨x, q⟩)))

end World

namespace Machine

variable {w : World S ρ} {p : Place} {g x n : Nat} {G : Guard S} {path : List Nat}
  {k : Command S ρ} {α : Type}

/-- A command that ends where it began. -/
theorem does_of_eq {r : Except SequenceFault (Answer S ρ)}
    (hk : passed r = true → ∀ g, ¬ k.Uses g ∧ ¬ k.HandsOver g) : w.Does p k r w :=
  .idle hk rfl rfl (Nat.le_refl _)

/-- A command that changes the thread of its place only. -/
theorem does_of_setThread {r : Except SequenceFault (Answer S ρ)} {t : Thread}
    (hk : ∀ g, ¬ k.Uses g ∧ ¬ k.HandsOver g) : w.Does p k r (w.setThread p t) :=
  .idle (fun _ => hk) World.sequence?_setThread World.guards_setThread
    (Nat.le_of_eq World.nextId_setThread.symm)

/-! ### Access -/

/-- An operation on a guarded store, after the check. -/
def checked (check : Action (Guard S) SequenceError Unit) (y : Action (Store S) Fault α) :
    Action (Guard S) SequenceFault α := do
  check.mapError .refused
  Guard.within (y.mapError .store)

/-- Where the check refuses, nothing changes. -/
theorem run_checked_of_error {check : Action (Guard S) SequenceError Unit}
    {y : Action (Store S) Fault α} {e : SequenceError}
    (hG : w.guard? g = some G) (hcheck : check.run G = { result := .error e, state := G }) :
    (onGuard g G (checked check y) : Action (World S ρ) SequenceFault α).run w =
      { result := .error (.refused e), state := w } := by
  have hrun : (checked check y).run G = { result := .error (.refused e), state := G } := by
    simp [checked, run_bind, hcheck, Except.mapError]
  show ({ result := ((checked check y).run G).result,
          state := w.setGuard g (some ((checked check y).run G).state),
          reports := ((checked check y).run G).reports } : Outcome _ _ _) = _
  rw [hrun, World.setGuard_eq_self hG]

/-- Where the check lets work through, the operation runs on the store inside. -/
theorem ends_checked_of_ok {check : Action (Guard S) SequenceError Unit}
    {y : Action (Store S) Fault α} {G' : Guard S}
    (hcheck : check.Ends G fun r G'' => r = .ok () ∧ G'' = G') :
    (onGuard g G (checked check y) : Action (World S ρ) SequenceFault α).Ends w fun r w' =>
      r = (y.run G'.store).result.mapError .store ∧
        w' = w.setGuard g (some { G' with store := (y.run G'.store).state }) := by
  obtain ⟨hr, rfl⟩ := hcheck
  have hmap : ((check.mapError SequenceFault.refused).run G).result = .ok () := by
    rw [run_mapError, hr]
    rfl
  obtain ⟨hresult, hstate⟩ := run_bind_of_ok (fun _ => Guard.within (y.mapError .store)) hmap
  exact ⟨hresult, congrArg (fun H => w.setGuard g (some H)) hstate⟩

/-- A command whose check refuses it fails with that and changes nothing. -/
theorem ends_use_of_error {check : Action (Guard S) SequenceError Unit}
    {y : Action (Store S) Fault α} {f : α → Reply S ρ} {e : SequenceError}
    (hG : w.guard? g = some G) (hcheck : check.run G = { result := .error e, state := G }) :
    (onGuard g G (checked check y) >>= fun a => reply (f a)).Ends w fun r w' =>
      r = .error (.refused e) ∧ w' = w := by
  have hrun := run_checked_of_error (y := y) hG hcheck
  obtain ⟨hresult, hstate⟩ :=
    run_bind_of_error (fun a => reply (f a)) (congrArg Outcome.result hrun)
  exact ⟨hresult, hstate.trans (congrArg Outcome.state hrun)⟩

/-- A command whose check lets it through uses the store, whether or not the operation fails there.
-/
theorem ends_use_of_ok {check : Action (Guard S) SequenceError Unit}
    {y : Action (Store S) Fault α} {f : α → Reply S ρ} {G' : Guard S}
    (hcheck : check.Ends G fun r G'' => r = .ok () ∧ G'' = G') :
    (onGuard g G (checked check y) >>= fun a => reply (f a)).Ends w fun r w' =>
      passed r = true ∧ ∃ s, w' = w.setGuard g (some { G' with store := s }) := by
  refine ends_bind ((ends_checked_of_ok hcheck).imp ?_)
  intro r w' h
  obtain ⟨rfl, rfl⟩ := h
  cases (y.run G'.store).result with
  | ok a => exact ⟨rfl, _, rfl⟩
  | error f => exact ⟨rfl, _, rfl⟩

section Tries

variable {y : Action (Store S) Fault α} {f : α → Reply S ρ} (hG : w.guard? g = some G)
  (htoken : ∀ n, k.token? = some n → (w.thread p).tokens[n]? = w.current p)
include htoken

/-- Where the sequence that is expected is current, a command gets through. -/
theorem tries_of_eq (hcurrent : w.current p = some G.expected) :
    (onGuard g G (checked (Guard.check (w.current p)) y) >>= fun a => reply (f a)).Ends w
      (w.Tries p g G k) := by
  refine (ends_use_of_ok (Guard.check_of_eq hcurrent)).imp ?_
  intro r w' h
  obtain ⟨hr, s, hw⟩ := h
  exact .through hcurrent htoken hr ⟨s, hw⟩

include hG

/-- A command without a token gets through or is refused by the check alone. -/
theorem tries_check (hrefusal : ∀ e, k.refusal e = .error (.refused e)) :
    (onGuard g G (checked (Guard.check (w.current p)) y) >>= fun a => reply (f a)).Ends w
      (w.Tries p g G k) := by
  by_cases hcurrent : w.current p = some G.expected
  · exact tries_of_eq htoken hcurrent
  · refine (ends_use_of_error hG (Guard.run_check_of_ne hcurrent)).imp ?_
    intro r w' h
    obtain ⟨rfl, rfl⟩ := h
    exact .wrong hcurrent htoken (hrefusal _).symm rfl

end Tries

/-- A command that uses a guarded store gets through, or is refused and changes nothing. -/
theorem tries_execute (hk : k.Uses g) (hG : w.guard? g = some G) :
    (execute (n + 1) p path k).Ends w (w.Tries p g G k) := by
  show Ends (Action.state >>= _) w _
  refine ends_state_bind ?_
  cases k with
  | access h via operation =>
    obtain rfl : h = g := hk
    show Ends (withSome (w.guard? h) _) w _
    rw [hG]
    show Ends (access p h G via operation) w _
    refine ends_state_bind ?_
    cases via with
    | asserted => exact tries_check hG nofun fun _ => rfl
    | checked =>
      dsimp only
      by_cases hcurrent : w.current p = some G.expected
      · have hcheck : (Guard.check (w.thread p).current G).result = .ok () :=
          (Guard.check_of_eq hcurrent).1
        rw [hcheck]
        exact tries_of_eq nofun hcurrent
      · have hcheck : Guard.check (w.thread p).current G = _ := Guard.run_check_of_ne hcurrent
        rw [hcheck]
        exact .wrong hcurrent nofun rfl rfl
    | token n =>
      show Ends (withSome (w.thread p).tokens[n]? fun q =>
        onGuard h G (checked (Guard.checkToken q (w.current p)) operation) >>= fun a =>
          reply (.operation a)) w _
      cases hn : (w.thread p).tokens[n]? with
      | none => exact .vacant rfl hn rfl rfl
      | some q =>
        by_cases hq : w.current p = some q
        · have htoken : ∀ i, (Command.access h (.token n) operation : Command S ρ).token? = some i →
              (w.thread p).tokens[i]? = w.current p := by
            intro i hi
            obtain rfl : n = i := Option.some.inj hi
            exact hn.trans hq.symm
          have hcheck := tries_check (y := operation) (f := Reply.operation) hG htoken fun _ => rfl
          rw [hq, ← Guard.checkToken_self, ← hq] at hcheck
          exact hcheck
        · refine (ends_use_of_error hG (Guard.run_checkToken_of_ne hq)).imp ?_
          intro r w' hend
          obtain ⟨rfl, rfl⟩ := hend
          exact .stale rfl hn hq rfl rfl
  | resetOrCreate h name e c v =>
    obtain rfl : h = g := hk
    show Ends (withSome (w.guard? h) _) w _
    rw [hG]
    exact tries_check hG nofun fun _ => rfl
  | _ => exact hk.elim

/-! ### Other commands -/

/-- A command that asks about something that may not be there ends where it began. -/
theorem does_withSome {β : Type} {o : Option β} {y : β → Machine S ρ (Answer S ρ)}
    (hk : ∀ g, ¬ k.Uses g ∧ ¬ k.HandsOver g) (hy : ∀ b, o = some b → (y b).Ends w (w.Does p k)) :
    (withSome o y).Ends w (w.Does p k) := by
  cases o with
  | none => exact does_of_eq fun _ => hk
  | some b => exact hy b rfl

/-- What comes of an action on a store that is not in the world. -/
theorem ends_onStore_bind {β : Type} {s : Store S} {y : Action (Store S) Fault α}
    {f : α × Store S → Machine S ρ β} {Q : Except SequenceFault β → World S ρ → Prop}
    (herror : ∀ e, Q (.error (.store e)) w) (hok : ∀ a, (f a).Ends w Q) :
    (onStore s y >>= f).Ends w Q := by
  have hrun : ((onStore s y : Machine S ρ _).run w).result =
      ((y.run s).result.map (·, (y.run s).state)).mapError .store := rfl
  refine ends_bind ?_
  unfold Ends
  rw [hrun]
  cases (y.run s).result with
  | ok a => exact hok _
  | error e => exact herror e

/-- Nothing is released as long as the handle of the runner was not given up. -/
theorem run_release_of_sequence? (run : Place → List Nat → Command S ρ → Machine S ρ (Answer S ρ))
    (bound : Nat) {q : SequenceId} (hx : w.sequence? x = some q) :
    (release run p x bound).run w = { result := .ok (), state := w } := by
  have hreach := World.reachable_of_sequence? hx
  show (Action.state >>= _ : Machine S ρ Unit).run w = _
  rw [run_bind]
  simp only [run_state]
  cases w.engine? x with
  | none => rfl
  | some e =>
    cases e with
    | manual m => rfl
    | worker y t => simp [hreach]

theorem sequence?_of_held? {e : Engine S ρ} (hx : w.held? x = some e) :
    w.sequence? x = some e.id := by rw [World.sequence?, hx]; rfl

/-- A command that is refused did not get through. -/
theorem passed_refusal (e : SequenceError) : passed (k.refusal e) = false := by
  cases k with
  | access g via operation =>
    cases via with
    | asserted => rfl
    | checked => rfl
    | token n => rfl
  | _ => rfl

/-- To use a guarded store is one of the things that a direct command does. -/
theorem Tries.does {r : Except SequenceFault (Answer S ρ)} {w' : World S ρ} (hk : k.Uses g)
    (hG : w.guard? g = some G) (h : w.Tries p g G k r w') : w.Does p k r w' := by
  have hidle : passed r = false → w.Does p k r w := by
    intro hr
    refine does_of_eq fun hpassed => ?_
    rw [hr] at hpassed
    cases hpassed
  cases h with
  | through hcurrent htoken hr hused =>
    obtain ⟨s, hw⟩ := hused
    exact .use hk hr hG hcurrent hw
  | wrong hcurrent htoken hr hw =>
    subst hw
    exact hidle (hr ▸ passed_refusal _)
  | stale hk htoken hcurrent hr hw =>
    subst hw
    exact hidle (hr ▸ passed_refusal _)
  | vacant hk htoken hr hw =>
    subst hw
    exact hidle (hr ▸ rfl)

/-- A command for a guarded store that is not there ends where it began. -/
theorem does_use (hk : k.Uses g) : (execute (n + 1) p path k).Ends w (w.Does p k) := by
  cases hG : w.guard? g with
  | some G => exact (tries_execute hk hG).imp fun _ _ h => Tries.does hk hG h
  | none =>
    show Ends (Action.state >>= _) w _
    refine ends_state_bind ?_
    cases k with
    | access h via operation =>
      obtain rfl : h = g := hk
      show Ends (withSome (w.guard? h) _) w _
      rw [hG]
      exact does_of_eq nofun
    | resetOrCreate h name e c v =>
      obtain rfl : h = g := hk
      show Ends (withSome (w.guard? h) _) w _
      rw [hG]
      exact does_of_eq nofun
    | _ => exact hk.elim

/-- A direct command does one of these things, if the owners of the guarded stores are there. -/
theorem does_execute (hk : k.Direct)
    (hhome : ∀ g G, w.guard? g = some G → ∃ q, w.sequence? G.home.runner = some q) :
    (execute (n + 1) p path k).Ends w (w.Does p k) := by
  have hadd : ∀ (y : Engine S ρ) (f : Nat → Reply S ρ), y.id = ⟨w.nextId⟩ →
      (∀ g, ¬ k.Uses g ∧ ¬ k.HandsOver g) →
      (do reply (f (← addRunner y)) : Machine S ρ (Answer S ρ)).Ends
        { w with nextId := w.nextId + 1 } (w.Does p k) := by
    intro y f hy hk
    refine .runner hk ?_ rfl rfl
    rw [← hy]
    exact World.sequence?_push y
  cases k with
  | nextId => exact .idle (fun _ _ => ⟨id, id⟩) rfl rfl (Nat.le_succ _)
  | compareIds a b => exact does_of_eq fun _ _ => ⟨id, id⟩
  | current => exact does_of_eq fun _ _ => ⟨id, id⟩
  | threadName => exact does_of_eq fun _ _ => ⟨id, id⟩
  | enterScope q => exact does_of_setThread fun _ => ⟨id, id⟩
  | leaveScope i =>
    refine ends_state_bind (does_withSome (fun _ => ⟨id, id⟩) fun s _ => ends_bind ?_)
    refine ends_query_bind (fun e _ => does_of_setThread fun _ => ⟨id, id⟩) fun t _ => ?_
    refine .idle (fun _ _ => ⟨id, id⟩) ?_ ?_ (Nat.le_of_eq ?_)
    · exact World.sequence?_setThread.trans World.sequence?_setThread
    · exact World.guards_setThread.trans World.guards_setThread
    · exact (World.nextId_setThread.trans World.nextId_setThread).symm
  | mintToken => exact does_of_setThread fun _ => ⟨id, id⟩
  | inspectToken i =>
    exact ends_state_bind (does_withSome (fun _ => ⟨id, id⟩) fun q _ =>
      does_of_eq fun _ _ => ⟨id, id⟩)
  | newManual =>
    refine ends_state_bind (ends_bind ?_)
    exact hadd (.manual { id := ⟨w.nextId⟩ }) (fun r => .runner r ⟨w.nextId⟩ none) rfl
      fun _ => ⟨id, id⟩
  | spawnWorker naming =>
    refine ends_state_bind (ends_bind (ends_require_bind (fun _ => ?_) fun _ => ?_))
    · exact .idle (fun _ _ => ⟨id, id⟩) rfl rfl (Nat.le_succ _)
    · exact hadd (.worker _ _) (fun r => .runner r ⟨w.nextId⟩ _) rfl fun _ => ⟨id, id⟩
  | inspectRunner r =>
    refine ends_state_bind (does_withSome (fun _ => ⟨id, id⟩) fun e _ => ?_)
    cases e with
    | manual m => exact does_of_eq fun _ _ => ⟨id, id⟩
    | worker y t => exact does_of_eq fun _ _ => ⟨id, id⟩
  | newGuard r =>
    refine ends_state_bind (does_withSome (fun _ => ⟨id, id⟩) fun e he => ?_)
    exact .guard (fun _ => ⟨id, id⟩) (sequence?_of_held? he) rfl
  | guardStore r setup =>
    refine ends_state_bind (does_withSome (fun _ => ⟨id, id⟩) fun e he => ?_)
    refine ends_onStore_bind (fun _ => does_of_eq fun _ _ => ⟨id, id⟩) fun a => ?_
    exact .guard (fun _ => ⟨id, id⟩) (sequence?_of_held? he) rfl
  | inspectGuard g =>
    exact ends_state_bind (does_withSome (fun _ => ⟨id, id⟩) fun q _ =>
      does_of_eq fun _ _ => ⟨id, id⟩)
  | access g via operation => exact does_use rfl
  | resetOrCreate g name e c v => exact does_use rfl
  | transfer g r =>
    refine ends_state_bind ?_
    show Ends (withSome (w.guard? g) _) w _
    cases hG : w.guard? g with
    | none => exact does_of_eq nofun
    | some G =>
      show Ends (withSome (w.held? r) _) w _
      cases hr : w.held? r with
      | none => exact does_of_eq nofun
      | some e =>
        obtain ⟨q, hq⟩ := hhome g G hG
        refine ends_bind (ends_bind (ends_bind ?_))
        show Ends (release (execute n) p G.home.runner n) (w.setGuard g none) _
        have hrun := run_release_of_sequence? (w := w.setGuard g none) (p := p) (execute n) n hq
        unfold Ends
        rw [hrun]
        exact .handOver rfl rfl hG (sequence?_of_held? hr) World.setGuard_setGuard
  | explain e => exact does_of_eq fun _ _ => ⟨id, id⟩
  | raise message => exact does_of_eq fun _ _ => ⟨id, id⟩
  | post r body => exact hk.elim
  | runAndWait r body => exact hk.elim
  | drain r => exact hk.elim
  | close r => exact hk.elim
  | shutDown r => exact hk.elim
  | dropRunner r => exact hk.elim
  | takeOut g => exact hk.elim
  | postGuard g body => exact hk.elim

end Machine

end EntityStore
