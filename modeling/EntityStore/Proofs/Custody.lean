import EntityStore.Proofs.Affinity
import EntityStore.Proofs.Working

/-!
# What becomes of a guarded store

A guarded store is in its place or in one task that waits, and it goes from hand to hand: work of
its owner uses it, a transfer gives it to another runner, a task takes it along, and at last the
store is taken out of its guard.  `Scene.Unfolds H c` says that the happenings `H`, the latest
first, lead to the scene `c`.  Commands are carried out on any threads in any order.  Runners start
their tasks at any time, and the commands of a task are carried out one at a time like all others.
Handles of runners are kept, so that no command waits for the end of a worker.

`replay g H` is read off the happenings alone: it is what the operations that got through to a
guarded store make of the store that was put there first.  In each run that is the store inside,
wherever it is.  So each operation that gets through works on what the operations before left
(`Scene.Unfolds.transparent`).
-/

namespace EntityStore

open EntityStore.Action

variable {S : Schema} {ρ : Type}

/-! ## Operations -/

/-- What a command that uses a guarded store does to the store inside. -/
def Command.operation : Command S ρ → Action (Store S) Fault (Answer S ρ)
  | .access _ _ operation => do pure (.done (.operation (← operation)))
  | .resetOrCreate _ name e c v => do pure (.done (.value c (← Store.resetOrCreate name e c v)))
  | _ => pure .vacant

/-- How a command ends that works on a store. -/
def Command.outcome (k : Command S ρ) (s : Store S) : Except SequenceFault (Answer S ρ) :=
  (k.operation.run s).result.mapError .store

/-- The store that a command leaves. -/
def Command.effect (k : Command S ρ) (s : Store S) : Store S := (k.operation.run s).state

namespace Machine

variable {w : World S ρ} {p : Place} {path : List Nat} {k : Command S ρ} {g n : Nat} {G : Guard S}

/-- Work of the sequence that is expected runs on the store inside. -/
theorem ends_use_of_current {α : Type} {y : Action (Store S) Fault α} {f : α → Reply S ρ}
    {current : Option SequenceId} (hcurrent : current = some G.expected) :
    (onGuard g G (checked (Guard.check current) y) >>= fun a => reply (f a)).Ends w fun r w' =>
      r = ((y >>= fun a => pure (.done (f a))).run G.store).result.mapError .store ∧
        w' = w.setGuard g (some { G with
          bound := some G.expected
          store := ((y >>= fun a => (pure (.done (f a)) : Action _ Fault (Answer S ρ))).run
            G.store).state }) := by
  refine ends_bind ((ends_checked_of_ok (Guard.check_of_eq hcurrent)).imp ?_)
  rintro r w' ⟨rfl, rfl⟩
  cases hy : (y.run G.store).result with
  | ok a =>
    obtain ⟨hr, hs⟩ :=
      run_bind_of_ok (fun a => (pure (.done (f a)) : Action _ Fault (Answer S ρ))) hy
    rw [hr, hs]
    exact ⟨rfl, rfl⟩
  | error e =>
    obtain ⟨hr, hs⟩ :=
      run_bind_of_error (fun a => (pure (.done (f a)) : Action _ Fault (Answer S ρ))) hy
    rw [hr, hs]
    exact ⟨rfl, rfl⟩

/-- A command that gets through to a guarded store does what its operation does, and binds the
store. -/
theorem ends_execute_of_current (hk : k.Uses g) (hG : w.guard? g = some G)
    (hcurrent : w.current p = some G.expected)
    (htoken : ∀ i, k.token? = some i → (w.thread p).tokens[i]? = w.current p) :
    (execute (n + 1) p path k).Ends w fun r w' => r = k.outcome G.store ∧
      w' = w.setGuard g (some { G with
        bound := some G.expected, store := k.effect G.store }) := by
  refine ends_state_bind ?_
  cases k with
  | access h via operation =>
    obtain rfl : h = g := hk
    show Ends (withSome (w.guard? h) _) w _
    rw [hG]
    refine ends_state_bind ?_
    cases via with
    | asserted => exact ends_use_of_current hcurrent
    | checked =>
      dsimp only
      have hcheck : (Guard.check (w.thread p).current G).result = .ok () :=
        (Guard.check_of_eq hcurrent).1
      rw [hcheck]
      exact ends_use_of_current hcurrent
    | token i =>
      show Ends (withSome (w.thread p).tokens[i]? fun q =>
        onGuard h G (checked (Guard.checkToken q (w.current p)) operation) >>= fun a =>
          reply (.operation a)) w _
      rw [htoken i rfl, hcurrent]
      show Ends (onGuard h G (checked (Guard.checkToken G.expected (some G.expected)) operation) >>=
        fun a => reply (.operation a)) w _
      rw [Guard.checkToken_self]
      exact ends_use_of_current rfl
  | resetOrCreate h name e c v =>
    obtain rfl : h = g := hk
    show Ends (withSome (w.guard? h) _) w _
    rw [hG]
    exact ends_use_of_current (y := Store.resetOrCreate name e c v) hcurrent
  | _ => exact hk.elim

end Machine

/-! ## Where guarded stores are -/

/-- The guarded stores in the tasks that wait at a runner, with their numbers. -/
def Engine.parcels (e : Engine S ρ) : List (Nat × Guard S) := e.waiting.filterMap Task.parcel

namespace World

/-- The guarded stores in the tasks that wait, with their numbers. -/
def parcels (w : World S ρ) : List (Nat × Guard S) :=
  w.cells.toList.flatMap fun c => c.engine.parcels

/-- The guarded stores of a number. -/
def numbered (g : Nat) (P : List (Nat × Guard S)) : List (Guard S) :=
  P.filterMap fun x => if x.1 = g then some x.2 else none

/-- The guarded stores of a number, in its place and in the tasks that wait. -/
def holdings (w : World S ρ) (g : Nat) : List (Guard S) :=
  (w.guard? g).toList ++ numbered g w.parcels

variable {w w' : World S ρ} {g h i : Nat} {G : Guard S} {c : Cell S ρ} {p : Place} {t : Thread}

theorem numbered_append {P Q : List (Nat × Guard S)} :
    numbered g (P ++ Q) = numbered g P ++ numbered g Q := List.filterMap_append

/-- A cell adds its parcels to those of the cells before and after it. -/
theorem exists_parcels (hc : w.cells[i]? = some c) : ∃ P Q,
    w.parcels = P ++ c.engine.parcels ++ Q ∧ ∀ f : Cell S ρ → Cell S ρ,
      ({ w with cells := w.cells.modify i f } : World S ρ).parcels =
        P ++ (f c).engine.parcels ++ Q := by
  rw [← Array.getElem?_toList] at hc
  obtain ⟨hlt, hget⟩ := List.getElem?_eq_some_iff.1 hc
  have hsplit : ∀ f : Cell S ρ → Cell S ρ,
      ({ w with cells := w.cells.modify i f } : World S ρ).parcels =
        (w.cells.toList.take i).flatMap (fun c => c.engine.parcels) ++ (f c).engine.parcels ++
          (w.cells.toList.drop (i + 1)).flatMap fun c => c.engine.parcels := by
    intro f
    show (w.cells.modify i f).toList.flatMap _ = _
    rw [Array.toList_modify, List.modify_eq_take_cons_drop hlt, hget, List.flatMap_append,
      List.flatMap_cons, List.append_assoc]
  refine ⟨_, _, ?_, hsplit⟩
  have hsame := hsplit id
  rw [show ({ w with cells := w.cells.modify i id } : World S ρ).parcels = w.parcels by
    rw [parcels, parcels, Array.toList_modify, List.modify_id]] at hsame
  exact hsame

/-- A change of a cell that keeps its parcels. -/
theorem parcels_modify {f : Cell S ρ → Cell S ρ}
    (hf : ∀ c, w.cells[i]? = some c → (f c).engine.parcels = c.engine.parcels) :
    ({ w with cells := w.cells.modify i f } : World S ρ).parcels = w.parcels := by
  cases hc : w.cells[i]? with
  | some c =>
    obtain ⟨P, Q, hw, hmodify⟩ := exists_parcels hc
    rw [hmodify, hw, hf c hc]
  | none =>
    have hle : w.cells.toList.length ≤ i := Array.getElem?_eq_none_iff.1 hc
    rw [parcels, parcels, Array.toList_modify, List.modify_eq_self hle]

/-- A runner that loses tasks loses their parcels. -/
theorem parcels_setEngine_sublist {x y : Engine S ρ} (hx : w.engine? i = some x)
    (hy : y.waiting.Sublist x.waiting) : (w.setEngine i y).parcels.Sublist w.parcels := by
  obtain ⟨c, hc, rfl⟩ := Option.map_eq_some_iff.1 hx
  obtain ⟨P, Q, hP, hmodify⟩ := exists_parcels hc
  have hparcels : (w.setEngine i y).parcels = P ++ y.parcels ++ Q := hmodify _
  rw [hparcels, hP]
  exact ((hy.filterMap Task.parcel).append_left P).append_right Q

/-- What a thread remembers says nothing about the stores that are on their way. -/
theorem parcels_setThread : (w.setThread p t).parcels = w.parcels := by
  cases p with
  | main => rfl
  | worker i =>
    refine parcels_modify fun c _ => ?_
    obtain ⟨held, waiters, e⟩ := c
    cases e <;> rfl

theorem parcels_push (hc : c.engine.waiting = []) :
    ({ w with cells := w.cells.push c } : World S ρ).parcels = w.parcels := by
  show (w.cells.push c).toList.flatMap _ = _
  rw [Array.toList_push, List.flatMap_append, List.flatMap_singleton, Engine.parcels, hc]
  exact List.append_nil _

/-- Where a guarded store is found depends on the places and the queues. -/
theorem holdings_congr (hguards : w'.guards = w.guards) (hparcels : w'.parcels = w.parcels) :
    w'.holdings g = w.holdings g := by
  rw [holdings, holdings, guard?, guard?, hguards, hparcels]

/-- A write to the place of one guarded store does not move another one. -/
theorem holdings_setGuard_of_ne {o : Option (Guard S)} (hne : h ≠ g) :
    (w.setGuard g o).holdings h = w.holdings h := by
  rw [holdings, guard?_setGuard_of_ne hne]
  rfl

theorem holdings_setGuard_self {o : Option (Guard S)} (hg : g < w.guards.size) :
    (w.setGuard g o).holdings g = o.toList ++ numbered g w.parcels := by
  rw [holdings, guard?_setGuard_self hg]
  rfl

/-- A store in its place is in no task, if it is at one place only. -/
theorem numbered_eq_nil (hone : (w.holdings g).length ≤ 1) (hG : w.guard? g = some G) :
    numbered g w.parcels = [] := by
  rw [holdings, hG, List.length_append] at hone
  change 1 + (numbered g w.parcels).length ≤ 1 at hone
  exact List.eq_nil_of_length_eq_zero (by omega)

/-- A guarded store that is in its place is nowhere else. -/
theorem holdings_eq_singleton (hone : (w.holdings g).length ≤ 1) (hG : w.guard? g = some G) :
    w.holdings g = [G] := by
  rw [holdings, numbered_eq_nil hone hG, hG]
  rfl

theorem numbered_insert_of_ne {P Q : List (Nat × Guard S)} (hne : h ≠ g) :
    numbered h (P ++ [(g, G)] ++ Q) = numbered h (P ++ Q) := by
  rw [numbered_append, numbered_append, numbered_append]
  simp [numbered, hne.symm]

theorem numbered_insert_self {P Q : List (Nat × Guard S)} :
    numbered g (P ++ [(g, G)] ++ Q) = numbered g P ++ [G] ++ numbered g Q := by
  rw [numbered_append, numbered_append]
  simp [numbered]

section

variable {P Q : List (Nat × Guard S)} (hguards : w'.guards = w.guards) (hP : w.parcels = P ++ Q)
  (hP' : w'.parcels = P ++ [(g, G)] ++ Q)
include hguards hP hP'

/-- A parcel more is none of the other guarded stores. -/
theorem holdings_insert_of_ne (hne : h ≠ g) : w'.holdings h = w.holdings h := by
  rw [holdings, holdings, guard?, guard?, hguards, hP, hP', numbered_insert_of_ne hne]

/-- A guarded store that goes into a queue is found there. -/
theorem holdings_insert_self (hnone : w.holdings g = []) : w'.holdings g = [G] := by
  obtain ⟨hguard, hparcels⟩ := List.append_eq_nil_iff.1 hnone
  rw [hP, numbered_append] at hparcels
  obtain ⟨hnoneP, hnoneQ⟩ := List.append_eq_nil_iff.1 hparcels
  rw [guard?, ← hguards] at hguard
  rw [holdings, guard?, hguard, hP', numbered_insert_self, hnoneP, hnoneQ]
  rfl

/-- A store in a task is nowhere else, if it is at one place only. -/
theorem holdings_remove_self (halone : (w'.holdings g).length ≤ 1) :
    w'.holdings g = [G] ∧ w.holdings g = [] := by
  have hsplit : w'.holdings g = (w.guard? g).toList ++ (numbered g P ++ [G] ++ numbered g Q) := by
    rw [holdings, guard?, guard?, hguards, hP', numbered_insert_self]
  rw [hsplit] at halone
  simp only [List.length_append, List.length_singleton] at halone
  have hguard := List.eq_nil_of_length_eq_zero (l := (w.guard? g).toList) (by omega)
  have hnoneP := List.eq_nil_of_length_eq_zero (l := numbered g P) (by omega)
  have hnoneQ := List.eq_nil_of_length_eq_zero (l := numbered g Q) (by omega)
  constructor
  · rw [hsplit, hguard, hnoneP, hnoneQ]
    rfl
  · rw [holdings, hP, numbered_append, hguard, hnoneP, hnoneQ]
    rfl

end

/-- A task that is posted brings its parcel into the queue. -/
theorem parcels_task {x y : Engine S ρ} {t : Task S ρ} (hy : y.waiting = x.waiting ++ [t]) :
    y.parcels = x.parcels ++ t.parcel.toList := by
  rw [Engine.parcels, hy, List.filterMap_append]
  obtain ⟨ticket, path, body, parcel⟩ := t
  cases parcel <;> rfl

/-- What becomes of a runner leaves it its sequence. -/
theorem sequence?_setEngine {x y : Engine S ρ} (hx : w.engine? i = some x) (hid : y.id = x.id) :
    (w.setEngine i y).sequence? = w.sequence? := by
  obtain ⟨c, hc, rfl⟩ := Option.map_eq_some_iff.1 hx
  funext j
  rw [sequence?_eq, sequence?_eq]
  show ((w.cells.modify i _)[j]?).bind _ = _
  rw [Array.getElem?_modify]
  split
  · next hij =>
    subst hij
    rw [hc]
    show (if c.held then some y.id else none) = _
    rw [hid]
    rfl
  · rfl

/-- All handles of runners are kept. -/
def Held (w : World S ρ) : Prop := ∀ (i : Nat) (c : Cell S ρ), w.cells[i]? = some c → c.held = true

theorem Held.modify (hw : w.Held) {f : Cell S ρ → Cell S ρ} (hf : ∀ c, (f c).held = c.held) :
    ({ w with cells := w.cells.modify i f } : World S ρ).Held := by
  intro j d hd
  change (w.cells.modify i f)[j]? = some d at hd
  rw [Array.getElem?_modify] at hd
  split at hd
  · obtain ⟨c, hc, rfl⟩ := Option.map_eq_some_iff.1 hd
    exact (hf c).trans (hw j c hc)
  · exact hw j d hd

theorem Held.setThread (hw : w.Held) : (w.setThread p t).Held := by
  cases p with
  | main => exact hw
  | worker i =>
    refine hw.modify fun c => ?_
    obtain ⟨held, waiters, e⟩ := c
    cases e <;> rfl

theorem Held.push (hw : w.Held) (e : Engine S ρ) :
    ({ w with cells := w.cells.push { engine := e } } : World S ρ).Held := by
  intro j d hd
  change (w.cells.push _)[j]? = some d at hd
  rw [Array.getElem?_push] at hd
  split at hd
  · cases hd
    rfl
  · exact hw j d hd

/-- All handles of runners are kept, and each guarded store is at one place at most. -/
structure Sole (w : World S ρ) : Prop where
  /-- The handles are kept. -/
  held : w.Held
  /-- What was not made yet is nowhere. -/
  fresh : ∀ g, w.guards.size ≤ g → w.holdings g = []
  /-- A guarded store is at one place at most. -/
  alone : ∀ g, (w.holdings g).length ≤ 1

/-- A guarded store has a place, also while it is on its way. -/
theorem Sole.lt_size (hw : w.Sole) (hG : G ∈ w.holdings g) : g < w.guards.size := by
  refine Nat.lt_of_not_le fun hle => ?_
  rw [hw.fresh g hle] at hG
  cases hG

/-- With fewer parcels, each guarded store is where it was or nowhere. -/
theorem Sole.holdings_of_sublist (hw : w.Sole) (hguards : w'.guards = w.guards)
    (hparcels : w'.parcels.Sublist w.parcels) (g : Nat) :
    w'.holdings g = w.holdings g ∨ w'.holdings g = [] := by
  have hsub : (w'.holdings g).Sublist (w.holdings g) := by
    rw [holdings, holdings, guard?, guard?, hguards]
    exact (hparcels.filterMap _).append_left _
  rcases hl : w.holdings g with _ | ⟨G, _ | ⟨G', l⟩⟩
  · rw [hl] at hsub
    exact .inl (List.sublist_nil.1 hsub)
  · rw [hl] at hsub
    exact (List.sublist_singleton.1 hsub).symm
  · have halone := hw.alone g
    rw [hl] at halone
    exact absurd halone (by simp)

/-- Plain commands have nothing to do with guarded stores. -/
theorem Drifts.keeps (h : w.Drifts p w') (hw : w.Held) :
    w'.Held ∧ w'.guards = w.guards ∧ w'.parcels = w.parcels := by
  induction h with
  | idle => exact ⟨hw, rfl, rfl⟩
  | newId => exact ⟨hw, rfl, rfl⟩
  | runner e he => exact ⟨hw.push e, rfl, parcels_push he⟩
  | thread before t ih =>
    obtain ⟨hheld, hguards, hparcels⟩ := ih
    exact ⟨hheld.setThread, guards_setThread.trans hguards, parcels_setThread.trans hparcels⟩

end World

/-! ## What a command does to a guarded store -/

/-- Whether a command starts no task, waits for no worker and gives up no handle. -/
def Command.Prompt : Command S ρ → Prop
  | .runAndWait .. | .drain _ | .shutDown _ | .dropRunner _ => False
  | _ => True

/-- Whether a command uses a guarded store, hands it over or takes it out. -/
def Command.Reaches (g : Nat) : Command S ρ → Prop
  | .access h _ _ | .resetOrCreate h _ _ _ _ | .transfer h _ | .takeOut h => h = g
  | _ => False

theorem Command.reaches_of_uses {k : Command S ρ} {g : Nat} (hk : k.Uses g) : k.Reaches g := by
  cases k with
  | access h via operation => exact hk
  | resetOrCreate h name e c v => exact hk
  | _ => exact hk.elim

theorem Command.not_reaches_of_plain {k : Command S ρ} {g : Nat} (hk : k.Plain) :
    ¬ k.Reaches g := by
  cases k with
  | access h via operation => exact hk.elim
  | resetOrCreate h name e c v => exact hk.elim
  | transfer h r => exact hk.elim
  | takeOut h => exact hk.elim
  | _ => exact id

/-- The store that is put into the guard of a number, if the command made that. -/
def Command.first? (g : Nat) : Command S ρ → Except SequenceFault (Answer S ρ) → Option (Store S)
  | .newGuard _, .ok (.done (.guarded h _)) => if h = g then some {} else none
  | .guardStore _ setup, .ok (.done (.guarded h _)) =>
    if h = g then some (setup.run {}).state else none
  | _, _ => none

theorem Command.first?_of_plain {k : Command S ρ} {g : Nat}
    {r : Except SequenceFault (Answer S ρ)} (hk : k.Plain) : k.first? g r = none := by
  cases k with
  | newGuard i => exact hk.elim
  | guardStore i setup => exact hk.elim
  | _ => rfl

/-- What a command with a result can do to the guarded store of a number, where runners have
sequences.  The store is at the places of a list, before and after it. -/
inductive Command.Treats (sequence? : Nat → Option SequenceId) (k : Command S ρ)
    (r : Except SequenceFault (Answer S ρ)) (g : Nat) : List (Guard S) → List (Guard S) → Prop where
  /-- It does not get through to it.  The store may be moved to another place. -/
  | spares {l : List (Guard S)} (hk : passed r = true → ¬ k.Reaches g)
      (hfirst : k.first? g r = none) : Treats sequence? k r g l l
  /-- It drops the task in which it is. -/
  | drops {l : List (Guard S)} (hk : passed r = true → ¬ k.Reaches g)
      (hfirst : k.first? g r = none) : Treats sequence? k r g l []
  /-- It makes it. -/
  | makes {G : Guard S} (hk : ¬ k.Reaches g) (hfirst : k.first? g r = some G.store) :
      Treats sequence? k r g [] [G]
  /-- It gets through to it, and its operation runs on the store inside. -/
  | uses {G : Guard S} (hk : k.Uses g) (hpassed : passed r = true) (hr : r = k.outcome G.store) :
      Treats sequence? k r g [G] [{ G with bound := some G.expected, store := k.effect G.store }]
  /-- It hands it over to a runner. -/
  | handsOver {G : Guard S} {x : Nat} {q : SequenceId} (hk : k = .transfer g x)
      (hx : sequence? x = some q) : Treats sequence? k r g [G] [G.transfer ⟨x, q⟩]
  /-- It takes the store out of its guard. -/
  | takesOut {G : Guard S} (hk : k = .takeOut g) (hr : r = .ok (.done (.store G.store))) :
      Treats sequence? k r g [G] []

/-- A command does not copy a guarded store. -/
theorem Command.Treats.length_le {sequence? : Nat → Option SequenceId} {k : Command S ρ}
    {r : Except SequenceFault (Answer S ρ)} {g : Nat} {l l' : List (Guard S)}
    (h : k.Treats sequence? r g l l') (hl : l.length ≤ 1) : l'.length ≤ 1 := by
  cases h with
  | spares => exact hl
  | drops => exact Nat.zero_le _
  | takesOut => exact Nat.zero_le _
  | makes => exact Nat.le_refl _
  | uses => exact Nat.le_refl _
  | handsOver => exact Nat.le_refl _

/-- What a command with a result does to the runners and all guarded stores. -/
structure World.Turns (w : World S ρ) (k : Command S ρ) (r : Except SequenceFault (Answer S ρ))
    (w' : World S ρ) : Prop where
  /-- The handles are kept. -/
  held : w'.Held
  /-- What was not made yet is nowhere. -/
  fresh : ∀ g, w'.guards.size ≤ g → w'.holdings g = []
  /-- Each guarded store is treated in one of the ways. -/
  treats : ∀ g, k.Treats w'.sequence? r g (w.holdings g) (w'.holdings g)

namespace World.Turns

variable {w w' : World S ρ} {k : Command S ρ} {r : Except SequenceFault (Answer S ρ)}

/-- After a command each guarded store is still in one place at most. -/
theorem sole (h : w.Turns k r w') (hw : w.Sole) : w'.Sole where
  held := h.held
  fresh := h.fresh
  alone g := (h.treats g).length_le (hw.alone g)

/-- No guarded store is changed, though it may be moved. -/
theorem of_holdings (hw : w.Sole) (hheld : w'.Held) (hsize : w'.guards.size = w.guards.size)
    (hholdings : ∀ g, w'.holdings g = w.holdings g)
    (hk : ∀ g, passed r = true → ¬ k.Reaches g) (hfirst : ∀ g, k.first? g r = none) :
    w.Turns k r w' where
  held := hheld
  fresh g hg := by
    rw [hholdings]
    exact hw.fresh g (hsize ▸ hg)
  treats g := by
    rw [hholdings]
    exact .spares (hk g) (hfirst g)

/-- A command that leaves the places and the queues as they are moves no guarded store. -/
theorem of_same (hw : w.Sole) (hheld : w'.Held) (hguards : w'.guards = w.guards)
    (hparcels : w'.parcels = w.parcels) (hk : ∀ g, passed r = true → ¬ k.Reaches g)
    (hfirst : ∀ g, k.first? g r = none) : w.Turns k r w' :=
  of_holdings hw hheld (congrArg Array.size hguards) (fun _ => holdings_congr hguards hparcels) hk
    hfirst

/-- Nothing changes. -/
theorem refl (hw : w.Sole) (hk : ∀ g, passed r = true → ¬ k.Reaches g)
    (hfirst : ∀ g, k.first? g r = none) : w.Turns k r w := of_same hw hw.held rfl rfl hk hfirst

/-- The guarded stores are where they were, or in a task that is dropped. -/
theorem of_sublist (hw : w.Sole) (hheld : w'.Held) (hguards : w'.guards = w.guards)
    (hparcels : w'.parcels.Sublist w.parcels) (hk : ∀ g, passed r = true → ¬ k.Reaches g)
    (hfirst : ∀ g, k.first? g r = none) : w.Turns k r w' where
  held := hheld
  fresh g hg := by
    have hnone := hw.fresh g (hguards ▸ hg)
    rcases hw.holdings_of_sublist hguards hparcels g with heq | heq
    · exact heq.trans hnone
    · exact heq
  treats g := by
    rcases hw.holdings_of_sublist hguards hparcels g with heq | heq
    · rw [heq]
      exact .spares (hk g) (hfirst g)
    · rw [heq]
      exact .drops (hk g) (hfirst g)

/-- One guarded store changes. -/
theorem of_setGuard {g : Nat} {G : Guard S} {o : Option (Guard S)} (hw : w.Sole)
    (hG : w.guard? g = some G) (hw' : w' = w.setGuard g o)
    (htreats : k.Treats w.sequence? r g [G] o.toList)
    (hk : ∀ h, h ≠ g → ¬ k.Reaches h) (hfirst : ∀ h, k.first? h r = none) : w.Turns k r w' := by
  subst hw'
  have hg := lt_size_of_guard? hG
  have hself : (w.setGuard g o).holdings g = o.toList := by
    rw [holdings_setGuard_self hg, numbered_eq_nil (hw.alone g) hG, List.append_nil]
  refine ⟨hw.held, fun h hh => ?_, fun h => ?_⟩
  · have hsize : (w.setGuard g o).guards.size = w.guards.size := Array.size_setIfInBounds
    rw [hsize] at hh
    rw [holdings_setGuard_of_ne (Nat.ne_of_gt (Nat.lt_of_lt_of_le hg hh))]
    exact hw.fresh h hh
  · by_cases hh : h = g
    · subst hh
      rw [hself, holdings_eq_singleton (hw.alone h) hG]
      exact htreats
    · rw [holdings_setGuard_of_ne hh]
      exact .spares (fun _ => hk h hh) (hfirst h)

/-- A guarded store is made. -/
theorem of_addGuard {G : Guard S} (hw : w.Sole) (hk : ∀ h, ¬ k.Reaches h)
    (hself : k.first? w.guards.size r = some G.store)
    (hfirst : ∀ h, h ≠ w.guards.size → k.first? h r = none) :
    w.Turns k r (w.addGuard G) := by
  have hsize : (w.addGuard G).guards.size = w.guards.size + 1 := Array.size_push _
  have hother : ∀ h, h ≠ w.guards.size → (w.addGuard G).holdings h = w.holdings h := by
    intro h hh
    rw [holdings, guard?_addGuard, if_neg hh]
    rfl
  have hnone := hw.fresh w.guards.size (Nat.le_refl _)
  refine ⟨hw.held, fun h hh => ?_, fun h => ?_⟩
  · rw [hsize] at hh
    rw [hother h (Nat.ne_of_gt hh)]
    exact hw.fresh h (Nat.le_of_succ_le hh)
  · by_cases hh : h = w.guards.size
    · subst hh
      have hparcels : numbered w.guards.size w.parcels = [] := (List.append_eq_nil_iff.1 hnone).2
      have hnew : (w.addGuard G).holdings w.guards.size = [G] := by
        rw [holdings, guard?_addGuard, if_pos rfl]
        exact congrArg (G :: ·) hparcels
      rw [hnone, hnew]
      exact .makes (hk _) hself
    · rw [hother h hh]
      exact .spares (fun _ => hk h) (hfirst h hh)

end World.Turns

namespace Machine

variable {w : World S ρ} {p : Place} {path : List Nat} {k : Command S ρ} {g i n bound : Nat}
  {G : Guard S}

/-- A runner that is held is there. -/
theorem engine?_of_held? {x : Engine S ρ} (hx : w.held? i = some x) : w.engine? i = some x := by
  unfold World.held? at hx
  unfold World.engine?
  cases hc : w.cells[i]? with
  | none =>
    rw [hc] at hx
    cases hx
  | some c =>
    rw [hc] at hx
    obtain ⟨-, heq⟩ := Option.ite_none_right_eq_some.1 hx
    exact heq

/-- Nothing is released as long as the handles are kept. -/
theorem ends_release_of_held {run : Place → List Nat → Command S ρ → Machine S ρ (Answer S ρ)}
    {Q : Except SequenceFault Unit → World S ρ → Prop} (hw : w.Held) (h : Q (.ok ()) w) :
    (release run p i bound).Ends w Q := by
  cases hc : w.cells[i]? with
  | some c =>
    have hsequence : w.sequence? i = some c.engine.id := by
      rw [World.sequence?_eq, hc, Option.bind_some, if_pos (hw i c hc)]
    show Q _ _
    rw [run_release_of_sequence? run bound hsequence]
    exact h
  | none =>
    have hengine : w.engine? i = none := by
      rw [World.engine?, hc]
      rfl
    refine ends_state_bind ?_
    rw [hengine]
    exact h

/-- A task that is taken adds what was moved into it, and one that is refused changes nothing. -/
theorem ends_postTask_of_held {body : List (Command S ρ)} {parcel : Option (Nat × Guard S)}
    (hw : w.Held) :
    (postTask i path body parcel : Machine S ρ _).Ends w fun x w' =>
      (∃ e, x = .ok (.error e)) ∧ w' = w ∨
      (∃ m, x = .ok (.ok m)) ∧ w'.Held ∧ w'.guards = w.guards ∧ w'.sequence? = w.sequence? ∧
        ∃ P Q, w.parcels = P ++ Q ∧ w'.parcels = P ++ parcel.toList ++ Q := by
  refine ends_postTask_cases.imp ?_
  rintro x w' (⟨⟨q, rfl⟩, rfl, -⟩ | ⟨e, e', rfl, he, hpost, rfl⟩)
  · exact .inl ⟨⟨_, rfl⟩, rfl⟩
  · have hheld : (w.setEngine i e').Held := hw.modify fun _ => rfl
    have hsequence := World.sequence?_setEngine he (Engine.keeps_of_post? hpost).id_eq
    obtain ⟨c, hc, rfl⟩ := Option.map_eq_some_iff.1 he
    obtain ⟨P, Q, hP, hmodify⟩ := World.exists_parcels hc
    have hparcels : (w.setEngine i e').parcels = P ++ e'.parcels ++ Q := hmodify _
    rw [World.parcels_task (Engine.waiting_of_post? hpost), ← List.append_assoc] at hparcels
    exact .inr ⟨⟨_, rfl⟩, hheld, rfl, hsequence, P ++ c.engine.parcels, Q, hP, hparcels⟩

theorem not_reaches_of_uses (hk : k.Uses g) {h : Nat} (hne : h ≠ g) : ¬ k.Reaches h := by
  cases k with
  | access g' via operation => exact fun heq => hne (heq.symm.trans hk)
  | resetOrCreate g' name e c v => exact fun heq => hne (heq.symm.trans hk)
  | _ => exact hk.elim

theorem first?_of_uses (hk : k.Uses g) {h : Nat} {r : Except SequenceFault (Answer S ρ)} :
    k.first? h r = none := by
  cases k with
  | access g' via operation => rfl
  | resetOrCreate g' name e c v => rfl
  | _ => exact hk.elim

/-- A command for a guarded store that is not there ends where it began. -/
theorem run_use_of_none (hk : k.Uses g) (hG : w.guard? g = none) :
    (execute (n + 1) p path k).run w = { result := .ok .vacant, state := w } := by
  cases k with
  | access h via operation =>
    obtain rfl : h = g := hk
    show (Action.state >>= fun w => withSome (w.guard? h) _ : Machine S ρ _).run w = _
    rw [run_bind]
    simp [hG, withSome]
  | resetOrCreate h name e c v =>
    obtain rfl : h = g := hk
    show (Action.state >>= fun w => withSome (w.guard? h) _ : Machine S ρ _).run w = _
    rw [run_bind]
    simp [hG, withSome]
  | _ => exact hk.elim

/-- Work that does not get through to a guarded store changes nothing. -/
theorem state_of_not_passed (hk : k.Uses g)
    (hpassed : passed ((execute (n + 1) p path k).run w).result = false) :
    ((execute (n + 1) p path k).run w).state = w := by
  cases hG : w.guard? g with
  | none => rw [run_use_of_none hk hG]
  | some G =>
    cases (tries_execute hk hG : (execute (n + 1) p path k).Ends w (w.Tries p g G k)) with
    | through _ _ hr _ => cases hpassed.symm.trans hr
    | wrong _ _ _ hsame => exact hsame
    | stale _ _ _ _ hsame => exact hsame
    | vacant _ _ _ hsame => exact hsame

/-- Work that gets through to a guarded store does what its operation does. -/
theorem exists_of_passed (hk : k.Uses g)
    (hpassed : passed ((execute (n + 1) p path k).run w).result = true) :
    ∃ G, w.guard? g = some G ∧ (execute (n + 1) p path k).Ends w fun r w' =>
      r = k.outcome G.store ∧ w' = w.setGuard g (some { G with
        bound := some G.expected, store := k.effect G.store }) := by
  cases hG : w.guard? g with
  | none =>
    rw [run_use_of_none hk hG] at hpassed
    cases hpassed
  | some G =>
    refine ⟨G, rfl, ?_⟩
    cases (tries_execute hk hG : (execute (n + 1) p path k).Ends w (w.Tries p g G k)) with
    | through hcurrent htoken _ _ => exact ends_execute_of_current hk hG hcurrent htoken
    | wrong _ _ hr _ =>
      rw [hr, passed_refusal] at hpassed
      cases hpassed
    | stale _ _ _ hr _ =>
      rw [hr, passed_refusal] at hpassed
      cases hpassed
    | vacant _ _ hr _ =>
      rw [hr] at hpassed
      cases hpassed

/-- To use a guarded store leaves it in its place. -/
theorem turns_use (hw : w.Sole) (hk : k.Uses g) :
    (execute (n + 1) p path k).Ends w (w.Turns k) := by
  show w.Turns k ((execute (n + 1) p path k).run w).result _
  cases hpassed : passed ((execute (n + 1) p path k).run w).result with
  | false =>
    rw [state_of_not_passed hk hpassed]
    refine .refl hw (fun _ htrue => ?_) fun _ => first?_of_uses hk
    cases hpassed.symm.trans htrue
  | true =>
    obtain ⟨G, hG, hresult, hstate⟩ := exists_of_passed hk hpassed
    exact .of_setGuard hw hG hstate (.uses hk hpassed hresult)
      (fun h hne => not_reaches_of_uses hk hne) fun _ => first?_of_uses hk

/-- A command that is not about guarded stores moves none of them. -/
theorem turns_plain (hw : w.Sole) (hk : k.Plain) :
    (execute (n + 1) p path k).Ends w (w.Turns k) := by
  refine ends_state_bind ((ends_plain hk).imp ?_)
  intro r w' hdrifts
  obtain ⟨hheld, hguards, hparcels⟩ := hdrifts.keeps hw.held
  exact .of_same hw hheld hguards hparcels (fun _ _ => Command.not_reaches_of_plain hk)
    fun _ => Command.first?_of_plain hk

/-- A new guarded store is put into a place of its own. -/
theorem turns_newGuard (hw : w.Sole) :
    (execute (n + 1) p path (.newGuard i)).Ends w (w.Turns (.newGuard i)) := by
  refine ends_state_bind (ends_withSome_of ?_ fun x _ => ends_modifyGet_bind ?_)
  · exact .refl hw (fun _ _ => id) fun _ => rfl
  · exact .of_addGuard hw (fun _ => id) (if_pos rfl) fun h hne => if_neg hne.symm

/-- A store that is made first and guarded then is put into a place of its own. -/
theorem turns_guardStore {setup : Action (Store S) Fault ρ} (hw : w.Sole) :
    (execute (n + 1) p path (.guardStore i setup)).Ends w (w.Turns (.guardStore i setup)) := by
  have hsame : ∀ r, (∀ g, (Command.guardStore i setup).first? g r = none) →
      w.Turns (.guardStore i setup) r w := fun _ => .refl hw fun _ _ => id
  have hstore : (onStore {} setup : Machine S ρ _).Ends w fun r w' =>
      w' = w ∧ ∀ a, r = .ok a → a.2 = (setup.run {}).state := by
    refine ⟨rfl, fun a ha => ?_⟩
    change ((setup.run {}).result.map (·, (setup.run {}).state)).mapError _ = Except.ok a at ha
    cases hresult : (setup.run {}).result with
    | error f =>
      rw [hresult] at ha
      cases ha
    | ok x =>
      rw [hresult] at ha
      cases ha
      rfl
  refine ends_state_bind (ends_withSome_of (hsame _ fun _ => rfl) fun x _ => ?_)
  refine ends_bind (hstore.imp ?_)
  rintro r w' ⟨rfl, hr⟩
  cases r with
  | error f => exact hsame _ fun _ => rfl
  | ok a =>
    obtain ⟨answer, store⟩ := a
    obtain rfl : store = (setup.run {}).state := hr _ rfl
    refine ends_modifyGet_bind ?_
    exact .of_addGuard hw (fun _ => id) (if_pos rfl) fun h hne => if_neg hne.symm

/-- A task without a parcel moves no guarded store. -/
theorem turns_post {body : List (Command S ρ)} (hw : w.Sole) :
    (execute (n + 1) p path (.post i body)).Ends w (w.Turns (.post i body)) := by
  have hsame : ∀ r, w.Turns (.post i body) r w := fun _ => .refl hw (fun _ _ => id) fun _ => rfl
  refine ends_state_bind (ends_withSome_of (hsame _) fun x _ => ?_)
  refine ends_bind ((ends_postTask_of_held hw.held).imp ?_)
  rintro x w' (⟨⟨e, rfl⟩, rfl⟩ | ⟨⟨m, rfl⟩, hheld, hguards, -, P, Q, hP, hP'⟩)
  · exact hsame _
  · have hparcels : w'.parcels = w.parcels := by
      rw [hP', hP]
      exact congrArg (· ++ Q) (List.append_nil P)
    exact .of_same hw hheld hguards hparcels (fun _ _ => id) fun _ => rfl

/-- A manual runner that is closed drops its tasks. -/
theorem turns_close (hw : w.Sole) :
    (execute (n + 1) p path (.close i)).Ends w (w.Turns (.close i)) := by
  have hsame : ∀ r, w.Turns (.close i) r w := fun _ => .refl hw (fun _ _ => id) fun _ => rfl
  refine ends_state_bind (ends_withSome_of (hsame _) fun x hx => ?_)
  cases x with
  | worker y th => exact hsame _
  | manual m =>
    refine ends_modify_bind ?_
    exact .of_sublist hw (hw.held.modify fun _ => rfl) rfl
      (World.parcels_setEngine_sublist (engine?_of_held? hx) (List.nil_sublist _))
      (fun _ _ => id) fun _ => rfl

/-- A guarded store that is handed over stays in its place. -/
theorem turns_transfer (hw : w.Sole) :
    (execute (n + 1) p path (.transfer g i)).Ends w (w.Turns (.transfer g i)) := by
  have hsame : w.Turns (.transfer g i) (.ok .vacant) w := .refl hw nofun fun _ => rfl
  refine ends_state_bind (ends_withSome_of hsame fun G hG => ends_withSome_of hsame fun x hx => ?_)
  have hheld : (w.setGuard g none).Held := hw.held
  refine ends_bind (ends_modify_bind (ends_bind (ends_release_of_held hheld ?_)))
  exact .of_setGuard hw hG World.setGuard_setGuard (.handsOver rfl (sequence?_of_held? hx))
    (fun h hne heq => hne heq.symm) fun _ => rfl

/-- A store that is taken out leaves its place. -/
theorem turns_takeOut (hw : w.Sole) :
    (execute (n + 1) p path (.takeOut g)).Ends w (w.Turns (.takeOut g)) := by
  have hsame : w.Turns (.takeOut g) (.ok .vacant) w := .refl hw nofun fun _ => rfl
  refine ends_state_bind (ends_withSome_of hsame fun G hG => ?_)
  have hheld : (w.setGuard g none).Held := hw.held
  refine ends_modify_bind (ends_bind (ends_release_of_held hheld ?_))
  exact .of_setGuard hw hG rfl (.takesOut rfl rfl) (fun h hne heq => hne heq.symm) fun _ => rfl

/-- A guarded store is moved into a task, or dropped if the task is refused. -/
theorem turns_postGuard {body : List (Command S ρ)} (hw : w.Sole) :
    (execute (n + 1) p path (.postGuard g body)).Ends w (w.Turns (.postGuard g body)) := by
  refine ends_state_bind (ends_withSome_of ?_ fun G hG => ?_)
  · exact .refl hw (fun _ _ => id) fun _ => rfl
  have hheld : (w.setGuard g none).Held := hw.held
  refine ends_modify_bind (ends_bind ((ends_postTask_of_held hheld).imp ?_))
  rintro x w' (⟨⟨e, rfl⟩, rfl⟩ | ⟨⟨m, rfl⟩, hheld', hguards, -, P, Q, hP, hP'⟩)
  · refine ends_bind (ends_release_of_held hheld ?_)
    exact .of_setGuard hw hG rfl (.drops nofun rfl) (fun _ _ => id) fun _ => rfl
  · have hnone : (w.setGuard g none).holdings g = [] := by
      rw [World.holdings_setGuard_self (World.lt_size_of_guard? hG),
        World.numbered_eq_nil (hw.alone g) hG]
      rfl
    have hholdings : ∀ h, w'.holdings h = w.holdings h := by
      intro h
      cases Nat.decEq h g with
      | isTrue heq =>
        rw [heq, World.holdings_insert_self hguards hP hP' hnone,
          World.holdings_eq_singleton (hw.alone g) hG]
      | isFalse hne =>
        rw [World.holdings_insert_of_ne hguards hP hP' hne, World.holdings_setGuard_of_ne hne]
    have hsize : w'.guards.size = w.guards.size := by
      rw [hguards]
      exact Array.size_setIfInBounds
    exact .of_holdings hw hheld' hsize hholdings (fun _ _ => id) fun _ => rfl

/-- A prompt command treats each guarded store in one of the ways. -/
theorem turns_execute (hw : w.Sole) (hk : k.Prompt) :
    (execute (n + 1) p path k).Ends w (w.Turns k) := by
  cases k with
  | newGuard i => exact turns_newGuard hw
  | guardStore i setup => exact turns_guardStore hw
  | inspectGuard g =>
    refine ends_state_bind (ends_withSome_of ?_ fun _ _ => ?_)
    · exact .refl hw (fun _ _ => id) fun _ => rfl
    · exact .refl hw (fun _ _ => id) fun _ => rfl
  | post i body => exact turns_post hw
  | close i => exact turns_close hw
  | access g via operation => exact turns_use hw rfl
  | resetOrCreate g name e c v => exact turns_use hw rfl
  | transfer g i => exact turns_transfer hw
  | takeOut g => exact turns_takeOut hw
  | postGuard g body => exact turns_postGuard hw
  | runAndWait i body => exact hk.elim
  | drain i => exact hk.elim
  | shutDown i => exact hk.elim
  | dropRunner i => exact hk.elim
  | _ => exact turns_plain hw trivial

end Machine

/-! ## What else happens to guarded stores -/

/-- The handles are kept, and each guarded store is kept or dropped as a whole. -/
structure World.Retains (w w' : World S ρ) : Prop where
  /-- The handles are kept. -/
  held : w'.Held
  /-- What was not made yet is nowhere. -/
  fresh : ∀ g, w'.guards.size ≤ g → w'.holdings g = []
  /-- Each guarded store is as it was, or dropped. -/
  keeps : ∀ g, w'.holdings g = w.holdings g ∨ w'.holdings g = []

namespace World.Retains

variable {w w' : World S ρ}

/-- Where nothing new was guarded, each guarded store is in one place at most. -/
theorem sole (h : w.Retains w') (hw : w.Sole) : w'.Sole where
  held := h.held
  fresh := h.fresh
  alone g := by
    rcases h.keeps g with heq | heq
    · rw [heq]
      exact hw.alone g
    · rw [heq]
      exact Nat.zero_le _

/-- Guarded stores may be lost with a queue, but none is copied. -/
theorem of_keeps (hw : w.Sole) (hheld : w'.Held) (hsize : w'.guards.size = w.guards.size)
    (hkeeps : ∀ g, w'.holdings g = w.holdings g ∨ w'.holdings g = []) : w.Retains w' where
  held := hheld
  fresh g hg := by
    rcases hkeeps g with heq | heq
    · rw [heq]
      exact hw.fresh g (hsize ▸ hg)
    · exact heq
  keeps := hkeeps

end World.Retains

namespace Machine

variable {w : World S ρ} {p : Place} {i : Nat}

/-- Starts the task of a runner that has waited longest.  Its commands are not carried out. -/
def start (p : Place) (r : Nat) : Machine S ρ Unit := do
  match ← takeTask r with
  | none => pure ()
  | some t =>
    let _ ← runTask (execute 0) p { t with body := [] }

/-- The start of a task puts what was moved into it back in its place. -/
theorem retains_start (hw : w.Sole) : (start p i).Ends w fun _ w' => w.Retains w' := by
  refine ends_bind (ends_takeTask_cases.imp ?_)
  rintro x w₁ (⟨rfl, rfl, -⟩ | ⟨e, e', t, rfl, rfl, he, hwaiting, -⟩)
  · exact .of_keeps hw hw.held rfl fun _ => .inl rfl
  · obtain ⟨ticket, path, body, parcel⟩ := t
    obtain ⟨c, hc, rfl⟩ := Option.map_eq_some_iff.1 he
    obtain ⟨P, Q, hP', hmodify⟩ := World.exists_parcels hc
    have hheld : (w.setEngine i e').Held := hw.held.modify fun _ => rfl
    have hP : (w.setEngine i e').parcels = P ++ (e'.parcels ++ Q) :=
      (hmodify _).trans (List.append_assoc ..)
    rw [Engine.parcels, hwaiting] at hP'
    cases parcel with
    | none =>
      have hsame : (w.setEngine i e').parcels = w.parcels := by
        rw [hP, hP', List.filterMap_cons_none rfl, List.append_assoc]
        rfl
      exact .of_keeps hw hheld rfl fun g => .inl (World.holdings_congr rfl hsame)
    | some x =>
      obtain ⟨g, G⟩ := x
      have hmore : w.parcels = P ++ [(g, G)] ++ (e'.parcels ++ Q) := by
        change w.parcels = P ++ ((g, G) :: e'.parcels) ++ Q at hP'
        rw [hP', List.append_assoc, List.append_assoc]
        rfl
      have hguards : w.guards = (w.setEngine i e').guards := rfl
      obtain ⟨hself, hnone⟩ := World.holdings_remove_self hguards hP hmore (hw.alone g)
      have hg : g < (w.setEngine i e').guards.size := by
        refine hguards ▸ hw.lt_size (G := G) ?_
        rw [hself]
        exact List.mem_singleton_self G
      refine .of_keeps hw hheld Array.size_setIfInBounds fun h => .inl ?_
      show ((w.setEngine i e').setGuard g (some G)).holdings h = w.holdings h
      by_cases hh : h = g
      · subst hh
        obtain ⟨-, hparcels⟩ := List.append_eq_nil_iff.1 hnone
        rw [World.holdings_setGuard_self hg, hparcels, hself]
        rfl
      · rw [World.holdings_setGuard_of_ne hh]
        exact (World.holdings_insert_of_ne hguards hP hmore hh).symm

/-- A worker that loses tasks loses what was moved into them. -/
theorem retains_changeWorker {f : Worker (Task S ρ) → Thread → Worker (Task S ρ)} (hw : w.Sole)
    (hf : ∀ y th, (f y th).queue.toList.Sublist y.queue.toList) :
    (changeWorker i f).Ends w fun _ w' => w.Retains w' := by
  unfold Ends changeWorker
  rw [run_modify]
  split
  · next y th hy =>
    refine .of_keeps hw (hw.held.modify fun _ => rfl) rfl ?_
    exact hw.holdings_of_sublist rfl (World.parcels_setEngine_sublist hy (hf y th))
  · exact .of_keeps hw hw.held rfl fun _ => .inl rfl

end Machine

/-! ## Runs -/

/-- Something that happens in a scene. -/
inductive Happening (S : Schema) (ρ : Type) where
  /-- A command was carried out. -/
  | did (m : Moment S ρ)
  /-- A runner started its next task, on a thread. -/
  | started (x : Spot) (r : Nat)
  /-- A worker was closed. -/
  | closed (r : Nat)
  /-- A worker ended by the failure of a task. -/
  | failed (r : Nat)

namespace Scene

/-- An action of the machine on the thread of a spot. -/
def lift {α : Type} (x : Spot) (y : Machine S ρ α) : Action (Scene S ρ) SequenceFault α := fun c =>
  let o := y.run (c.worldAt x)
  { result := o.result, state := c.withWorldAt x o.state, reports := o.reports }

/-- Happenings lead from a new scene to a scene.  The latest comes first. -/
inductive Unfolds : List (Happening S ρ) → Scene S ρ → Prop where
  /-- Nothing happened. -/
  | new : Unfolds [] {}
  /-- A command is carried out. -/
  | act {H : List (Happening S ρ)} {c : Scene S ρ} (before : Unfolds H c) (x : Spot)
      (k : Command S ρ) (hk : k.Prompt) :
      Unfolds (.did ⟨x, k, ((act x k).run c).result⟩ :: H) ((Scene.act x k).run c).state
  /-- A runner starts its next task. -/
  | start {H : List (Happening S ρ)} {c : Scene S ρ} (before : Unfolds H c) (x : Spot) (r : Nat) :
      Unfolds (.started x r :: H) ((lift x (Machine.start x.place r)).run c).state
  /-- A worker is closed. -/
  | close {H : List (Happening S ρ)} {c : Scene S ρ} (before : Unfolds H c) (r : Nat) :
      Unfolds (.closed r :: H)
        ((lift (.worker r) (Machine.changeWorker r fun y _ => y.close)).run c).state
  /-- A worker ends by the failure of a task. -/
  | fail {H : List (Happening S ρ)} {c : Scene S ρ} (before : Unfolds H c) (r : Nat) :
      Unfolds (.failed r :: H)
        ((lift (.worker r) (Machine.changeWorker r fun y _ => y.fail)).run c).state

end Scene

/-- The number of the guarded store that a command uses. -/
def Command.used? : Command S ρ → Option Nat
  | .access g _ _ | .resetOrCreate g _ _ _ _ => some g
  | _ => none

theorem Command.used?_eq_some_iff {k : Command S ρ} {g : Nat} : k.used? = some g ↔ k.Uses g := by
  cases k with
  | access h via operation => exact Option.some_inj
  | resetOrCreate h name e c v => exact Option.some_inj
  | _ => exact iff_of_false nofun id

/-- What a command that was carried out makes of the store in the guard of a number: the first one,
if it made the guard, and what its operation leaves, if it got through to it. -/
def Moment.replay (g : Nat) (m : Moment S ρ) (o : Option (Store S)) : Option (Store S) :=
  (m.command.first? g m.result).or
    (if passed m.result && m.command.used? = some g then o.map m.command.effect else o)

/-- The store in the guard of a number, as the commands that were carried out tell it. -/
def replay (g : Nat) : List (Happening S ρ) → Option (Store S)
  | [] => none
  | .did m :: H => m.replay g (replay g H)
  | _ :: H => replay g H

namespace Command.Treats

variable {sequence? : Nat → Option SequenceId} {k : Command S ρ} {x : Spot}
  {r : Except SequenceFault (Answer S ρ)} {g : Nat} {l l' : List (Guard S)} {o : Option (Store S)}

theorem replay_of_not_reaches (hk : passed r = true → ¬ k.Reaches g)
    (hfirst : k.first? g r = none) : (Moment.mk x k r).replay g o = o := by
  have hnot : ¬ (passed r && k.used? = some g) = true := by
    intro hboth
    obtain ⟨hpassed, hused⟩ := Bool.and_eq_true_iff.1 hboth
    exact hk hpassed (reaches_of_uses (used?_eq_some_iff.1 (of_decide_eq_true hused)))
  show (k.first? g r).or (if passed r && k.used? = some g then _ else o) = o
  rw [hfirst, if_neg hnot]
  rfl

/-- A command treats the store as it is told. -/
theorem replay (h : k.Treats sequence? r g l l') (hl : ∀ G ∈ l, o = some G.store) :
    ∀ G ∈ l', (Moment.mk x k r).replay g o = some G.store := by
  cases h with
  | spares hk hfirst =>
    rw [replay_of_not_reaches hk hfirst]
    exact hl
  | drops => nofun
  | takesOut => nofun
  | @makes G hk hfirst =>
    refine List.forall_mem_singleton.2 ?_
    show (k.first? g r).or _ = _
    rw [hfirst]
    rfl
  | @uses G hk hpassed hr =>
    refine List.forall_mem_singleton.2 ?_
    show (k.first? g r).or (if passed r && k.used? = some g then o.map k.effect else o) = _
    rw [Machine.first?_of_uses hk, hpassed, used?_eq_some_iff.2 hk,
      hl G (List.mem_singleton_self G)]
    simp
  | @handsOver G x q hk hx =>
    subst hk
    refine List.forall_mem_singleton.2 ?_
    show (none : Option (Store S)).or
      (if passed r && (none : Option Nat) = some g then _ else o) = _
    rw [hl G (List.mem_singleton_self G)]
    simp [Guard.transfer]

/-- Work that got through ran its operation on the store. -/
theorem of_uses (h : k.Treats sequence? r g l l') (hk : k.Uses g) (hpassed : passed r = true) :
    ∃ G, l = [G] ∧ r = k.outcome G.store := by
  cases h with
  | spares hnot => exact absurd (reaches_of_uses hk) (hnot hpassed)
  | drops hnot => exact absurd (reaches_of_uses hk) (hnot hpassed)
  | makes hnot => exact absurd (reaches_of_uses hk) hnot
  | @uses G _ _ hr => exact ⟨G, rfl, hr⟩
  | handsOver heq =>
    subst heq
    exact hk.elim
  | takesOut heq =>
    subst heq
    exact hk.elim

/-- What is told of a transfer that went through. -/
theorem of_transfer {i : Nat} {a : Reply S ρ}
    (h : (Command.transfer g i).Treats sequence? (.ok (.done a)) g l l') :
    ∃ G q, l = [G] ∧ sequence? i = some q ∧ l' = [G.transfer ⟨i, q⟩] := by
  cases h with
  | spares hnot => exact absurd rfl (hnot rfl)
  | drops hnot => exact absurd rfl (hnot rfl)
  | makes hnot => exact absurd rfl hnot
  | uses hk => exact hk.elim
  | @handsOver G x q heq hx =>
    cases heq
    exact ⟨G, q, rfl, hx, rfl⟩
  | takesOut heq => cases heq

/-- What is told of a store that was taken out. -/
theorem of_takeOut {a : Reply S ρ}
    (h : (Command.takeOut g).Treats sequence? (.ok (.done a)) g l l') :
    ∃ G, l = [G] ∧ a = .store G.store := by
  cases h with
  | spares hnot => exact absurd rfl (hnot rfl)
  | drops hnot => exact absurd rfl (hnot rfl)
  | makes hnot => exact absurd rfl hnot
  | uses hk => exact hk.elim
  | handsOver heq => cases heq
  | @takesOut G _ hr =>
    cases hr
    exact ⟨G, rfl, rfl⟩

end Command.Treats

/-! ## The law of guarded stores -/

namespace Scene

variable {c : Scene S ρ} {x : Spot} {w : World S ρ} {H K K' : List (Happening S ρ)} {g : Nat}
  {G : Guard S}

theorem sole_worldAt (h : c.world.Sole) : (c.worldAt x).Sole := by
  cases x with
  | plain i => exact ⟨h.held, h.fresh, h.alone⟩
  | worker r => exact h

theorem sole_withWorldAt (h : w.Sole) : (c.withWorldAt x w).world.Sole := by
  cases x with
  | plain i => exact ⟨h.held, h.fresh, h.alone⟩
  | worker r => exact h

theorem holdings_worldAt : (c.worldAt x).holdings g = c.world.holdings g := by
  cases x with
  | plain i => rfl
  | worker r => rfl

theorem holdings_withWorldAt : (c.withWorldAt x w).world.holdings g = w.holdings g := by
  cases x with
  | plain i => rfl
  | worker r => rfl

/-- The guarded stores are as the happenings tell. -/
structure Accounts (c : Scene S ρ) (H : List (Happening S ρ)) : Prop where
  /-- Each is at one place at most. -/
  sole : c.world.Sole
  /-- Inside is what the happenings tell. -/
  inside : ∀ g, ∀ G ∈ c.world.holdings g, replay g H = some G.store

/-- A command that a scene carries out moves guarded stores as it does in the world at that place.
-/
theorem turns_act (h : c.world.Sole) {k : Command S ρ} (hk : k.Prompt) :
    (c.worldAt x).Turns k ((act x k).run c).result
      ((execute 1 x.place [] k).run (c.worldAt x)).state :=
  Machine.turns_execute (n := 0) (sole_worldAt h) hk

/-- What keeps the guarded stores where they are does not add to their story. -/
theorem Accounts.lift_of_retains {α : Type} {y : Machine S ρ α} (h : c.Accounts H)
    (hy : (c.worldAt x).Retains (y.run (c.worldAt x)).state)
    (hreplay : ∀ g, replay g K = replay g H) : ((lift x y).run c).state.Accounts K where
  sole := sole_withWorldAt (hy.sole (sole_worldAt h.sole))
  inside g G hG := by
    change G ∈ (c.withWorldAt x _).world.holdings g at hG
    rw [holdings_withWorldAt] at hG
    rw [hreplay]
    rcases hy.keeps g with heq | heq
    · rw [heq, holdings_worldAt] at hG
      exact h.inside g G hG
    · rw [heq] at hG
      cases hG

/-- A command adds its own part to the story of the guarded stores. -/
theorem Accounts.act (h : c.Accounts H) {k : Command S ρ} (hk : k.Prompt) :
    ((act x k).run c).state.Accounts (.did ⟨x, k, ((act x k).run c).result⟩ :: H) := by
  have hturns := turns_act (x := x) h.sole hk
  refine ⟨sole_withWorldAt (hturns.sole (sole_worldAt h.sole)), fun g => ?_⟩
  have htreats := hturns.treats g
  rw [holdings_worldAt] at htreats
  change ∀ G ∈ (c.withWorldAt x _).world.holdings g, _
  rw [holdings_withWorldAt]
  exact htreats.replay (h.inside g)

theorem accounts_new : ({} : Scene S ρ).Accounts [] := by
  have hnone : ∀ g, ({} : World S ρ).holdings g = [] := by
    intro g
    rw [World.holdings, World.guard?, Array.getElem?_empty]
    rfl
  refine ⟨⟨?_, fun g _ => hnone g, fun g => ?_⟩, fun g G hG => ?_⟩
  · intro i c hc
    rw [Array.getElem?_empty] at hc
    cases hc
  · rw [hnone g]
    exact Nat.zero_le _
  · rw [hnone g] at hG
    cases hG

/-- What happened in a scene tells where each guarded store is and what is in it. -/
theorem Unfolds.accounts (h : Unfolds H c) : c.Accounts H := by
  induction h with
  | new => exact accounts_new
  | act before x k hk ih => exact ih.act hk
  | start before x r ih =>
    exact ih.lift_of_retains (Machine.retains_start (sole_worldAt ih.sole)) fun _ => rfl
  | close before r ih =>
    exact ih.lift_of_retains (Machine.retains_changeWorker (sole_worldAt ih.sole)
      fun _ _ => .refl _) fun _ => rfl
  | fail before r ih =>
    exact ih.lift_of_retains (Machine.retains_changeWorker (sole_worldAt ih.sole)
      fun _ _ => List.nil_sublist _) fun _ => rfl

/-- A run can be stopped at any happening. -/
theorem Unfolds.exists_of_append (h : Unfolds (K' ++ K) c) : ∃ a, Unfolds K a := by
  induction K' generalizing c with
  | nil => exact ⟨c, h⟩
  | cons e K' ih =>
    cases h with
    | act before => exact ih before
    | start before => exact ih before
    | close before => exact ih before
    | fail before => exact ih before

/-- What the last command of a run did to a guarded store. -/
theorem Unfolds.treats {m : Moment S ρ} (h : Unfolds (.did m :: K) c) (g : Nat) :
    ∃ l, (∀ G ∈ l, replay g K = some G.store) ∧
      m.command.Treats c.world.sequence? m.result g l (c.world.holdings g) := by
  cases h with
  | @act _ a before x k hk =>
    have hturns := turns_act (x := x) before.accounts.sole hk
    have htreats := hturns.treats g
    rw [holdings_worldAt] at htreats
    refine ⟨_, before.accounts.inside g, ?_⟩
    change k.Treats (a.withWorldAt x _).world.sequence? _ g _ ((a.withWorldAt x _).world.holdings g)
    rw [holdings_withWorldAt, sequence?_withWorldAt]
    exact htreats

/-- Where work does not get through, nothing changes. -/
theorem state_of_refused {k : Command S ρ} (hk : k.Uses g)
    (hpassed : passed ((act x k).run c).result = false) : ((act x k).run c).state = c := by
  show c.withWorldAt x ((execute 1 x.place [] k).run (c.worldAt x)).state = c
  rw [Machine.state_of_not_passed hk hpassed, withWorldAt_worldAt]

/-- What a run says about the guarded store of a number. -/
structure Transparent (H : List (Happening S ρ)) (c : Scene S ρ) (g : Nat) : Prop where
  /-- It is in its place or in one task that waits, or it is gone. -/
  alone : (c.world.holdings g).length ≤ 1
  /-- Inside is what the operations that got through made of the first store, in order. -/
  inside : ∀ G ∈ c.world.holdings g, replay g H = some G.store
  /-- A command that got through worked on what the operations before had made. -/
  accepted : ∀ m K K', H = K' ++ .did m :: K → passed m.result = true → m.command.Uses g →
    ∃ s, replay g K = some s ∧ m.result = m.command.outcome s
  /-- A command that is refused changes nothing. -/
  refused : ∀ x k, k.Uses g → passed ((act x k).run c).result = false →
    ((act x k).run c).state = c
  /-- A transfer leaves the store inside as it was.  The new owner is the other runner, and nothing
  is bound. -/
  handedOver : ∀ x r a K, H = .did ⟨x, .transfer g r, .ok (.done a)⟩ :: K →
    ∃ q s, c.world.sequence? r = some q ∧ replay g K = some s ∧
      c.world.holdings g = [{ home := ⟨r, q⟩, bound := none, store := s }]
  /-- What is taken out at last is what the operations made. -/
  takenOut : ∀ x a K K', H = K' ++ .did ⟨x, .takeOut g, .ok (.done a)⟩ :: K →
    ∃ s, a = .store s ∧ replay g K = some s

/-- In every run each guarded store is transparent. -/
theorem Unfolds.transparent (h : Unfolds H c) (g : Nat) : Transparent H c g where
  alone := h.accounts.sole.alone g
  inside := h.accounts.inside g
  accepted m K K' hH hpassed hk := by
    subst hH
    obtain ⟨a, ha⟩ := h.exists_of_append
    obtain ⟨l, hl, htreats⟩ := ha.treats g
    obtain ⟨G, rfl, hr⟩ := htreats.of_uses hk hpassed
    exact ⟨G.store, hl G (List.mem_singleton_self G), hr⟩
  refused _ _ hk hpassed := state_of_refused hk hpassed
  handedOver x r a K hH := by
    subst hH
    obtain ⟨l, hl, htreats⟩ := h.treats g
    obtain ⟨G, q, rfl, hq, hG⟩ := htreats.of_transfer
    exact ⟨q, G.store, hq, hl G (List.mem_singleton_self G), hG⟩
  takenOut x a K K' hH := by
    subst hH
    obtain ⟨b, hb⟩ := h.exists_of_append
    obtain ⟨l, hl, htreats⟩ := hb.treats g
    obtain ⟨G, rfl, hr⟩ := htreats.of_takeOut
    exact ⟨G.store, hr, hl G (List.mem_singleton_self G)⟩

/-- A store is used in a task of one worker, handed over, refused there and used in a task of the
other. -/
theorem Unfolds.transparent_two_workers :
    ∃ (H : List (Happening Schema.sample Unit)) (c : Scene Schema.sample Unit), Unfolds H c ∧
      (c.world.holdings 0).map (fun G => (G.home, G.bound)) = [(⟨1, ⟨2⟩⟩, some ⟨2⟩)] ∧
      (replay 0 H).map Store.entityCount = some 2 ∧ Transparent H c 0 := by
  have hposted : Unfolds (S := Schema.sample) (ρ := Unit) _ _ :=
    (((Unfolds.new.act
      (.plain 0) (.spawnWorker fun _ => "a") trivial).act
      (.plain 0) (.spawnWorker fun _ => "b") trivial).act
      (.plain 0) (.newGuard 0) trivial).act
      (.plain 0) (.postGuard 0 []) trivial
  have hhanded : Unfolds (S := Schema.sample) (ρ := Unit) _ _ :=
    ((((hposted.start
      (.worker 0) 0).act
      (.worker 0) (.access 0 .asserted (do let _ ← Store.create)) trivial).act
      (.worker 0) (.transfer 0 1) trivial).act
      (.worker 0) (.access 0 .checked (do let _ ← Store.create)) trivial).act
      (.worker 0) (.postGuard 0 []) trivial
  have hrun : Unfolds (S := Schema.sample) (ρ := Unit) _ _ :=
    (hhanded.start
      (.worker 1) 1).act
      (.worker 1) (.access 0 .asserted (do let _ ← Store.create)) trivial
  refine ⟨_, _, hrun, ?_, ?_, hrun.transparent 0⟩
  · rfl
  · rfl

end Scene

end EntityStore
