import EntityStore.Proofs.Guarding
import EntityStore.Proofs.Runs

/-!
# Whose work a guarded store lets through

A *scene* is a world with any number of threads beside those of its workers.  Direct commands run on
these threads in any order, one at a time.  They enter and leave scopes, make tokens, runners and
guarded stores, use the stores and hand them over.  `Scene.Leads H c` says that the moments `H`, the
latest first, lead to the scene `c`.

The check of a guarded store consults what the store is bound to before it asks for the owner.  The
two never differ: a store is bound to the sequence of its owner or to nothing, and it is bound
exactly if work got through to it since it was made or last handed over (`InUse`).  So the check
lets through the work of the owning sequence and no other (`Scene.Leads.lets_owner_through`).
-/

namespace EntityStore

open EntityStore.Action

variable {S : Schema} {ρ : Type}

/-! ## Scenes -/

/-- A thread on which commands run. -/
inductive Spot where
  /-- A thread that is no worker's. -/
  | plain (i : Nat)
  /-- The thread of a worker. -/
  | worker (r : Nat)

/-- The place of a thread, where a thread that is no worker's counts as the main thread. -/
def Spot.place : Spot → Place
  | .plain _ => .main
  | .worker r => .worker r

/-- A world with the threads that are no workers'. -/
structure Scene (S : Schema) (ρ : Type) where
  /-- The world. -/
  world : World S ρ := {}
  /-- The threads that are no workers', by their numbers. -/
  threads : Nat → Thread := fun _ => {}

namespace Scene

variable {c : Scene S ρ} {x : Spot} {k : Command S ρ} {w : World S ρ}

/-- The thread of a spot. -/
def thread (c : Scene S ρ) : Spot → Thread
  | .plain i => c.threads i
  | .worker r => c.world.thread (.worker r)

/-- The current sequence of a spot. -/
def current (c : Scene S ρ) (x : Spot) : Option SequenceId := (c.thread x).current

/-- The world as it is for a spot. -/
def worldAt (c : Scene S ρ) : Spot → World S ρ
  | .plain i => { c.world with main := c.threads i }
  | .worker _ => c.world

/-- The scene after the world for a spot has changed. -/
def withWorldAt (c : Scene S ρ) (x : Spot) (w : World S ρ) : Scene S ρ :=
  match x with
  | .plain i => ⟨{ w with main := c.world.main }, Function.update c.threads i w.main⟩
  | .worker _ => { c with world := w }

/-- Carries out a direct command, which starts no task and needs no bound on their depth. -/
def act (x : Spot) (k : Command S ρ) : Action (Scene S ρ) SequenceFault (Answer S ρ) := fun c =>
  let o := (execute 1 x.place [] k).run (c.worldAt x)
  { result := o.result, state := c.withWorldAt x o.state, reports := o.reports }

theorem thread_worldAt : (c.worldAt x).thread x.place = c.thread x := by
  cases x with
  | plain i => rfl
  | worker r => rfl

theorem sequence?_worldAt : (c.worldAt x).sequence? = c.world.sequence? := by
  cases x with
  | plain i => rfl
  | worker r => rfl

theorem guard?_worldAt : (c.worldAt x).guard? = c.world.guard? := by
  cases x with
  | plain i => rfl
  | worker r => rfl

theorem withWorldAt_worldAt : c.withWorldAt x (c.worldAt x) = c := by
  cases x with
  | plain i =>
    show (⟨c.world, Function.update c.threads i (c.threads i)⟩ : Scene S ρ) = c
    rw [Function.update_eq_self]
  | worker r => rfl

end Scene

/-- A command that was carried out. -/
structure Moment (S : Schema) (ρ : Type) where
  /-- Where it ran. -/
  spot : Spot
  /-- The command. -/
  command : Command S ρ
  /-- How it ended. -/
  result : Except SequenceFault (Answer S ρ)

/-- Direct commands lead from a new scene to a scene.  The latest comes first. -/
inductive Scene.Leads : List (Moment S ρ) → Scene S ρ → Prop where
  /-- Nothing was done. -/
  | new : Leads [] {}
  /-- A command comes last. -/
  | step {H : List (Moment S ρ)} {c : Scene S ρ} (before : Leads H c) (x : Spot)
      (k : Command S ρ) (hk : k.Direct) :
      Leads (⟨x, k, ((act x k).run c).result⟩ :: H) ((act x k).run c).state

/-- Whether work got through to a guarded store since the store was made or last handed over. -/
def InUse (g : Nat) : List (Moment S ρ) → Prop
  | [] => False
  | m :: H =>
    passed m.result = true ∧ m.command.Uses g ∨
      ¬ (passed m.result = true ∧ m.command.HandsOver g) ∧ InUse g H

/-! ## Bound stores -/

/-- The runners have sequences of their own, and each guarded store has one of them as its owner and
is bound to that if it is in use. -/
structure Settled (w : World S ρ) (H : List (Moment S ρ)) : Prop where
  /-- No two runners have the same sequence. -/
  unique : ∀ r r' q, w.sequence? r = some q → w.sequence? r' = some q → r = r'
  /-- No runner has the next sequence or a later one. -/
  fresh : ∀ r q, w.sequence? r = some q → q.number < w.nextId
  /-- The owner of a guarded store is a runner with the sequence that the store has for it. -/
  home : ∀ g G, w.guard? g = some G → w.sequence? G.home.runner = some G.home.sequence
  /-- A guarded store is bound to the sequence of its owner if it is in use, and else to nothing. -/
  bound : ∀ g G, w.guard? g = some G →
    G.bound = some G.home.sequence ∧ InUse g H ∨ G.bound = none ∧ ¬ InUse g H
  /-- What was not made yet is not in use. -/
  unused : ∀ g, w.guards.size ≤ g → ¬ InUse g H

namespace Settled

variable {w w' : World S ρ} {H : List (Moment S ρ)} {p : Place} {x : Spot} {k : Command S ρ}
  {r : Except SequenceFault (Answer S ρ)} {g : Nat} {G : Guard S}

/-- The check expects the sequence of the owner, whether the store is bound or not. -/
theorem expected_eq (h : Settled w H) (hG : w.guard? g = some G) :
    G.expected = G.home.sequence := by
  unfold Guard.expected
  cases h.bound g G hG with
  | inl hbound =>
    rw [hbound.1]
    rfl
  | inr hbound =>
    rw [hbound.1]
    rfl

/-- No command both uses a guard and hands it over. -/
theorem not_uses_and_handsOver : ¬ (k.Uses g ∧ k.HandsOver g) := by
  intro hboth
  cases k with
  | access h via operation => exact hboth.2
  | resetOrCreate h name e c v => exact hboth.2
  | _ => exact hboth.1

/-- A command that uses a guarded store is not about another. -/
theorem not_about_of_uses (hk : k.Uses g) {g' : Nat} (hne : g' ≠ g) :
    ¬ k.Uses g' ∧ ¬ k.HandsOver g' := by
  cases k with
  | access h via operation => exact ⟨fun hk' => hne (hk'.symm.trans hk), id⟩
  | resetOrCreate h name e c v => exact ⟨fun hk' => hne (hk'.symm.trans hk), id⟩
  | _ => exact hk.elim

/-- A command that hands a guarded store over is not about another. -/
theorem not_about_of_handsOver (hk : k.HandsOver g) {g' : Nat} (hne : g' ≠ g) :
    ¬ k.Uses g' ∧ ¬ k.HandsOver g' := by
  cases k with
  | transfer h r => exact ⟨id, fun hk' => hne (hk'.symm.trans hk)⟩
  | _ => exact hk.elim

/-- A store that was just handed over is not in use. -/
theorem not_inUse_of_handsOver (hk : k.HandsOver g) (hpassed : passed r = true) :
    ¬ InUse g (⟨x, k, r⟩ :: H) := by
  intro huse
  cases huse with
  | inl huse => exact not_uses_and_handsOver ⟨huse.2, hk⟩
  | inr huse => exact huse.1 ⟨hpassed, hk⟩

/-- A command that is not about a guarded store, or does not get through, does not change whether
the store is in use. -/
theorem inUse_cons_iff (hk : passed r = true → ¬ k.Uses g ∧ ¬ k.HandsOver g) :
    InUse g (⟨x, k, r⟩ :: H) ↔ InUse g H := by
  show passed r = true ∧ k.Uses g ∨ ¬ (passed r = true ∧ k.HandsOver g) ∧ InUse g H ↔ _
  grind

/-- In a new world every guard, there being none, is settled. -/
theorem new : Settled ({} : World S ρ) [] where
  unique r r' q hr := by
    rw [World.sequence?_of_size_le (Nat.zero_le r)] at hr
    cases hr
  fresh r q hr := by
    rw [World.sequence?_of_size_le (Nat.zero_le r)] at hr
    cases hr
  home g G hG := absurd (World.lt_size_of_guard? hG) (Nat.not_lt_zero g)
  bound g G hG := absurd (World.lt_size_of_guard? hG) (Nat.not_lt_zero g)
  unused g _ := id

section

variable {H' : List (Moment S ρ)} (h : Settled w H)
include h

/-- The guarded stores stay, and the runners keep their sequences. -/
theorem keep (huse : ∀ g, InUse g H' ↔ InUse g H) (hguards : w'.guards = w.guards)
    (hsequence : ∀ r q, w.sequence? r = some q → w'.sequence? r = some q)
    (hunique : ∀ r r' q, w'.sequence? r = some q → w'.sequence? r' = some q → r = r')
    (hfresh : ∀ r q, w'.sequence? r = some q → q.number < w'.nextId) : Settled w' H' := by
  have hguard? : w'.guard? = w.guard? := by
    funext g
    rw [World.guard?, hguards]
    rfl
  constructor
  case unique => exact hunique
  case fresh => exact hfresh
  case home =>
    intro g G hG
    rw [hguard?] at hG
    exact hsequence _ _ (h.home g G hG)
  case bound =>
    intro g G hG
    rw [hguard?] at hG
    rw [huse]
    exact h.bound g G hG
  case unused =>
    intro g hg
    rw [hguards] at hg
    rw [huse]
    exact h.unused g hg

/-- A runner with a new sequence. -/
theorem addRunner (huse : ∀ g, InUse g H' ↔ InUse g H)
    (hsequence : w'.sequence? = Function.update w.sequence? w.cells.size (some ⟨w.nextId⟩))
    (hguards : w'.guards = w.guards) (hnext : w'.nextId = w.nextId + 1) : Settled w' H' := by
  have hplace : ∀ y q, w'.sequence? y = some q →
      y = w.cells.size ∧ q = ⟨w.nextId⟩ ∨ w.sequence? y = some q := by
    intro y q hy
    rw [hsequence, Function.update_apply] at hy
    split at hy
    · exact .inl ⟨‹_›, (Option.some.inj hy).symm⟩
    · exact .inr hy
  refine h.keep huse hguards ?_ ?_ ?_
  · intro y q hy
    have hne : y ≠ w.cells.size := by
      intro heq
      rw [heq, World.sequence?_of_size_le (Nat.le_refl _)] at hy
      cases hy
    rw [hsequence, Function.update_of_ne hne]
    exact hy
  · intro y z q hy hz
    -- A sequence that a runner has already comes before the new one.
    cases hplace y q hy with
    | inl hy =>
      obtain ⟨rfl, rfl⟩ := hy
      cases hplace z _ hz with
      | inl hz => exact hz.1.symm
      | inr hz => exact absurd (h.fresh z _ hz) (Nat.lt_irrefl _)
    | inr hy =>
      cases hplace z q hz with
      | inl hz =>
        obtain ⟨rfl, rfl⟩ := hz
        exact absurd (h.fresh y _ hy) (Nat.lt_irrefl _)
      | inr hz => exact h.unique y z q hy hz
  · intro y q hy
    rw [hnext]
    cases hplace y q hy with
    | inl hy =>
      rw [hy.2]
      exact Nat.lt_succ_self _
    | inr hy => exact Nat.lt_succ_of_lt (h.fresh y q hy)

/-- A guarded store that is not bound. -/
theorem addGuard {y : Nat} {q : SequenceId} {s : Store S} (huse : ∀ g, InUse g H' ↔ InUse g H)
    (hy : w.sequence? y = some q) :
    Settled (w.addGuard { home := ⟨y, q⟩, store := s }) H' where
  unique := h.unique
  fresh := h.fresh
  home g G hG := by
    rw [World.guard?_addGuard] at hG
    split at hG
    · obtain rfl := Option.some.inj hG
      exact hy
    · exact h.home g G hG
  bound g G hG := by
    rw [huse]
    rw [World.guard?_addGuard] at hG
    split at hG
    · obtain rfl := Option.some.inj hG
      exact .inr ⟨rfl, h.unused g (by omega)⟩
    · exact h.bound g G hG
  unused g hg := by
    rw [huse]
    refine h.unused g (Nat.le_trans (Nat.le_succ _) ?_)
    simpa [World.addGuard] using hg

/-- Another guarded store in the place of one. -/
theorem setGuard {G' : Guard S} (hG : w.guard? g = some G)
    (hhome : w.sequence? G'.home.runner = some G'.home.sequence)
    (hbound : G'.bound = some G'.home.sequence ∧ InUse g H' ∨ G'.bound = none ∧ ¬ InUse g H')
    (hothers : ∀ g', g' ≠ g → (InUse g' H' ↔ InUse g' H)) :
    Settled (w.setGuard g (some G')) H' where
  unique := h.unique
  fresh := h.fresh
  home g' X hX := by
    cases Nat.decEq g' g with
    | isTrue heq =>
      rw [heq, World.guard?_setGuard_self (World.lt_size_of_guard? hG)] at hX
      obtain rfl := Option.some.inj hX
      exact hhome
    | isFalse hne =>
      rw [World.guard?_setGuard_of_ne hne] at hX
      exact h.home g' X hX
  bound g' X hX := by
    cases Nat.decEq g' g with
    | isTrue heq =>
      rw [heq, World.guard?_setGuard_self (World.lt_size_of_guard? hG)] at hX
      obtain rfl := Option.some.inj hX
      rw [heq]
      exact hbound
    | isFalse hne =>
      rw [World.guard?_setGuard_of_ne hne] at hX
      rw [hothers g' hne]
      exact h.bound g' X hX
  unused g' hg' := by
    have hsize : w.guards.size ≤ g' := by simpa [World.setGuard] using hg'
    have hlt := World.lt_size_of_guard? hG
    rw [hothers g' (by omega)]
    exact h.unused g' hsize

/-- A direct command keeps it so. -/
theorem does (hdoes : w.Does p k r w') : Settled w' (⟨x, k, r⟩ :: H) := by
  cases hdoes with
  | idle hk hsequence hguards hnext =>
    refine h.keep (fun g => inUse_cons_iff (hk · g)) hguards ?_ ?_ ?_
    · rw [hsequence]
      exact fun _ _ hy => hy
    · rw [hsequence]
      exact h.unique
    · intro y q hy
      rw [hsequence] at hy
      exact Nat.lt_of_lt_of_le (h.fresh y q hy) hnext
  | runner hk hsequence hguards hnext =>
    exact h.addRunner (fun g => inUse_cons_iff fun _ => hk g) hsequence hguards hnext
  | guard hk hy hw =>
    subst hw
    exact h.addGuard (fun g => inUse_cons_iff fun _ => hk g) hy
  | use hk hpassed hG hcurrent hw =>
    subst hw
    rw [h.expected_eq hG]
    have hhome := h.home _ _ hG
    refine h.setGuard hG hhome (.inl ⟨rfl, .inl ⟨hpassed, hk⟩⟩) ?_
    intro g' hne
    exact inUse_cons_iff fun _ => not_about_of_uses hk hne
  | handOver hk hpassed hG hy hw =>
    subst hw
    refine h.setGuard hG hy (.inr ⟨rfl, not_inUse_of_handsOver hk hpassed⟩) ?_
    intro g' hne
    exact inUse_cons_iff fun _ => not_about_of_handsOver hk hne

end

theorem worldAt {c : Scene S ρ} (h : Settled c.world H) : Settled (c.worldAt x) H := by
  cases x with
  | plain i => exact ⟨h.unique, h.fresh, h.home, h.bound, h.unused⟩
  | worker r => exact h

theorem withWorldAt {c : Scene S ρ} (h : Settled w H) : Settled (c.withWorldAt x w).world H := by
  cases x with
  | plain i => exact ⟨h.unique, h.fresh, h.home, h.bound, h.unused⟩
  | worker r => exact h

end Settled

namespace Scene

variable {c : Scene S ρ} {H : List (Moment S ρ)} {x : Spot} {k : Command S ρ} {g n : Nat}
  {G : Guard S} {q : SequenceId}

/-- What a direct command does to the world of its spot. -/
theorem does_act (h : Settled c.world H) (hk : k.Direct) :
    (execute 1 x.place [] k).Ends (c.worldAt x) ((c.worldAt x).Does x.place k) :=
  Machine.does_execute hk fun g G hG => ⟨_, h.worldAt.home g G hG⟩

/-- By induction on the run: what holds of a new scene is kept by each command. -/
theorem Leads.settled (h : Leads H c) : Settled c.world H := by
  induction h with
  | new => exact .new
  | step before x k hk ih => exact (ih.worldAt.does (does_act ih hk)).withWorldAt

/-! ## The check -/

/-- What the check of a guarded store does after the moments of a run. -/
structure Shelters (c : Scene S ρ) (H : List (Moment S ρ)) (g : Nat) (G : Guard S) : Prop where
  /-- The owner is a runner, and its sequence is the one that the store has for it. -/
  home : c.world.sequence? G.home.runner = some G.home.sequence
  /-- The store is bound to the sequence of its owner if work got through to it since it was made
  or last handed over, and else to nothing. -/
  bound : G.bound = some G.home.sequence ∧ InUse g H ∨ G.bound = none ∧ ¬ InUse g H
  /-- Without a token, work gets through if the sequence of the owner is current, and only then. -/
  passed_iff : ∀ (x : Spot) (k : Command S ρ), k.Uses g → k.token? = none →
    (passed ((act x k).run c).result = true ↔ c.current x = some G.home.sequence)
  /-- With a token, the sequence of the token must be current as well. -/
  passed_iff_token : ∀ (x : Spot) (k : Command S ρ) (n : Nat) (q : SequenceId),
    k.Uses g → k.token? = some n → (c.thread x).tokens[n]? = some q →
    (passed ((act x k).run c).result = true ↔
      c.current x = some G.home.sequence ∧ c.current x = some q)
  /-- A token of another sequence is refused as such, whatever sequence is current. -/
  stale : ∀ (x : Spot) (k : Command S ρ) (n : Nat) (q : SequenceId),
    k.Uses g → k.token? = some n → (c.thread x).tokens[n]? = some q → c.current x ≠ some q →
    ((act x k).run c).result = k.refusal (.staleToken q (c.current x))
  /-- Without a token or with one of the current sequence, work of another sequence than that of
  the owner is refused. -/
  wrong : ∀ (x : Spot) (k : Command S ρ), k.Uses g →
    (∀ n, k.token? = some n → ∃ q, (c.thread x).tokens[n]? = some q ∧ c.current x = some q) →
    c.current x ≠ some G.home.sequence →
    ((act x k).run c).result = k.refusal (.wrongSequence G.home.sequence (c.current x))
  /-- Where no work gets through, nothing changes. -/
  unchanged : ∀ (x : Spot) (k : Command S ρ), k.Uses g →
    passed ((act x k).run c).result = false → ((act x k).run c).state = c

/-- The check expects the sequence of the owner, and it is about the thread of the spot. -/
theorem Leads.tries (h : Leads H c) (x : Spot) (hk : k.Uses g) (hG : c.world.guard? g = some G) :
    k.Tries (c.thread x) G.home.sequence ((act x k).run c).result True
      (((act x k).run c).state = c) := by
  have hG' : (c.worldAt x).guard? g = some G := by
    rw [guard?_worldAt]
    exact hG
  have htries : (execute 1 x.place [] k).Ends (c.worldAt x) ((c.worldAt x).Tries x.place g G k) :=
    Machine.tries_execute hk hG'
  unfold Ends World.Tries at htries
  rw [thread_worldAt, h.settled.expected_eq hG] at htries
  refine htries.imp (fun _ => trivial) ?_
  intro hsame
  show c.withWorldAt x _ = c
  rw [hsame, withWorldAt_worldAt]

/-- After any run the guard lets in whom the history says, and no one else. -/
theorem Leads.shelters (h : Leads H c) (hG : c.world.guard? g = some G) : Shelters c H g G where
  home := h.settled.home g G hG
  bound := h.settled.bound g G hG
  passed_iff x k hk hnone := by
    cases h.tries x hk hG with
    | through hcurrent htoken hr _ => exact iff_of_true hr hcurrent
    | wrong hcurrent htoken hr hc =>
      rw [hr, Machine.passed_refusal]
      exact iff_of_false nofun hcurrent
    | stale htokens htoken hcurrent hr hc =>
      rw [hnone] at htokens
      cases htokens
    | vacant htokens htoken hr hc =>
      rw [hnone] at htokens
      cases htokens
  passed_iff_token x k n q hk hsome hq := by
    cases h.tries x hk hG with
    | through hcurrent htoken hr _ =>
      exact iff_of_true hr ⟨hcurrent, (htoken n hsome).symm.trans hq⟩
    | wrong hcurrent htoken hr hc =>
      rw [hr, Machine.passed_refusal]
      exact iff_of_false nofun fun hboth => hcurrent hboth.1
    | stale htokens htoken hcurrent hr hc =>
      obtain rfl := Option.some.inj (hsome.symm.trans htokens)
      obtain rfl := Option.some.inj (hq.symm.trans htoken)
      rw [hr, Machine.passed_refusal]
      exact iff_of_false nofun fun hboth => hcurrent hboth.2
    | vacant htokens htoken hr hc =>
      obtain rfl := Option.some.inj (hsome.symm.trans htokens)
      rw [hq] at htoken
      cases htoken
  stale x k n q hk hsome hq hcurrent := by
    cases h.tries x hk hG with
    | through _ htoken _ _ => exact absurd ((htoken n hsome).symm.trans hq) hcurrent
    | wrong _ htoken _ _ => exact absurd ((htoken n hsome).symm.trans hq) hcurrent
    | stale htokens htoken _ hr hc =>
      obtain rfl := Option.some.inj (hsome.symm.trans htokens)
      obtain rfl := Option.some.inj (hq.symm.trans htoken)
      exact hr
    | vacant htokens htoken hr hc =>
      obtain rfl := Option.some.inj (hsome.symm.trans htokens)
      rw [hq] at htoken
      cases htoken
  wrong x k hk htoken hcurrent := by
    cases h.tries x hk hG with
    | through hcurrent' _ _ _ => exact absurd hcurrent' hcurrent
    | wrong _ _ hr hc => exact hr
    | stale htokens htoken' hcurrent' hr hc =>
      obtain ⟨q, hq, hx⟩ := htoken _ htokens
      exact absurd (hx.trans (hq.symm.trans htoken')) hcurrent'
    | vacant htokens htoken' hr hc =>
      obtain ⟨q, hq, hx⟩ := htoken _ htokens
      rw [hq] at htoken'
      cases htoken'
  unchanged x k hk hr := by
    cases h.tries x hk hG with
    | through _ _ hr' _ =>
      rw [hr] at hr'
      cases hr'
    | wrong _ _ _ hc => exact hc
    | stale _ _ _ _ hc => exact hc
    | vacant _ _ _ hc => exact hc

theorem sequence?_withWorldAt : (c.withWorldAt x w).world.sequence? = w.sequence? := by
  cases x with
  | plain i => rfl
  | worker r => rfl

/-- A runner keeps its sequence. -/
theorem Leads.keeps (h : Leads H c) (hk : k.Direct) {r : Nat} (hr : c.world.sequence? r = some q) :
    ((act x k).run c).state.world.sequence? r = some q := by
  show (c.withWorldAt x _).world.sequence? r = some q
  have hdoes := does_act (x := x) h.settled hk
  unfold Ends at hdoes
  rw [sequence?_withWorldAt]
  rw [← sequence?_worldAt (x := x)] at hr
  cases hdoes with
  | idle _ hsequence => rw [hsequence, hr]
  | runner _ hsequence =>
    have hne : r ≠ (c.worldAt x).cells.size := by
      intro heq
      rw [heq, World.sequence?_of_size_le (Nat.le_refl _)] at hr
      cases hr
    rw [hsequence, Function.update_of_ne hne, hr]
  | guard _ _ hw => rw [hw]; exact hr
  | use _ _ _ _ hw => rw [hw]; exact hr
  | handOver _ _ _ _ hw => rw [hw]; exact hr

/-- Where work gets through, the sequence of the owner is current. -/
theorem Leads.current_of_passed (h : Leads H c) (hG : c.world.guard? g = some G) (hk : k.Uses g)
    (hpassed : passed ((act x k).run c).result = true) : c.current x = some G.home.sequence := by
  cases h.tries x hk hG with
  | through hcurrent _ _ _ => exact hcurrent
  | wrong _ _ hr _ =>
    rw [hr, Machine.passed_refusal] at hpassed
    cases hpassed
  | stale _ _ _ hr _ =>
    rw [hr, Machine.passed_refusal] at hpassed
    cases hpassed
  | vacant _ _ hr _ =>
    rw [hr] at hpassed
    cases hpassed

/-- After any run, each runner has a sequence of its own and keeps it, and the check of a guarded
store lets through the work of the owner and no other.  So it is not the case that two stores of
different owners let work through on one thread. -/
theorem Leads.lets_owner_through (h : Leads H c) :
    (∀ r r' q, c.world.sequence? r = some q → c.world.sequence? r' = some q → r = r') ∧
    (∀ (x : Spot) (k : Command S ρ), k.Direct → ∀ r q, c.world.sequence? r = some q →
      ((act x k).run c).state.world.sequence? r = some q) ∧
    (∀ g G, c.world.guard? g = some G → c.Shelters H g G) ∧
    ∀ (x : Spot) (g g' : Nat) (G G' : Guard S) (k k' : Command S ρ),
      c.world.guard? g = some G → c.world.guard? g' = some G' →
      G.home.runner ≠ G'.home.runner → k.Uses g → k'.Uses g' →
      ¬ (passed ((act x k).run c).result = true ∧ passed ((act x k').run c).result = true) := by
  refine ⟨h.settled.unique, fun x k hk r q => h.keeps hk, fun g G => h.shelters, ?_⟩
  intro x g g' G G' k k' hG hG' hne hk hk' hpassed
  have hcurrent := h.current_of_passed hG hk hpassed.1
  have hcurrent' := h.current_of_passed hG' hk' hpassed.2
  have hsame : G.home.sequence = G'.home.sequence :=
    Option.some.inj (hcurrent.symm.trans hcurrent')
  have hhome := h.settled.home g G hG
  rw [hsame] at hhome
  exact hne (h.settled.unique _ _ _ hhome (h.settled.home g' G' hG'))

/-- Two runners and their stores on one thread, and a token that outlives its scope: the first store
is used, handed over to the second runner and used there. -/
theorem lets_owner_through_two_runners :
    ∃ (H : List (Moment Schema.sample Unit)) (c : Scene Schema.sample Unit) (G G' : Guard _),
      Leads H c ∧ H.reverse.map (fun m => passed m.result) =
        [true, true, true, true, true, true, true, false, true, true, false, true, true, true] ∧
      c.world.guard? 0 = some G ∧ c.world.guard? 1 = some G' ∧
      G.home = ⟨1, ⟨2⟩⟩ ∧ G'.home = ⟨1, ⟨2⟩⟩ ∧ c.Shelters H 0 G := by
  have hrun : Leads (S := Schema.sample) (ρ := Unit) _ _ :=
    ((((((((((((((Leads.new.step (.plain 0) .newManual trivial).step
      (.plain 0) .newManual trivial).step
      (.plain 0) (.newGuard 0) trivial).step
      (.plain 0) (.newGuard 1) trivial).step
      (.plain 0) (.enterScope ⟨1⟩) trivial).step
      (.plain 0) .mintToken trivial).step
      (.plain 0) (.access 0 .asserted (pure ())) trivial).step
      (.plain 0) (.access 1 .asserted (pure ())) trivial).step
      (.plain 0) (.access 0 (.token 0) (pure ())) trivial).step
      (.plain 0) (.enterScope ⟨2⟩) trivial).step
      (.plain 0) (.access 0 (.token 0) (pure ())) trivial).step
      (.plain 0) (.access 1 .checked (pure ())) trivial).step
      (.plain 0) (.transfer 0 1) trivial).step
      (.plain 0) (.access 0 .checked (pure ())) trivial)
  exact ⟨_, _, _, _, hrun, rfl, rfl, rfl, rfl, rfl, hrun.lets_owner_through.2.2.1 0 _ rfl⟩

end Scene

end EntityStore
