import EntityStore.Proofs.Guarding
import EntityStore.Proofs.Runs

/-!
# Tokens and the scopes they were made in

A thread enters scopes and leaves them in well-nested order, the innermost open one first, and makes
tokens in them.  A thread keeps no history, so a `Ledger` has it: which scopes are open, and in
which scope each token was made.  `Nests p w l` says that the thread of a place came to where it is
in the world `w` in this way, with the history `l`.

A token has the sequence of its scope and nothing else of it.  So it is accepted while the innermost
open scope is of that sequence, be it the scope the token was made in or a later one
(`Nests.token_refused_iff`).
-/

namespace EntityStore

open EntityStore.Action

variable {S : Schema} {ρ : Type}

/-! ## The history of a thread -/

/-- What happened to the scopes and the tokens of a thread. -/
structure Ledger where
  /-- The sequence that was current before any scope was entered. -/
  base : Option SequenceId := none
  /-- The sequences of the scopes, in the order in which they were entered. -/
  entered : List SequenceId := []
  /-- The numbers of the scopes that are open, the innermost first. -/
  opened : List Nat := []
  /-- The number of the scope in which each token was made, if it was made in a scope. -/
  minted : List (Option Nat) := []

namespace Ledger

/-- The sequence that is current if the innermost open scope is the first of a list. -/
def inside (l : Ledger) : List Nat → Option SequenceId
  | [] => l.base
  | m :: _ => l.entered[m]?

/-- The sequence of the innermost open scope. -/
def innermost (l : Ledger) : Option SequenceId := l.inside l.opened

/-- A scope is entered. -/
def enter (l : Ledger) (q : SequenceId) : Ledger :=
  { l with entered := l.entered ++ [q], opened := l.entered.length :: l.opened }

/-- The innermost open scope is left. -/
def leave (l : Ledger) : Ledger := { l with opened := l.opened.tail }

/-- A token is made, if a sequence is current. -/
def mint (l : Ledger) : Ledger :=
  match l.innermost with
  | some _ => { l with minted := l.minted ++ [l.opened.head?] }
  | none => l

/-- Whether the scope in which a token was made was left. -/
def Outlived (l : Ledger) (n : Nat) : Prop := ∃ m, l.minted[n]? = some (some m) ∧ m ∉ l.opened

end Ledger

namespace World

variable {w : World S ρ} {p : Place} {t : Thread}

/-- Whether a place has a thread. -/
def HasThread (w : World S ρ) : Place → Prop
  | .main => True
  | .worker r => ∃ x t, w.engine? r = some (.worker x t)

theorem hasThread_setThread (h : w.HasThread p) : (w.setThread p t).HasThread p := by
  cases p with
  | main => trivial
  | worker r =>
    obtain ⟨x, u, hr⟩ := h
    refine ⟨x, t, ?_⟩
    unfold engine? setThread at *
    obtain ⟨c, hc, hx⟩ := Option.map_eq_some_iff.mp hr
    show Option.map Cell.engine (w.cells.modify r _)[r]? = _
    rw [Array.getElem?_modify, if_pos rfl, hc]
    simp [hx]

theorem thread_setThread (h : w.HasThread p) : (w.setThread p t).thread p = t := by
  cases p with
  | main => rfl
  | worker r =>
    obtain ⟨x, u, hr⟩ := h
    obtain ⟨c, hc, hx⟩ := Option.map_eq_some_iff.mp hr
    obtain ⟨held, waiters, engine⟩ := c
    subst hx
    simp [thread, setThread, Array.getElem?_modify, hc]

end World

/-- The thread of a place entered scopes, left the innermost open one each time, and made tokens.
Whatever else happened to the world meanwhile did not concern that thread. -/
inductive Nests (p : Place) : World S ρ → Ledger → Prop where
  /-- Nothing was done. -/
  | start {w : World S ρ} (hthread : w.HasThread p) (hscopes : (w.thread p).scopes = #[])
      (htokens : (w.thread p).tokens = #[]) : Nests p w { base := w.current p }
  /-- A scope was entered. -/
  | enter {w : World S ρ} {l : Ledger} (before : Nests p w l) (n : Nat) (path : List Nat)
      (q : SequenceId) :
      Nests p ((execute (n + 1) p path (.enterScope q)).run w).state (l.enter q)
  /-- The innermost open scope was left. -/
  | leave {w : World S ρ} {l : Ledger} (before : Nests p w l) (n : Nat) (path : List Nat) {m : Nat}
      (hm : l.opened.head? = some m) :
      Nests p ((execute (n + 1) p path (.leaveScope m)).run w).state l.leave
  /-- A token was to be made. -/
  | mint {w : World S ρ} {l : Ledger} (before : Nests p w l) (n : Nat) (path : List Nat) :
      Nests p ((execute (n + 1) p path .mintToken).run w).state l.mint
  /-- Something else was done. -/
  | other {w w' : World S ρ} {l : Ledger} (before : Nests p w l) (hthread : w'.HasThread p)
      (hsame : w'.thread p = w.thread p) : Nests p w' l

/-! ## What a thread has of its history -/

/-- What a thread has of its history. -/
structure Thread.Bears (t : Thread) (l : Ledger) : Prop where
  /-- The sequence of the innermost open scope is current. -/
  current : t.current = l.innermost
  /-- All scopes that were entered have numbers. -/
  size : t.scopes.size = l.entered.length
  /-- An open scope has its sequence and the one that was current around it. -/
  scope : ∀ m rest, m :: rest <:+ l.opened →
    ∃ q, l.entered[m]? = some q ∧ t.scope? m = some ⟨q, l.inside rest⟩
  /-- A scope inside another was entered later. -/
  later : (l.entered.length :: l.opened).Pairwise (· > ·)
  /-- All tokens that were made have numbers. -/
  count : t.tokens.size = l.minted.length
  /-- A token has the sequence of the scope in which it was made. -/
  token : ∀ n m : Nat, l.minted[n]? = some (some m) →
    ∃ q, l.entered[m]? = some q ∧ t.tokens[n]? = some q

namespace Thread.Bears

variable {t : Thread} {l : Ledger} {m : Nat} {q : SequenceId}

/-- A thread with no scopes and no tokens bears the ledger that begins with its sequence. -/
theorem start (hscopes : t.scopes = #[]) (htokens : t.tokens = #[]) :
    t.Bears { base := t.current } where
  current := rfl
  size := by rw [hscopes]; rfl
  scope m rest h := by cases List.suffix_nil.mp h
  later := List.pairwise_singleton _ _
  count := by rw [htokens]; rfl
  token n m h := by cases h

theorem lt_of_mem (h : t.Bears l) (hm : m ∈ l.opened) : m < l.entered.length :=
  (List.pairwise_cons.mp h.later).1 m hm

/-- What is current inside a scope that is open does not depend on later ones. -/
theorem inside_enter (h : t.Bears l) {rest : List Nat} (hrest : rest <:+ l.opened) :
    (l.enter q).inside rest = l.inside rest := by
  cases rest with
  | nil => rfl
  | cons m rest =>
    have hm := h.lt_of_mem (hrest.mem (List.mem_cons_self ..))
    show (l.entered ++ [q])[m]? = l.entered[m]?
    rw [List.getElem?_append_left hm]

/-- A scope that is entered is the innermost one of the ledger. -/
theorem enter (h : t.Bears l) (q : SequenceId) : (t.enterKept q).2.Bears (l.enter q) where
  current := (List.getElem?_concat_length ..).symm
  size := by
    show (t.scopes.push _).size = (l.entered ++ [q]).length
    rw [Array.size_push, List.length_append, h.size]
    rfl
  scope m rest hm := by
    show ∃ q', (l.entered ++ [q])[m]? = _ ∧ (t.scopes.push (some ⟨q, t.current⟩))[m]?.join = _
    cases List.suffix_cons_iff.mp hm with
    | inl hnew =>
      obtain ⟨rfl, rfl⟩ := List.cons.inj hnew
      refine ⟨q, List.getElem?_concat_length .., ?_⟩
      rw [h.inside_enter List.suffix_rfl, ← h.size, Array.getElem?_push_size, h.current]
      rfl
    | inr hold =>
      have hlt := h.lt_of_mem (hold.mem (List.mem_cons_self ..))
      obtain ⟨q', hq', hs⟩ := h.scope m rest hold
      rw [h.inside_enter ((List.suffix_cons m rest).trans hold), List.getElem?_append_left hlt,
        Array.getElem?_push, if_neg (h.size ▸ Nat.ne_of_lt hlt)]
      exact ⟨q', hq', hs⟩
  later := by
    refine List.pairwise_cons.mpr ⟨fun m hm => ?_, h.later⟩
    show m < (l.entered ++ [q]).length
    rw [List.length_append]
    cases hm with
    | head => exact Nat.lt_succ_self _
    | tail _ hm => exact Nat.lt_succ_of_lt (h.lt_of_mem hm)
  count := h.count
  token n m hm := by
    obtain ⟨q', hq', ht⟩ := h.token n m hm
    exact ⟨q', (List.getElem?_append_left (List.getElem?_eq_some_iff.mp hq').1).trans hq', ht⟩

/-- The innermost open scope is there, and it can be left. -/
theorem leave (h : t.Bears l) (hm : l.opened.head? = some m) :
    ∃ s t', t.scope? m = some s ∧ (t.forget m).leave s = .ok t' ∧ t'.Bears l.leave := by
  obtain ⟨rest, hopened⟩ : ∃ rest, l.opened = m :: rest := List.head?_eq_some_iff.mp hm
  obtain ⟨q, hq, hs⟩ := h.scope m rest (hopened ▸ List.suffix_rfl)
  have hcurrent : t.current = some q := by
    rw [h.current, Ledger.innermost, hopened]
    exact hq
  have hleave : l.leave = { l with opened := rest } := by rw [Ledger.leave, hopened]; rfl
  have hlater : (m :: rest).Pairwise (· > ·) := hopened ▸ (List.pairwise_cons.mp h.later).2
  refine ⟨_, { t.forget m with current := l.inside rest }, hs, if_pos hcurrent, ?_⟩
  rw [hleave]
  constructor
  case current => rfl
  case size =>
    show (t.scopes.setIfInBounds m none).size = _
    rw [Array.size_setIfInBounds, h.size]
  case scope =>
    intro i inner hi
    have hne : m ≠ i :=
      Nat.ne_of_gt ((List.pairwise_cons.mp hlater).1 i (hi.mem (List.mem_cons_self ..)))
    show ∃ q', _ ∧ (t.scopes.setIfInBounds m none)[i]?.join = _
    rw [Array.getElem?_setIfInBounds_ne hne]
    refine h.scope i inner ?_
    rw [hopened]
    exact hi.trans (List.suffix_cons m rest)
  case later =>
    refine List.pairwise_cons.mpr ⟨fun i hi => ?_, (List.pairwise_cons.mp hlater).2⟩
    exact h.lt_of_mem (hopened ▸ List.mem_cons_of_mem m hi)
  case count => exact h.count
  case token => exact h.token

/-- A token that is made has the sequence of the innermost open scope. -/
theorem mint (h : t.Bears l) : t.mint.2.Bears l.mint := by
  cases hcurrent : t.current with
  | none =>
    have ht : t.mint.2 = t := by rw [Thread.mint, hcurrent]
    have hl : l.mint = l := by rw [Ledger.mint, ← h.current, hcurrent]
    rw [ht, hl]
    exact h
  | some q =>
    have ht : t.mint.2 = { t with tokens := t.tokens.push q } := by rw [Thread.mint, hcurrent]
    have hl : l.mint = { l with minted := l.minted ++ [l.opened.head?] } := by
      rw [Ledger.mint, ← h.current, hcurrent]
    rw [ht, hl]
    refine ⟨h.current, h.size, h.scope, h.later, ?_, fun n m hm => ?_⟩
    · show (t.tokens.push q).size = (l.minted ++ [l.opened.head?]).length
      rw [Array.size_push, List.length_append, h.count]
      rfl
    · show ∃ q', l.entered[m]? = some q' ∧ (t.tokens.push q)[n]? = some q'
      cases Nat.lt_or_ge n l.minted.length with
      | inl hlt =>
        rw [List.getElem?_append_left hlt] at hm
        rw [Array.getElem?_push, if_neg (h.count ▸ Nat.ne_of_lt hlt)]
        exact h.token n m hm
      | inr hge =>
        have hlt := (List.getElem?_eq_some_iff.mp hm).1
        obtain rfl : n = l.minted.length := by
          rw [List.length_append, List.length_singleton] at hlt
          omega
        rw [List.getElem?_concat_length] at hm
        obtain ⟨rest, hopened⟩ := List.head?_eq_some_iff.mp (Option.some.inj hm)
        refine ⟨q, ?_, ?_⟩
        · rw [← hcurrent, h.current, Ledger.innermost, hopened]
          rfl
        · rw [← h.count, Array.getElem?_push_size]

end Thread.Bears

/-! ## Access with a token -/

namespace Nests

variable {p : Place} {w : World S ρ} {l : Ledger} {k : Command S ρ} {G : Guard S}
  {g i j m n : Nat} {path : List Nat} {q : SequenceId}

/-- What a command for scopes or tokens does. -/
theorem state_enterScope :
    ((execute (i + 1) p path (.enterScope q)).run w).state =
      w.setThread p ((w.thread p).enterKept q).2 := rfl

theorem state_mintToken :
    ((execute (i + 1) p path .mintToken).run w).state = w.setThread p (w.thread p).mint.2 := rfl

/-- Leaving a scope that can be left. -/
theorem state_leaveScope {s : Scope} {t : Thread} (hs : (w.thread p).scope? m = some s)
    (ht : ((w.thread p).forget m).leave s = .ok t) :
    ((execute (i + 1) p path (.leaveScope m)).run w).state =
      (w.setThread p ((w.thread p).forget m)).setThread p t := by
  have hend : (execute (i + 1) p path (.leaveScope m)).Ends w fun _ w' =>
      w' = (w.setThread p ((w.thread p).forget m)).setThread p t := by
    refine ends_state_bind ?_
    show Ends (Machine.withSome ((w.thread p).scope? m) _) w _
    rw [hs]
    refine ends_modify_bind (ends_query_bind (fun e he => ?_) fun t' ht' => ?_)
    · rw [ht] at he
      cases he
    · rw [ht] at ht'
      obtain rfl := Except.ok.inj ht'
      rfl
  exact hend

/-- By induction on what was done: the thread has of its history what `Thread.Bears` says. -/
theorem bears (h : Nests p w l) : w.HasThread p ∧ (w.thread p).Bears l := by
  induction h with
  | start hthread hscopes htokens => exact ⟨hthread, .start hscopes htokens⟩
  | enter before n path q ih =>
    rw [state_enterScope]
    refine ⟨World.hasThread_setThread ih.1, ?_⟩
    rw [World.thread_setThread ih.1]
    exact ih.2.enter q
  | @leave w l before n path m hm ih =>
    obtain ⟨s, t, hs, ht, hbears⟩ := ih.2.leave hm
    rw [state_leaveScope hs ht]
    have hforget : (w.setThread p ((w.thread p).forget m)).HasThread p :=
      World.hasThread_setThread ih.1
    refine ⟨World.hasThread_setThread hforget, ?_⟩
    rw [World.thread_setThread hforget]
    exact hbears
  | mint before n path ih =>
    rw [state_mintToken]
    refine ⟨World.hasThread_setThread ih.1, ?_⟩
    rw [World.thread_setThread ih.1]
    exact ih.2.mint
  | other before hthread hsame ih =>
    refine ⟨hthread, ?_⟩
    rw [hsame]
    exact ih.2

/-- The sequence of the innermost open scope is current. -/
theorem current_eq (h : Nests p w l) : w.current p = l.innermost := h.bears.2.current

/-- A token of the current sequence makes no difference. -/
theorem run_access_token_of_current (hq : (w.thread p).tokens[n]? = some q)
    (hcurrent : w.current p = some q) (operation : Action (Store S) Fault ρ) :
    (Machine.access p g G (.token n) operation).run w =
      (Machine.access p g G .asserted operation).run w := by
  have hcurrent : (w.thread p).current = some q := hcurrent
  simp only [Machine.access, run_bind, run_state, hq, Machine.withSome, hcurrent,
    Guard.checkToken_self]

theorem run_execute_token_of_current (hG : w.guard? g = some G)
    (hq : (w.thread p).tokens[n]? = some q) (hcurrent : w.current p = some q)
    (operation : Action (Store S) Fault ρ) :
    (execute (i + 1) p path (.access g (.token n) operation)).run w =
      (execute (i + 1) p path (.access g .asserted operation)).run w := by
  show (Action.state >>= _ : Machine S ρ _).run w = (Action.state >>= _ : Machine S ρ _).run w
  simp only [run_bind, run_state, Machine.perform, Machine.withSome, hG,
    run_access_token_of_current hq hcurrent]

/-- An access with a token that was made in a scope is refused as stale, and changes nothing, if the
innermost open scope is of another sequence, and only then.  Whether the scope of the token was left
makes no difference.  An access that is not refused so ends like one without a token. -/
theorem token_refused_iff (h : Nests p w l) (hG : w.guard? g = some G)
    (hn : l.minted[n]? = some (some m)) (operation : Action (Store S) Fault ρ) :
    ∃ q, l.entered[m]? = some q ∧
      (((execute (i + 1) p path (.access g (.token n) operation)).run w).result =
          .error (.refused (.staleToken q l.innermost)) ↔ l.innermost ≠ some q) ∧
      (l.innermost ≠ some q →
        ((execute (i + 1) p path (.access g (.token n) operation)).run w).state = w) ∧
      (l.innermost = some q →
        (execute (i + 1) p path (.access g (.token n) operation)).run w =
          (execute (i + 1) p path (.access g .asserted operation)).run w) := by
  obtain ⟨q, hq, htoken⟩ := h.bears.2.token n m hn
  have htries : (execute (i + 1) p path (.access g (.token n) operation)).Ends w
      (w.Tries p g G (.access g (.token n) operation)) := Machine.tries_execute rfl hG
  unfold Ends World.Tries at htries
  rw [← h.current_eq]
  refine ⟨q, hq, ?_, ?_, fun hcurrent =>
    run_execute_token_of_current hG htoken hcurrent operation⟩
  · cases htries with
    | through _ hcurrent hr _ =>
      refine iff_of_false (fun hstale => ?_) (not_not_intro ((hcurrent n rfl).symm.trans htoken))
      rw [hstale] at hr
      cases hr
    | wrong _ hcurrent hr _ =>
      refine iff_of_false (fun hstale => ?_) (not_not_intro ((hcurrent n rfl).symm.trans htoken))
      rw [hstale] at hr
      cases hr
    | stale hk hother hcurrent hr _ =>
      obtain rfl : n = _ := Option.some.inj hk
      obtain rfl := Option.some.inj (htoken.symm.trans hother)
      exact iff_of_true hr hcurrent
    | vacant hk hnone _ _ =>
      obtain rfl : n = _ := Option.some.inj hk
      rw [htoken] at hnone
      cases hnone
  · intro hne
    cases htries with
    | through _ hcurrent _ _ => exact absurd ((hcurrent n rfl).symm.trans htoken) hne
    | wrong _ _ _ hsame => exact hsame
    | stale _ _ _ _ hsame => exact hsame
    | vacant _ _ _ hsame => exact hsame

/-- A token outlives its scope, and the innermost open scope is of another sequence. -/
theorem token_refused_iff_other_sequence :
    ∃ (w : World Schema.sample Unit) (l : Ledger), Nests .main w l ∧ l.Outlived 0 ∧
      ((execute 1 .main [] (.access 0 (.token 0) (pure ()))).run w).result =
        .error (.refused (.staleToken ⟨1⟩ (some ⟨2⟩))) := by
  let w₀ : World Schema.sample Unit :=
    ((execute 1 .main [] (.newGuard 0)).run ((execute 1 .main [] .newManual).run {}).state).state
  have hstart : Nests .main w₀ {} := .start trivial rfl rfl
  have hrun := (((hstart.enter 0 [] ⟨1⟩).mint 0 []).leave 0 [] rfl).enter 0 [] ⟨2⟩
  obtain ⟨q, hq, hstale, -, -⟩ :=
    hrun.token_refused_iff (g := 0) (i := 0) (n := 0) rfl rfl (pure ())
  obtain rfl := Option.some.inj hq
  exact ⟨_, _, hrun, ⟨0, rfl, by decide⟩, hstale.mpr (by decide)⟩

/-- A token that outlives its scope is not always refused: in a new scope of the same sequence it is
accepted. -/
theorem not_refused_of_outlived :
    ¬ ∀ (w : World Schema.sample Unit) (l : Ledger) (g n : Nat) (G : Guard Schema.sample),
      Nests .main w l → w.guard? g = some G → l.Outlived n →
      ∃ q, ((execute 1 .main [] (.access g (.token n) (pure ()))).run w).result =
        .error (.refused (.staleToken q l.innermost)) := by
  intro hall
  let w₀ : World Schema.sample Unit :=
    ((execute 1 .main [] (.newGuard 0)).run ((execute 1 .main [] .newManual).run {}).state).state
  have hstart : Nests .main w₀ {} := .start trivial rfl rfl
  have hrun := (((hstart.enter 0 [] ⟨1⟩).mint 0 []).leave 0 [] rfl).enter 0 [] ⟨1⟩
  obtain ⟨q, hq⟩ := hall _ _ 0 0 _ hrun rfl ⟨0, rfl, by decide⟩
  cases hq

end Nests

end EntityStore
