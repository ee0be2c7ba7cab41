import EntityStore.Proofs.Calls

/-!
# A store refines its contents

`Store.replay` makes a list of calls one after another and keeps their answers.  The main theorem
says that a replay on a new store gives answers that an abstract store accepts, one after another,
from the empty contents on, and that the abstract store ends with the contents of the store
(`replay_accepted`).  A call changes no entry that it does not concern.
-/

namespace EntityStore

variable {S : Schema}

/-- A call with its answer. -/
abbrev Event (S : Schema) := (k : Call S) × Except Fault k.Answer

/-- Makes some calls one after another: the calls with their answers, and the store that is left.
A call that fails does not stop those after it. -/
def Store.replay (s : Store S) : List (Call S) → List (Event S) × Store S
  | [] => ([], s)
  | k :: ks =>
    let o := k.run.run s
    let (events, s') := o.state.replay ks
    (⟨k, o.result⟩ :: events, s')

namespace Contents

/-- Whether an abstract store may give some answers in turn and end with some contents. -/
inductive Accepts : Contents S → List (Event S) → Contents S → Prop where
  /-- No calls leave the contents as they are. -/
  | nil (m : Contents S) : Accepts m [] m
  /-- The first call is answered, and then the others. -/
  | cons {m m' m'' : Contents S} {k : Call S} {r : Except Fault k.Answer}
      {events : List (Event S)} (first : m.Allows k r m') (rest : Accepts m' events m'') :
      Accepts m (⟨k, r⟩ :: events) m''

variable {α : Type} {m m' : Contents S} {e x : Entity} {c d : Component S}

/-! ## What a call does not concern -/

theorem value?_assign_of_not {o : Option c.Value} (h : ¬ (x = e ∧ d = c)) :
    (m.assign e c o).value? x d = m.value? x d := by
  by_cases hx : x = e
  · exact value?_assign_of_ne fun hd => h ⟨hx, hd⟩
  · rw [value?_assign_of_ne_entity hx]

theorem value?_onLive {r : Except StoreError α} (h : m'.value? x d = m.value? x d) :
    (m.onLive e (r, m')).2.value? x d = m.value? x d := by
  unfold onLive
  split
  · exact h
  · rfl

theorem value?_withValue {g : c.Value → Contents S}
    (h : ∀ v, (g v).value? x d = m.value? x d) :
    (m.withValue e c g).2.value? x d = m.value? x d := by
  unfold withValue
  cases m.value? e c with
  | none => exact value?_onLive rfl
  | some v => exact value?_onLive (h v)

theorem value?_attach {v : c.Value} (h : ¬ (x = e ∧ d = c)) :
    (m.attach e c v).2.value? x d = m.value? x d := by
  unfold attach
  cases m.value? e c with
  | none => exact value?_onLive (value?_assign_of_not h)
  | some w => exact value?_onLive rfl

theorem value?_getOrAttach {make : Unit → Except Fault c.Value} (h : ¬ (x = e ∧ d = c)) :
    (m.getOrAttach e c make).2.value? x d = m.value? x d := by
  unfold getOrAttach
  split
  · cases m.value? e c with
    | some v => rfl
    | none =>
      cases make () with
      | ok v => exact value?_assign_of_not h
      | error f => rfl
  · rfl

/-- The entries that a call does not concern stay what they are. -/
theorem Allows.value?_eq {k : Call S} {r : Except Fault k.Answer} (ha : m.Allows k r m')
    (hk : ¬ k.Concerns x d) : m'.value? x d = m.value? x d := by
  cases k with
  | create =>
    rcases ha with ⟨e, -, -, -, rfl⟩ | ⟨-, rfl, -⟩
    · rfl
    · rfl
  | destroy e =>
    exact ha.2 ▸ value?_onLive (congrFun (value?_release_of_ne hk) d)
  | tryDestroy e =>
    exact ha.2 ▸ value?_onLive (congrFun (value?_release_of_ne hk) d)
  | attach e c v => exact ha.2 ▸ value?_attach hk
  | tryAttach e c v => exact ha.2 ▸ value?_attach hk
  | attachOrReplace e c v => exact ha.2 ▸ value?_onLive (value?_assign_of_not hk)
  | getOrAttach e c make => exact ha.2 ▸ value?_getOrAttach hk
  | has e c => exact ha.2 ▸ value?_onLive rfl
  | get e c => exact ha.2 ▸ value?_withValue fun _ => rfl
  | fetch e c => exact ha.2 ▸ value?_withValue fun _ => rfl
  | get? e c => exact ha.2 ▸ value?_onLive rfl
  | update e c f => exact ha.2 ▸ value?_withValue fun _ => value?_assign_of_not hk
  | tryUpdate e c f => exact ha.2 ▸ value?_withValue fun _ => value?_assign_of_not hk
  | update? e c f => exact ha.2 ▸ value?_onLive (value?_assign_of_not hk)
  | detach e c => exact ha.2 ▸ value?_withValue fun _ => value?_assign_of_not hk
  | tryDetach e c => exact ha.2 ▸ value?_withValue fun _ => value?_assign_of_not hk
  | detach? e c => exact ha.2 ▸ value?_onLive (value?_assign_of_not hk)
  | view c => exact ha.2 ▸ rfl
  | updateAll c f => exact ha.2 ▸ value?_revise_of_ne hk f

/-! ## What stays live -/

theorem live_onLive {α : Type} {r : Except StoreError α} (h : m'.live x = true)
    (hx : m.live x = true) : (m.onLive e (r, m')).2.live x = true := by
  unfold onLive
  split
  · exact h
  · exact hx

theorem live_withValue {g : c.Value → Contents S} (h : ∀ v, (g v).live x = true)
    (hx : m.live x = true) : (m.withValue e c g).2.live x = true := by
  unfold withValue
  cases m.value? e c with
  | none => exact live_onLive hx hx
  | some v => exact live_onLive (h v) hx

theorem live_attach {v : c.Value} (hx : m.live x = true) : (m.attach e c v).2.live x = true := by
  unfold attach
  cases m.value? e c with
  | none => exact live_onLive hx hx
  | some w => exact live_onLive hx hx

theorem live_getOrAttach {make : Unit → Except Fault c.Value} (hx : m.live x = true) :
    (m.getOrAttach e c make).2.live x = true := by
  unfold getOrAttach
  split
  · cases m.value? e c with
    | some v => exact hx
    | none => cases make () <;> exact hx
  · exact hx

/-- A live entity stays live, unless it is destroyed. -/
theorem Allows.live_of_live {k : Call S} {r : Except Fault k.Answer} (ha : m.Allows k r m')
    (hk : ∀ e, k = .destroy e ∨ k = .tryDestroy e → x ≠ e) (hx : m.live x = true) :
    m'.live x = true := by
  cases k with
  | create =>
    rcases ha with ⟨e, -, -, -, rfl⟩ | ⟨-, rfl, -⟩
    · exact live_issue_of_live hx
    · exact hx
  | destroy e =>
    have hxe := hk e (.inl rfl)
    exact ha.2 ▸ live_onLive ((live_release_of_ne hxe).trans hx) hx
  | tryDestroy e =>
    have hxe := hk e (.inr rfl)
    exact ha.2 ▸ live_onLive ((live_release_of_ne hxe).trans hx) hx
  | attach e c v => exact ha.2 ▸ live_attach hx
  | tryAttach e c v => exact ha.2 ▸ live_attach hx
  | attachOrReplace e c v => exact ha.2 ▸ live_onLive hx hx
  | getOrAttach e c make => exact ha.2 ▸ live_getOrAttach hx
  | has e c => exact ha.2 ▸ live_onLive hx hx
  | get e c => exact ha.2 ▸ live_withValue (fun _ => hx) hx
  | fetch e c => exact ha.2 ▸ live_withValue (fun _ => hx) hx
  | get? e c => exact ha.2 ▸ live_onLive hx hx
  | update e c f => exact ha.2 ▸ live_withValue (fun _ => hx) hx
  | tryUpdate e c f => exact ha.2 ▸ live_withValue (fun _ => hx) hx
  | update? e c f => exact ha.2 ▸ live_onLive hx hx
  | detach e c => exact ha.2 ▸ live_withValue (fun _ => hx) hx
  | tryDetach e c => exact ha.2 ▸ live_withValue (fun _ => hx) hx
  | detach? e c => exact ha.2 ▸ live_onLive hx hx
  | view c => exact ha.2 ▸ hx
  | updateAll c f => exact ha.2 ▸ hx

end Contents

/-! ## Replays -/

namespace Store

/-- Any list of calls ends with a sound store, and is accepted by the abstract one. -/
theorem Sound.replay {s : Store S} (h : s.Sound) (ks : List (Call S)) :
    (s.replay ks).2.Sound ∧ s.contents.Accepts (s.replay ks).1 (s.replay ks).2.contents := by
  induction ks generalizing s with
  | nil => exact ⟨h, .nil _⟩
  | cons k ks ih =>
    obtain ⟨hsound, hallowed⟩ := k.allowed h
    obtain ⟨hrest, haccepts⟩ := ih hsound.state
    exact ⟨hrest, .cons hallowed haccepts⟩

/-- Whatever calls are made on a new store, the abstract store accepts their answers and ends with
the contents of the store, and one more call changes only what it concerns. -/
theorem replay_accepted (ks : List (Call S)) :
    Contents.empty.Accepts (({} : Store S).replay ks).1
        (({} : Store S).replay ks).2.contents ∧
      ∀ (k : Call S) (x : Entity) (d : Component S), ¬ k.Concerns x d →
        (k.run.run (({} : Store S).replay ks).2).state.lookup? x d =
          (({} : Store S).replay ks).2.lookup? x d := by
  obtain ⟨hsound, haccepts⟩ := (sound_empty (S := S)).replay ks
  rw [contents_empty] at haccepts
  exact ⟨haccepts, fun k x d hk => (k.allowed hsound).2.value?_eq hk⟩

end Store

end EntityStore
