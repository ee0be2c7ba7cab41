import EntityStore.Proofs.Scripts

/-!
# Hierarchies of different tags do not interfere

If nothing else in a script looks at the hierarchies of some tags (`Script.Apart`), they can be left
out: all other operations end as they did, and all other components have the same values
(`Script.alike_without`).  So operations under two tags, one after the other, can be exchanged.  The
two together are `Script.hierarchies_apart`.
-/

namespace EntityStore

variable {S : Schema}

/-! ## Components apart from some hierarchies -/

theorem among_eq_true_iff {D : List S.Tag} {o : Option S.Tag} :
    Among D o = true ↔ ∃ t ∈ D, o = some t := by
  cases o with
  | none => simp [Among]
  | some t => simp [Among]

/-- The component is no link under some tags. -/
def Clear (D : List S.Tag) (c : Component S) : Prop := Among D c.tag? = false

/-- A component that is clear of some hierarchies is of none of them. -/
theorem not_ofTag_of_clear {D : List S.Tag} {c : Component S} {t : S.Tag} (ht : t ∈ D)
    (hc : Clear D c) : ¬ OfTag t c := by
  intro hct
  have hmem : Among D c.tag? = true := among_eq_true_iff.2 ⟨t, ht, hct⟩
  rw [hc] at hmem
  cases hmem

/-- A component of one hierarchy is clear of the others. -/
theorem clear_of_ofTag {D : List S.Tag} {c : Component S} {t : S.Tag} (ht : t ∉ D)
    (hct : OfTag t c) : Clear D c := by
  show Among D c.tag? = false
  rw [hct]
  simp [Among, ht]

theorem clear_singleton_iff {u : S.Tag} {c : Component S} : Clear [u] c ↔ c.tag? ≠ some u := by
  rw [Clear, Bool.eq_false_iff, Ne, among_eq_true_iff]
  simp

theorem clear_nil (c : Component S) : Clear [] c := by
  rw [Clear, Bool.eq_false_iff, Ne, among_eq_true_iff]
  simp

/-! ## Leaving hierarchies out -/

namespace Script

open EntityStore.Action

variable {D : List S.Tag} {p q : Script S} {s : Store S}

/-- A script under some tags leaves all components but their links alone, and all its events are
about these tags. -/
theorem idle_of_only (hp : p.Only D) (ε : Type) :
    Idle (Clear D) (fun es => ∀ v ∈ es, Among D v.tag? = true) (p.run ε) := by
  induction p generalizing ε with
  | done => exact idle_pure (by simp)
  | step k rest ih =>
    obtain ⟨hk, hrest⟩ := hp
    obtain ⟨t, ht, hkt⟩ := among_eq_true_iff.1 hk
    refine (k.spares hkt fun c hc => not_ofTag_of_clear ht hc).attempt.bind fun a _ => ?_
    refine (ih a (hrest a) ε).bind fun later hlater => idle_pure fun v hv => ?_
    rcases List.mem_cons.1 hv with rfl | hv
    · exact hk
    · exact hlater v hv
  | walk limit t parent visitor rest ihvisitor ih =>
    obtain ⟨ht, hvisitor, hrest⟩ := hp
    refine (Store.idle_visitChildren (fun p c => ihvisitor p c (hvisitor p c) Fault) limit
      parent).bind fun w hw => ?_
    refine (ih _ _ (hrest _ _) ε).bind fun later hlater => idle_pure fun v hv => ?_
    rcases List.mem_append.1 hv with hv | hv
    · obtain ⟨x, hx, hvx⟩ := List.mem_flatMap.1 hv
      exact hw x hx v hvx
    · rcases List.mem_cons.1 hv with rfl | hv
      · exact among_eq_true_iff.2 ⟨t, ht, rfl⟩
      · exact hlater v hv

/-- The events that are not about some tags. -/
def remaining (D : List S.Tag) (es : List (Event S)) : List (Event S) :=
  es.filter fun v => !Among D v.tag?

theorem remaining_append (es fs : List (Event S)) :
    remaining D (es ++ fs) = remaining D es ++ remaining D fs := List.filter_append es fs

theorem remaining_cons_of_among {v : Event S} (hv : Among D v.tag? = true) (es : List (Event S)) :
    remaining D (v :: es) = remaining D es := by
  simp [remaining, hv]

theorem remaining_cons_of_not_among {v : Event S} (hv : Among D v.tag? = false)
    (es : List (Event S)) : remaining D (v :: es) = v :: remaining D es := by
  simp [remaining, hv]

/-- What remains of a walk is what remains of its visits. -/
theorem remaining_flatMap {l l' : List (Entity × List (Event S))}
    (h : List.Forall₂ (fun x x' => x.1 = x'.1 ∧ remaining D x.2 = x'.2) l l') :
    remaining D (l.flatMap Prod.snd) = l'.flatMap Prod.snd := by
  induction h with
  | nil => rfl
  | cons hx _ ih => rw [List.flatMap_cons, List.flatMap_cons, remaining_append, hx.2, ih]

theorem remaining_flatMap_of_among {l : List (Entity × List (Event S))}
    (h : ∀ x ∈ l, ∀ v ∈ x.2, Among D v.tag? = true) : remaining D (l.flatMap Prod.snd) = [] := by
  rw [remaining, List.filter_eq_nil_iff]
  intro v hv
  obtain ⟨x, hx, hvx⟩ := List.mem_flatMap.1 hv
  simp [h x hx v hvx]

/-- If a script keeps some hierarchies apart, leaving them out changes none of the other events and
none of the other components. -/
theorem alike_without (hp : p.Apart D) (ε : Type) :
    Alike (Clear D) (fun es es' => remaining D es = es') (p.run ε) ((p.without D).run ε) := by
  induction p generalizing ε with
  | done => exact alike_pure rfl
  | step k rest ih =>
    obtain ⟨hk, hrest⟩ := hp
    cases hkD : Among D k.tag? with
    | true =>
      obtain ⟨t, ht, hkt⟩ := among_eq_true_iff.1 hkD
      rw [if_pos hkD] at hk
      rw [without, if_pos hkD, ← bind_pure (((rest _).without D).run ε)]
      refine Alike.skip (k.spares hkt fun c hc => not_ofTag_of_clear ht hc).attempt fun a _ => ?_
      rw [hk a (.error .exhausted)]
      refine (ih _ (hrest _) ε).bind fun later later' h => alike_pure ?_
      rw [remaining_cons_of_among hkD, h]
    | false =>
      rw [if_neg (by simp [hkD])] at hk
      rw [without, if_neg (by simp [hkD])]
      have hown : ∀ t, k.tag? = some t → ∀ c, OfTag t c → Clear D c := by
        intro t hkt c hct
        refine clear_of_ofTag (fun ht => ?_) hct
        have := among_eq_true_iff.2 ⟨t, ht, hkt⟩
        simp [hkD] at this
      refine (k.alike hown hk).attempt.bind fun a a' ha => ?_
      rw [← ha.eq]
      refine (ih a (hrest a) ε).bind fun later later' h => alike_pure ?_
      rw [remaining_cons_of_not_among hkD, h]
  | walk limit t parent visitor rest ihvisitor ih =>
    obtain ⟨hwalk, hrest⟩ := hp
    by_cases ht : t ∈ D
    · rw [if_pos ht] at hwalk
      obtain ⟨hvisitor, hsame⟩ := hwalk
      rw [without, if_pos ht, ← bind_pure (((rest _ _).without D).run ε)]
      refine Alike.skip (Store.idle_visitChildren
        (fun p c => idle_of_only (hvisitor p c) Fault) limit parent) fun w hw => ?_
      rw [← hsame (w.visited.map Prod.fst) w.failure]
      refine (ih _ _ (hrest _ _) ε).bind fun later later' h => alike_pure ?_
      rw [remaining_append, remaining_flatMap_of_among hw,
        remaining_cons_of_among (among_eq_true_iff.2 ⟨t, ht, rfl⟩), h, List.nil_append]
    · rw [if_neg ht] at hwalk
      rw [without, if_neg ht]
      refine (Store.alike_visitChildren (fun c hct => clear_of_ofTag ht hct)
        (fun p c => ihvisitor p c (hwalk p c) Fault) limit parent).bind fun w w' hw => ?_
      rw [← map_fst_eq_of_forall₂ (R := fun es es' => remaining D es = es') hw.visited,
        ← hw.failure]
      refine (ih _ _ (hrest _ _) ε).bind fun later later' h => alike_pure ?_
      have htD : Among D (some t) = false := by simp [Among, ht]
      rw [remaining_append, remaining_flatMap hw.visited, remaining_cons_of_not_among htD, h]

/-! ## Events -/

/-- A script does not fail, and ends with its events. -/
theorem result_run (p : Script S) (s : Store S) :
    ((p.run Empty).run s).result = .ok (p.events s) := by
  rw [events]
  cases ((p.run Empty).run s).result with
  | ok es => rfl
  | error e => exact e.elim

/-- Two scripts one after the other run one after the other. -/
theorem run_append (p q : Script S) (ε : Type) :
    (p.append q).run ε = (do
      let es ← p.run ε
      let fs ← q.run ε
      pure (es ++ fs)) := by
  induction p with
  | done => simp only [append, run, pure_bind, List.nil_append, bind_pure]
  | step k rest ih => simp only [append, run, ih, bind_assoc, pure_bind, List.cons_append]
  | walk limit t parent visitor rest _ ih =>
    simp only [append, run, ih, bind_assoc, pure_bind, List.append_assoc, List.cons_append]

theorem events_append (p q : Script S) (s : Store S) :
    (p.append q).events s = p.events s ++ q.events (p.after s) ∧
      (p.append q).after s = q.after (p.after s) := by
  have hp := run_bind_of_ok (fun es => do
    let fs ← q.run Empty
    pure (es ++ fs)) (result_run p s)
  have hq := run_bind_of_ok (fun fs => (pure (p.events s ++ fs) : Action (Store S) Empty _))
    (result_run q (p.after s))
  rw [← run_append] at hp
  constructor
  · have hresult := (result_run (p.append q) s).symm.trans (hp.1.trans hq.1)
    exact Except.ok.inj hresult
  · exact hp.2.trans hq.2

/-- Without the steps of some hierarchies the other events are the same, and so is what they leave.
-/
theorem events_without (hp : p.Apart D) {s' : Store S} (h : s.Agree (Clear D) s') :
    remaining D (p.events s) = (p.without D).events s' ∧
      (p.after s).Agree (Clear D) ((p.without D).after s') := by
  obtain ⟨hresult, hstate⟩ := alike_without hp Empty s s' h
  rw [result_run, result_run] at hresult
  cases hresult with
  | ok hes => exact ⟨hes, hstate⟩

/-- On stores that agree on all but the links of some hierarchies, a script that keeps these
hierarchies apart has the same other events. -/
theorem events_congr (hp : p.Apart D) {s' : Store S} (h : s.Agree (Clear D) s') :
    remaining D (p.events s) = remaining D (p.events s') ∧
      (p.after s).Agree (Clear D) (p.after s') := by
  obtain ⟨hes, hafter⟩ := events_without hp h
  obtain ⟨hes', hafter'⟩ := events_without hp (Store.Agree.refl s')
  exact ⟨hes.trans hes'.symm, hafter.trans hafter'.symm⟩

/-- Steps of some hierarchies leave everything else as it is. -/
theorem events_of_only (hp : p.Only D) (s : Store S) :
    (∀ v ∈ p.events s, Among D v.tag? = true) ∧ s.Agree (Clear D) (p.after s) := by
  obtain ⟨es, hresult, hes, hstate⟩ := idle_of_only hp Empty s
  obtain rfl := Except.ok.inj ((result_run p s).symm.trans hresult)
  exact ⟨hes, hstate⟩

theorem remaining_eq_self {t u : S.Tag} (htu : t ≠ u) {es : List (Event S)}
    (h : ∀ v ∈ es, Among [t] v.tag? = true) : remaining [u] es = es := by
  rw [remaining, List.filter_eq_self]
  intro v hv
  obtain ⟨t', ht', hvt⟩ := among_eq_true_iff.1 (h v hv)
  obtain rfl := List.mem_singleton.1 ht'
  simp [hvt, Among, htu]

/-- A script under one tag has the same events whether a script under another comes first or not,
and the links of the first are the same in the end. -/
theorem events_after_of_ne {t u : S.Tag} (htu : t ≠ u) (hp : p.Only [t]) (hpu : p.Apart [u])
    (hq : q.Only [u]) (s : Store S) :
    p.events (q.after s) = p.events s ∧
      (q.after (p.after s)).Agree (Clear [u]) (p.after (q.after s)) := by
  obtain ⟨hes, hafter⟩ := events_congr hpu (events_of_only hq s).2
  rw [remaining_eq_self htu (events_of_only hp _).1,
    remaining_eq_self htu (events_of_only hp _).1] at hes
  exact ⟨hes.symm, (events_of_only hq (p.after s)).2.symm.trans hafter⟩

/-- An operation that mentions no component keeps hierarchies apart if the rest does not depend on
how it ended. -/
theorem apart_step {k : Step S} (hk : k.mentioned = []) (hp : p.Apart D) :
    (step k fun _ => p).Apart D := by
  refine ⟨?_, fun _ => hp⟩
  split
  · exact fun _ _ => rfl
  · rw [hk]
    exact fun c hc => nomatch hc

theorem apart_nil (p : Script S) : p.Apart [] := by
  induction p with
  | done => exact trivial
  | step k rest ih =>
    refine ⟨?_, ih⟩
    rw [if_neg (by simp [among_eq_true_iff])]
    exact fun c _ => clear_nil c
  | walk limit t parent visitor rest ihvisitor ih =>
    refine ⟨?_, ih⟩
    rw [if_neg List.not_mem_nil]
    exact ihvisitor

theorem remaining_nil (es : List (Event S)) : remaining [] es = es := by
  rw [remaining, List.filter_eq_self]
  intro v _
  cases v.tag? <;> simp [Among]

/-- Hierarchies of two tags do not interfere.  If a script keeps one of them apart, leaving it out
changes none of the other events, which tell the answers and the failures of the other operations,
and no value of another component.  Scripts under the two tags, one after the other, can be
exchanged: their events are the same, and so are those of whatever comes after them, and all
values. -/
theorem hierarchies_apart {t u : S.Tag} (htu : t ≠ u) (s : Store S) :
    (∀ p : Script S, p.Apart [u] →
      (p.without [u]).events s = remaining [u] (p.events s) ∧
      (∀ e, ((p.without [u]).after s).valid e = (p.after s).valid e) ∧
      ∀ e c, c.tag? ≠ some u →
        ((p.without [u]).after s).lookup? e c = (p.after s).lookup? e c) ∧
    ∀ p q rest : Script S, p.Only [t] → p.Apart [u] → q.Only [u] → q.Apart [t] →
      ∃ later,
        (p.append (q.append rest)).events s = p.events s ++ (q.events s ++ later) ∧
        (q.append (p.append rest)).events s = q.events s ++ (p.events s ++ later) ∧
        (∀ e, ((p.append (q.append rest)).after s).valid e =
          ((q.append (p.append rest)).after s).valid e) ∧
        ∀ e c, ((p.append (q.append rest)).after s).lookup? e c =
          ((q.append (p.append rest)).after s).lookup? e c := by
  constructor
  · intro p hp
    obtain ⟨hes, hafter⟩ := events_without hp (Store.Agree.refl s)
    refine ⟨hes.symm, fun e => (hafter.valid e).symm, fun e c hc => (hafter.lookup? ?_ e).symm⟩
    exact clear_singleton_iff.2 hc
  · intro p q rest hp hpu hq hqt
    obtain ⟨hpes, hpq⟩ := events_after_of_ne htu hp hpu hq s
    obtain ⟨hqes, hqp⟩ := events_after_of_ne htu.symm hq hqt hp s
    have hagree : (q.after (p.after s)).Agree (Clear []) (p.after (q.after s)) := by
      refine .of_split hpq (hqp.symm.mono fun c hc => clear_singleton_iff.2 fun hct => ?_)
      rw [clear_singleton_iff, not_not, hct] at hc
      exact htu (Option.some.inj hc.2)
    obtain ⟨hlater, hend⟩ := events_congr rest.apart_nil hagree
    rw [remaining_nil, remaining_nil] at hlater
    simp only [events_append, hpes, hqes, hlater]
    exact ⟨_, rfl, rfl, hend.valid, fun e c => hend.lookup? (clear_nil c) e⟩

end Script

/-- A schema with no data and two hierarchies. -/
def Schema.twoTrees : Schema where
  Data := Empty
  Tag := Bool
  decEqData := inferInstance
  decEqTag := inferInstance
  Value := Empty.elim
  describe _ := ⟨"link", 8, 8⟩
  tagPath t := if t then "Upper" else "Lower"

/-- Two entities are each other's parents in two hierarchies.  A walk over one of them takes the
other apart, and an edit of the other fails.  If the walk itself did not fail, the parent is
destroyed too. -/
def Script.tangled : Script Schema.twoTrees :=
  .step .create fun _ => .step .create fun _ =>
  .step (.prependChild false ⟨0, 0⟩ ⟨1, 0⟩) fun _ =>
  .step (.prependChild true ⟨1, 0⟩ ⟨0, 0⟩) fun _ =>
  .step (.prependChild true ⟨0, 0⟩ ⟨0, 0⟩) fun _ =>
  .walk 8 false ⟨0, 0⟩
    (fun p c => .step (.removeChild true c p) fun _ => .step (.destroy c) fun _ => .done)
    fun _ failure =>
      match failure with
      | none => .step (.destroy ⟨0, 0⟩) fun _ => .done
      | some _ => .step (.ask false (.isParent ⟨0, 0⟩)) fun _ => .done

/-- An edit of one of the hierarchies, and a question about it. -/
def Script.under (t : Bool) : Script Schema.twoTrees :=
  .step (.prependChild t ⟨0, 0⟩ ⟨1, 0⟩) fun _ =>
  .step (.ask t (.listChildren ⟨0, 0⟩)) fun _ => .done

theorem Script.only_under (t : Bool) : (under t).Only [t] := by
  have ht : Among (S := Schema.twoTrees) [t] (some t) = true :=
    among_eq_true_iff.2 ⟨t, List.mem_singleton.2 rfl, rfl⟩
  exact ⟨ht, fun _ => ⟨ht, fun _ => trivial⟩⟩

theorem Script.apart_under (t u : Bool) : (under t).Apart [u] :=
  apart_step rfl (apart_step rfl trivial)

theorem Script.apart_tangled : tangled.Apart [true] := by
  have hfalse : ¬ (false : Schema.twoTrees.Tag) ∈ [true] :=
    fun h => Bool.false_ne_true (List.mem_singleton.1 h)
  refine apart_step rfl <| apart_step rfl <| apart_step rfl <| apart_step rfl <| apart_step rfl ?_
  refine ⟨(if_neg hfalse).mpr fun p c => apart_step rfl (apart_step rfl trivial), ?_⟩
  rintro children (_ | f)
  · exact apart_step rfl trivial
  · exact apart_step rfl trivial

/-- Without the second hierarchy, what the script does is the same but for the edits of that
hierarchy.  The edits under the two tags can be exchanged. -/
theorem Script.hierarchies_apart_tangled :
    (tangled.without [true]).events {} = remaining [true] (tangled.events {}) ∧
    (tangled.events {}).length = 9 ∧ ((tangled.without [true]).events {}).length = 6 ∧
    ∃ later,
      ((under false).append ((under true).append tangled)).events {} =
        (under false).events {} ++ ((under true).events {} ++ later) ∧
      ((under true).append ((under false).append tangled)).events {} =
        (under true).events {} ++ ((under false).events {} ++ later) := by
  obtain ⟨hleave, hexchange⟩ := hierarchies_apart (S := Schema.twoTrees) (t := false) (u := true)
    Bool.false_ne_true {}
  obtain ⟨later, hpq, hqp, -⟩ := hexchange _ _ tangled (only_under false)
    (apart_under false true) (only_under true) (apart_under true false)
  exact ⟨(hleave tangled apart_tangled).1, by decide +kernel, by decide +kernel, later, hpq, hqp⟩

end EntityStore
