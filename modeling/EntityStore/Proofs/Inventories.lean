import EntityStore.Proofs.Nameless
import EntityStore.Proofs.Selection
import Mathlib.Data.List.Sort
import Mathlib.Data.String.Basic

/-!
# What an entity carries

A visit goes through all pools and lists the components whose pools have the entity, each with its
catalog entry.  It passes over a pool whose component is not in the catalog.  In a sound store there
is none, so the list is complete (`Store.Lists`).

The check of a whitelist names those of the listed components that are not allowed
(`Store.Verdict`).  It names them in ascending order, so the answer is the same for every order of
the pools, for every whitelist that allows the same components of the entity, and for all that other
entities carry (`Store.Verdict.unique`).
-/

namespace EntityStore

variable {S : Schema} {s s' u u' : Store S} {e : Entity} {c : Component S} {w w' : Whitelist S}
  {cs : List (Component S)} {rs rs' : List Report}

namespace Store

/-! ## The order of the pools -/

/-- Two stores differ at most in the order of their pools. -/
structure Reordered (s s' : Store S) : Prop where
  allocator : s'.allocator = s.allocator
  pools : s'.pools.entries.Perm s.pools.entries
  catalog : s'.catalog = s.catalog
  context : s'.context = s.context

/-- The pools may as well come in the reverse order. -/
theorem reordered_reverse (s : Store S) :
    s.Reordered { s with pools := ⟨s.pools.entries.reverse⟩ } :=
  ⟨rfl, List.reverse_perm _, rfl, rfl⟩

namespace Reordered

theorem nodup_keys (h : s.Reordered s') (hs : s.Sound) : s'.pools.keys.Nodup :=
  (h.pools.map Sigma.fst).nodup_iff.2 hs.pool_keys

/-- A pool is found wherever it stands in the table. -/
theorem pool?_eq (h : s.Reordered s') (hs : s.Sound) : s'.pool? c = s.pool? c := by
  ext p
  rw [pool?, pool?, ← Table.mem_entries_iff (h.nodup_keys hs),
    ← Table.mem_entries_iff hs.pool_keys, h.pools.mem_iff]

theorem valid_eq (h : s.Reordered s') : s'.valid e = s.valid e :=
  congrArg (·.isAlive e) h.allocator

theorem carries_eq (h : s.Reordered s') (hs : s.Sound) : s'.carries e c = s.carries e c := by
  rw [carries, h.pool?_eq hs, carries]

theorem sound (h : s.Reordered s') (hs : s.Sound) : s'.Sound where
  slots := h.allocator ▸ hs.slots
  pool_keys := h.nodup_keys hs
  packed c p hp := hs.packed c p (h.pool?_eq hs ▸ hp)
  owner_valid c p hp x hx := by
    rw [h.valid_eq]
    exact hs.owner_valid c p (h.pool?_eq hs ▸ hp) x hx
  listed c hc := by
    rw [h.catalog]
    refine hs.listed c ?_
    rwa [Table.contains, ← pool?, ← h.pool?_eq hs]

end Reordered

/-! ## Visits -/

/-- A list has the components of an entity, each of them once, with their catalog entries. -/
structure Lists (s : Store S) (e : Entity) (l : List (Component S × Info)) : Prop where
  /-- No component is listed twice. -/
  nodup : (l.map Prod.fst).Nodup
  /-- Those that the entity carries are listed, and no others. -/
  mem_iff : ∀ c, c ∈ l.map Prod.fst ↔ s.carries e c = true
  /-- A component is listed with what the catalog says of it now. -/
  info : ∀ c i, (c, i) ∈ l → s.catalog.get? c = some i

theorem Lists.name_eq {l : List (Component S × Info)} (h : s.Lists e l) {x : Component S × Info}
    (hx : x ∈ l) : x.2.name = s.catalog.nameOf x.1 := by
  rw [Catalog.nameOf, h.info x.1 x.2 hx]
  rfl

/-- What an entity carries is read off the table of pools, in the order of the table. -/
theorem carried_eq (s : Store S) (e : Entity) :
    s.carried e = (s.pools.entries.filter fun x => x.2.contains e).map Sigma.fst := by
  rw [carried, ← List.filterMap_eq_filter, ← List.filterMap_eq_map, List.filterMap_filterMap]
  refine List.filterMap_congr fun x _ => ?_
  cases hx : x.2.contains e <;> simp [hx, Option.guard]

/-- The pools of a sound store that have an entity are those of the components that it carries. -/
theorem Sound.mem_carried_iff (h : s.Sound) : c ∈ s.carried e ↔ s.carries e c = true := by
  simp only [carried_eq, List.mem_map, List.mem_filter, carries, Option.any_eq_true]
  constructor
  · rintro ⟨⟨c, p⟩, ⟨hp, he⟩, rfl⟩
    exact ⟨p, (Table.mem_entries_iff h.pool_keys).1 hp, he⟩
  · rintro ⟨p, hp, he⟩
    exact ⟨⟨c, p⟩, ⟨(Table.mem_entries_iff h.pool_keys).2 hp, he⟩, rfl⟩

/-- No component is visited twice. -/
theorem Sound.nodup_carried (h : s.Sound) : (s.carried e).Nodup := by
  rw [carried_eq]
  exact h.pool_keys.sublist (List.filter_sublist.map Sigma.fst)

/-- An entity is an orphan if no pool has it. -/
theorem isOrphan_eq (he : s.valid e = true) : s.isOrphan e = .ok (s.carried e).isEmpty := by
  have hall : (s.pools.all fun _ p => !p.contains e) = (s.carried e).isEmpty := by
    rw [carried_eq, List.isEmpty_map, Bool.eq_iff_iff]
    simp [Table.all, List.filter_eq_nil_iff]
  rw [isOrphan, assertValid_of_valid he, hall]
  rfl

/-- A visit of a live entity lists what it carries.  It lists nothing exactly if the entity is an
orphan. -/
theorem Sound.visit_lists (h : s.Sound) (he : s.valid e = true) :
    ∃ l, s.visit e = .ok l ∧ s.Lists e l ∧ s.isOrphan e = .ok l.isEmpty := by
  generalize hl : (s.pools.entries.filterMap fun x =>
    if x.2.contains e then (s.catalog.get? x.1).map (x.1, ·) else none) = l
  have hvisit : s.visit e = .ok l := by
    rw [visit, assertValid_of_valid he]
    exact congrArg Except.ok hl
  -- every pool has a catalog entry, so nothing is lost
  have hfst : l.map Prod.fst = s.carried e := by
    rw [← hl, List.map_filterMap, carried]
    refine List.filterMap_congr fun x hx => ?_
    obtain ⟨i, hi⟩ := Table.contains_iff_exists.1 (h.listed x.1
      (Table.contains_iff_mem_keys.2 (List.mem_map_of_mem hx)))
    rw [hi]
    split <;> rfl
  refine ⟨l, hvisit, ⟨hfst ▸ h.nodup_carried, fun c => hfst ▸ h.mem_carried_iff, ?_⟩, ?_⟩
  · intro c i hx
    rw [← hl, List.mem_filterMap] at hx
    obtain ⟨x, -, hx⟩ := hx
    split at hx
    · obtain ⟨i', hi', heq⟩ := Option.map_eq_some_iff.1 hx
      obtain ⟨rfl, rfl⟩ := Prod.mk.inj heq
      exact hi'
    · cases hx
  · rw [isOrphan_eq he, ← hfst, List.isEmpty_map]

end Store

/-! ## Whitelists -/

namespace Whitelist

/-- Allows some components, one after another. -/
def allowAll (w : Whitelist S) (cs : List (Component S)) : Whitelist S := cs.foldl allow w

theorem allows_allow {d : Component S} :
    (w.allow d).allows c = true ↔ w.allows c = true ∨ c = d := by
  simp only [allows, allow, List.contains_iff_mem]
  exact Store.mem_mention

theorem allows_allowAll :
    (w.allowAll cs).allows c = true ↔ w.allows c = true ∨ c ∈ cs := by
  induction cs generalizing w with
  | nil => simp [allowAll]
  | cons d cs ih =>
    have hstep : w.allowAll (d :: cs) = (w.allow d).allowAll cs := rfl
    rw [hstep, ih, allows_allow, List.mem_cons, or_assoc]

end Whitelist

namespace Store

/-- What the check of an entity may answer, if some components are allowed. -/
structure Verdict (s : Store S) (e : Entity) (allowed : Component S → Prop)
    (a : Except StoreError Unit) : Prop where
  /-- The entity passes exactly if all that it carries is allowed. -/
  ok_iff : a = .ok () ↔ ∀ c, s.carries e c = true → allowed c
  /-- Otherwise the error has the display names of the components that are not allowed, one name for
  each, in ascending order. -/
  unexpected : ∀ f, a = .error f → ∃ names, ∃ strays : List (Component S), f = .unexpected e names ∧
    names.Pairwise (· ≤ ·) ∧ names.Perm (strays.map s.catalog.nameOf) ∧ strays.Nodup ∧
    ∀ c, c ∈ strays ↔ s.carries e c = true ∧ ¬ allowed c

/-- Two stores have the same components for an entity, under the same names. -/
structure AlikeOn (s u : Store S) (e : Entity) : Prop where
  /-- The entity carries the same. -/
  carries : ∀ c, u.carries e c = s.carries e c
  /-- What it carries has the same names. -/
  name : ∀ c, s.carries e c = true → u.catalog.nameOf c = s.catalog.nameOf c

/-- The answer depends on nothing but the components of the entity, their names, and which of them
are allowed. -/
theorem Verdict.unique {allowed allowed' : Component S → Prop} {a a' : Except StoreError Unit}
    (h : s.Verdict e allowed a) (h' : u.Verdict e allowed' a') (halike : s.AlikeOn u e)
    (hallowed : ∀ c, s.carries e c = true → (allowed' c ↔ allowed c)) : a' = a := by
  obtain ⟨hcarries, hname⟩ := halike
  have hok : a' = .ok () ↔ a = .ok () := by
    rw [h.ok_iff, h'.ok_iff]
    refine forall_congr' fun c => ?_
    rw [hcarries]
    exact imp_congr_right (hallowed c)
  cases a with
  | ok _ => exact hok.2 rfl
  | error f =>
    cases a' with
    | ok _ => cases hok.1 rfl
    | error f' =>
      obtain ⟨names, strays, rfl, hsorted, hnames, hn, hstrays⟩ := h.unexpected f rfl
      obtain ⟨names', strays', rfl, hsorted', hnames', hn', hstrays'⟩ := h'.unexpected f' rfl
      have hperm : strays'.Perm strays := by
        refine (List.perm_ext_iff_of_nodup hn' hn).2 fun c => ?_
        rw [hstrays, hstrays', hcarries]
        exact and_congr_right fun hc => not_congr (hallowed c hc)
      have hsame : strays.map u.catalog.nameOf = strays.map s.catalog.nameOf :=
        List.map_congr_left fun c hc => hname c ((hstrays c).1 hc).1
      have heq : names' = names :=
        List.Perm.eq_of_pairwise (fun _ _ _ _ => String.le_antisymm) hsorted' hsorted
          (hnames'.trans ((hperm.map _).trans (hsame ▸ hnames.symm)))
      rw [heq]

/-- The names that a check comes upon are those of the components that are not allowed. -/
theorem Sound.exists_strays (h : s.Sound) (he : s.valid e = true) (w : Whitelist S) :
    ∃ ds : List (Component S), s.strays e w = .ok (ds.map s.catalog.nameOf) ∧ ds.Nodup ∧
      ∀ c, c ∈ ds ↔ s.carries e c = true ∧ ¬ w.allows c = true := by
  obtain ⟨l, hvisit, hl, -⟩ := h.visit_lists he
  refine ⟨(l.filter fun x => !w.allows x.1).map Prod.fst, ?_, ?_, fun c => ?_⟩
  · rw [strays, hvisit, List.map_map]
    refine congrArg Except.ok (List.map_congr_left fun x hx => hl.name_eq ?_)
    exact List.mem_of_mem_filter hx
  · exact hl.nodup.sublist (List.filter_sublist.map Prod.fst)
  · rw [← hl.mem_iff]
    simp

theorem run_checkWhitelist_of_strays {names : List String} (h : s.strays e w = .ok names) :
    (checkWhitelist e w).run s =
      { result := .ok (if names.isEmpty then .ok () else
          .error (.unexpected e (names.mergeSort fun a b => decide (a ≤ b))))
        state := s
        reports := names.map (strayComponent e) } := by
  simp only [checkWhitelist, Action.run_bind, Action.run_query, h, Action.run_reportAll,
    List.nil_append]
  split <;> simp only [Action.run_pure, List.append_nil]

/-- The check of a live entity answers, and changes nothing. -/
theorem Sound.run_checkWhitelist (h : s.Sound) (he : s.valid e = true) (w : Whitelist S) :
    ∃ a, ((checkWhitelist e w).run s).result = .ok a ∧
      ((checkWhitelist e w).run s).state = s ∧ s.Verdict e (w.allows · = true) a := by
  obtain ⟨ds, hstrays, hn, hmem⟩ := h.exists_strays he w
  rw [run_checkWhitelist_of_strays hstrays]
  refine ⟨_, rfl, rfl, ?_⟩
  cases ds with
  | nil =>
    refine ⟨iff_of_true rfl fun c hc => ?_, nofun⟩
    exact not_not.1 fun hnot => List.not_mem_nil ((hmem c).2 ⟨hc, hnot⟩)
  | cons d ds =>
    obtain ⟨hd, hnot⟩ := (hmem d).1 List.mem_cons_self
    refine ⟨iff_of_false nofun fun hall => hnot (hall d hd), ?_⟩
    rintro _ ⟨⟩
    exact ⟨_, d :: ds, rfl, List.pairwise_mergeSort' (· ≤ ·) _, List.mergeSort_perm .., hn, hmem⟩

/-- The list and the answer are the same for every order of the pools. -/
theorem Reordered.lists (h : s.Reordered s') (hs : s.Sound) {l : List (Component S × Info)}
    (hl : s'.Lists e l) : s.Lists e l where
  nodup := hl.nodup
  mem_iff c := by rw [hl.mem_iff, h.carries_eq hs]
  info c i hx := h.catalog ▸ hl.info c i hx

/-- A verdict does not depend on the order of the pools. -/
theorem Reordered.verdict (h : s.Reordered s') (hs : s.Sound) {allowed : Component S → Prop}
    {a : Except StoreError Unit} (ha : s'.Verdict e allowed a) : s.Verdict e allowed a := by
  obtain ⟨hok, hunexpected⟩ := ha
  simp only [h.carries_eq hs, h.catalog] at hok hunexpected
  exact ⟨hok, hunexpected⟩

/-- Whatever the order of the pools, the check ends with a verdict on the same components. -/
theorem Reordered.run_checkWhitelist (h : s.Reordered s') (hs : s.Sound) (he : s.valid e = true)
    (w : Whitelist S) (cs : List (Component S)) :
    ∃ a, ((checkWhitelist e (w.allowAll cs)).run s').result = .ok a ∧
      ((checkWhitelist e (w.allowAll cs)).run s').state = s' ∧
      s.Verdict e (fun c => w.allows c = true ∨ c ∈ cs) a := by
  obtain ⟨a, hresult, hstate, ha⟩ :=
    (h.sound hs).run_checkWhitelist (h.valid_eq.trans he) (w.allowAll cs)
  simp only [Whitelist.allows_allowAll] at ha
  exact ⟨a, hresult, hstate, h.verdict hs ha⟩

end Store

/-- On a store that a run leaves, starting from a new store, and in whatever order its pools stand,
a visit of a live entity lists each component that it carries once, and the check of a whitelist,
which was made by any number of allowances, names those that are not allowed.  Its answer is that of
the check in any other such store where the entity is the same, if the other whitelist allows the
same of what the entity carries. -/
theorem Run.visits_and_checks (h : Run ({} : Store S) rs s) (hr : s.Reordered s')
    (he : s.valid e = true) :
    (∃ l, s'.visit e = .ok l ∧ s.Lists e l ∧ s'.isOrphan e = .ok l.isEmpty) ∧
    ∀ (w : Whitelist S) (cs : List (Component S)), ∃ a,
      ((Store.checkWhitelist e (w.allowAll cs)).run s').result = .ok a ∧
      ((Store.checkWhitelist e (w.allowAll cs)).run s').state = s' ∧
      s.Verdict e (fun c => w.allows c = true ∨ c ∈ cs) a ∧
      ∀ {rs' : List Report} {u u' : Store S} (w' : Whitelist S) (cs' : List (Component S)),
        Run {} rs' u → u.Reordered u' → u.valid e = true → s.AlikeOn u e →
        (∀ c, s.carries e c = true →
          (w'.allows c = true ∨ c ∈ cs' ↔ w.allows c = true ∨ c ∈ cs)) →
        ((Store.checkWhitelist e (w'.allowAll cs')).run u').result = .ok a := by
  have hs := (h.sound Store.sound_empty).1
  obtain ⟨l, hvisit, hl, horphan⟩ := (hr.sound hs).visit_lists (hr.valid_eq.trans he)
  refine ⟨⟨l, hvisit, hr.lists hs hl, horphan⟩, fun w cs => ?_⟩
  obtain ⟨a, hresult, hstate, ha⟩ := hr.run_checkWhitelist hs he w cs
  refine ⟨a, hresult, hstate, ha, fun w' cs' hu hru heu halike hallowed => ?_⟩
  obtain ⟨a', hresult', -, ha'⟩ :=
    hru.run_checkWhitelist (hu.sound Store.sound_empty).1 heu w' cs'
  rw [hresult', ha.unique ha' halike hallowed]

/-- Two of the three components of an entity share a display name, and their pools stand in another
order than that of their creation.  One more pool has another entity only. -/
theorem Run.visits_and_checks_shared_name :
    ∃ (rs : List Report) (s s' : Store Schema.sample), Run {} rs s ∧ s.Reordered s' ∧
      s'.pools.keys = [.mark .unfinished, .mark .parked, .mark .doomed, .data ()] ∧
      s.catalog.nameOf (.mark .doomed) = s.catalog.nameOf (.mark .parked) ∧
      (∃ l, s'.visit ⟨0, 0⟩ = .ok l ∧ s.Lists ⟨0, 0⟩ l ∧
        s'.isOrphan ⟨0, 0⟩ = .ok l.isEmpty) ∧
      ∃ a, ((Store.checkWhitelist ⟨0, 0⟩ (({} : Whitelist Schema.sample).allowAll
          [.data (), .data ()])).run s').result = .ok a ∧
        s.Verdict ⟨0, 0⟩
          (fun c => ({} : Whitelist Schema.sample).allows c = true ∨ c ∈ [.data (), .data ()])
          a := by
  have hnew : Run (S := Schema.sample) {} _ _ :=
    ((((Run.refl {}).op (.call .create)).op (.call .create)).op
      (.setName (.mark .doomed) "mark")).op (.setName (.mark .parked) "mark")
  have hrun : Run (S := Schema.sample) {} _ _ :=
    (((hnew.op (.call (.attach ⟨0, 0⟩ (.data ()) (7 : Nat)))).op
      (.call (.attach ⟨0, 0⟩ (.mark .doomed) ()))).op
      (.call (.attach ⟨0, 0⟩ (.mark .parked) ()))).op (.beginConstruction ⟨1, 0⟩)
  obtain ⟨hvisit, hcheck⟩ :=
    hrun.visits_and_checks (e := ⟨0, 0⟩) (Store.reordered_reverse _) rfl
  obtain ⟨a, hresult, -, ha, -⟩ := hcheck {} [.data (), .data ()]
  exact ⟨_, _, _, hrun, Store.reordered_reverse _, rfl, rfl, hvisit, a, hresult, ha⟩

end EntityStore
