import EntityStore.Proofs.Contents

/-!
# The links of a hierarchy

`Links` are the four link components of one tag as functions of the entity.  What they lead to is
given by partial functions on entities (`Links.parentOf?` and those after it).  The links of a tag
can be read off the contents of a store (`Contents.links`) and be replaced in them
(`Contents.relink`), which touches nothing else.  An assignment to a link component is such a
replacement, so a sequence of them is one too.
-/

namespace EntityStore

/-- The links of one hierarchy. -/
@[ext]
structure Links where
  /-- The parent of each child. -/
  parent? : Entity → Option ParentLink
  /-- The neighbours of each child. -/
  siblings? : Entity → Option SiblingLinks
  /-- The head of the list of each parent. -/
  first? : Entity → Option FirstChild
  /-- The number of children of each parent. -/
  count? : Entity → Option ChildCount

namespace Links

/-- The parent that a child names. -/
def parentOf? (L : Links) (c : Entity) : Option Entity := (L.parent? c).map ParentLink.parent

/-- The neighbour after a child. -/
def nextOf? (L : Links) (c : Entity) : Option Entity := (L.siblings? c).map SiblingLinks.next

/-- The neighbour before a child. -/
def prevOf? (L : Links) (c : Entity) : Option Entity := (L.siblings? c).map SiblingLinks.prev

/-- The first child of a parent. -/
def headOf? (L : Links) (p : Entity) : Option Entity := (L.first? p).map FirstChild.first

/-- The number of children that is recorded for a parent, zero where none is. -/
def sizeOf (L : Links) (p : Entity) : Nat := ((L.count? p).map (·.size.toNat)).getD 0

theorem sizeOf_of_count? {L : Links} {p : Entity} {k : ChildCount} (hk : L.count? p = some k) :
    L.sizeOf p = k.size.toNat := by
  rw [sizeOf, hk]
  rfl

theorem isSome_parentOf? {L : Links} {c : Entity} :
    (L.parentOf? c).isSome = (L.parent? c).isSome := Option.isSome_map

theorem isSome_headOf? {L : Links} {p : Entity} :
    (L.headOf? p).isSome = (L.first? p).isSome := Option.isSome_map

theorem parentOf?_eq_some_iff {L : Links} {c p : Entity} :
    L.parentOf? c = some p ↔ L.parent? c = some ⟨p⟩ := by
  rw [parentOf?, Option.map_eq_some_iff]
  constructor
  · rintro ⟨⟨q⟩, hq, rfl⟩
    exact hq
  · exact fun hp => ⟨⟨p⟩, hp, rfl⟩

theorem headOf?_eq_some_iff {L : Links} {p h : Entity} :
    L.headOf? p = some h ↔ L.first? p = some ⟨h⟩ := by
  rw [headOf?, Option.map_eq_some_iff]
  constructor
  · rintro ⟨⟨x⟩, hx, rfl⟩
    exact hx
  · exact fun hh => ⟨⟨h⟩, hh, rfl⟩

end Links

/-- The tag of a component that is a link. -/
def Kind.tag? {D T : Type} : Kind D T → Option T
  | .data _ | .mark _ => none
  | .parentLink t | .siblingLinks t | .firstChild t | .childCount t => some t

/-! ## Links in the contents of a store -/

namespace Contents

variable {S : Schema} {m : Contents S} {e x : Entity} {c : Component S} {t u : S.Tag} {L : Links}

/-- The links of a tag. -/
def links (m : Contents S) (t : S.Tag) : Links where
  parent? e := m.value? e (.parentLink t)
  siblings? e := m.value? e (.siblingLinks t)
  first? e := m.value? e (.firstChild t)
  count? e := m.value? e (.childCount t)

/-- The contents with other links of a tag. -/
def relink (m : Contents S) (t : S.Tag) (L : Links) : Contents S :=
  { m with
    value? := fun e c =>
      match c with
      | .data d => m.value? e (.data d)
      | .mark k => m.value? e (.mark k)
      | .parentLink u => if u = t then L.parent? e else m.value? e (.parentLink u)
      | .siblingLinks u => if u = t then L.siblings? e else m.value? e (.siblingLinks u)
      | .firstChild u => if u = t then L.first? e else m.value? e (.firstChild u)
      | .childCount u => if u = t then L.count? e else m.value? e (.childCount u) }

@[simp] theorem live_relink : (m.relink t L).live = m.live := rfl

@[simp] theorem parentLink_relink : (m.relink t L).value? e (.parentLink t) = L.parent? e :=
  if_pos rfl

@[simp] theorem siblingLinks_relink : (m.relink t L).value? e (.siblingLinks t) = L.siblings? e :=
  if_pos rfl

@[simp] theorem firstChild_relink : (m.relink t L).value? e (.firstChild t) = L.first? e :=
  if_pos rfl

@[simp] theorem childCount_relink : (m.relink t L).value? e (.childCount t) = L.count? e :=
  if_pos rfl

@[simp] theorem links_relink : (m.relink t L).links t = L := by
  ext1 <;> (funext e; simp [links])

theorem value?_relink_of_tag (h : c.tag? ≠ some t) :
    (m.relink t L).value? e c = m.value? e c := by
  cases c with
  | data d => rfl
  | mark k => rfl
  | parentLink u => exact if_neg fun hu => h (congrArg some hu)
  | siblingLinks u => exact if_neg fun hu => h (congrArg some hu)
  | firstChild u => exact if_neg fun hu => h (congrArg some hu)
  | childCount u => exact if_neg fun hu => h (congrArg some hu)

theorem links_relink_of_ne (h : u ≠ t) : (m.relink t L).links u = m.links u := by
  ext1 <;> (funext e; exact if_neg h)

/-- Contents that agree on the links of a tag have the same links. -/
theorem links_eq_of_value? {m' : Contents S} (h : ∀ x (d : Component S), d.tag? = some t →
    m'.value? x d = m.value? x d) : m'.links t = m.links t := by
  ext1 <;> (funext x; exact h x _ rfl)

/-- Contents that agree on all but the links of a tag differ by these links only. -/
theorem eq_relink {m' : Contents S} (hlive : m'.live = m.live) (hname : m'.name = m.name)
    (hother : ∀ e c, c.tag? ≠ some t → m'.value? e c = m.value? e c) :
    m' = m.relink t (m'.links t) := by
  ext1
  · exact hlive
  · funext e c
    by_cases h : c.tag? = some t
    · cases c with
      | data d => simp [Kind.tag?] at h
      | mark k => simp [Kind.tag?] at h
      | parentLink u =>
        obtain rfl : u = t := Option.some.inj h
        exact (parentLink_relink (L := m'.links u)).symm
      | siblingLinks u =>
        obtain rfl : u = t := Option.some.inj h
        exact (siblingLinks_relink (L := m'.links u)).symm
      | firstChild u =>
        obtain rfl : u = t := Option.some.inj h
        exact (firstChild_relink (L := m'.links u)).symm
      | childCount u =>
        obtain rfl : u = t := Option.some.inj h
        exact (childCount_relink (L := m'.links u)).symm
    · rw [hother e c h, value?_relink_of_tag h]
  · exact hname

@[simp] theorem relink_links : m.relink t (m.links t) = m :=
  (eq_relink rfl rfl fun _ _ _ => rfl).symm

/-! ### Assignments to links -/

/-- An assignment to a component with another tag, or none, leaves the links alone. -/
theorem links_assign_of_tag {o : Option c.Value} (h : c.tag? ≠ some t) :
    (m.assign e c o).links t = m.links t := by
  have hne : ∀ d : Component S, d.tag? = some t → d ≠ c := fun d hd hdc => h (hdc ▸ hd)
  ext1 <;> funext x
  · exact value?_assign_of_ne (hne _ rfl)
  · exact value?_assign_of_ne (hne _ rfl)
  · exact value?_assign_of_ne (hne _ rfl)
  · exact value?_assign_of_ne (hne _ rfl)

theorem value?_assign (o : Option c.Value) :
    (fun x => (m.assign e c o).value? x c) = Function.update (fun x => m.value? x c) e o := by
  funext x
  by_cases hx : x = e
  · subst hx
    rw [value?_assign_self, Function.update_self]
  · rw [value?_assign_of_ne_entity hx, Function.update_of_ne hx]

theorem relink_assign {o : Option c.Value} (h : c.tag? = some t) :
    (m.relink t L).assign e c o = m.relink t (((m.relink t L).assign e c o).links t) := by
  refine eq_relink rfl rfl fun x d hd => ?_
  have hdc : d ≠ c := fun hdc => hd (hdc ▸ h)
  rw [value?_assign_of_ne hdc, value?_relink_of_tag hd]

theorem links_assign_parentLink (o : Option ParentLink) :
    (m.assign e (.parentLink t) o).links t =
      { m.links t with parent? := Function.update (m.links t).parent? e o } := by
  ext1
  · exact value?_assign (c := .parentLink t) o
  · exact funext fun x => value?_assign_of_ne (by simp)
  · exact funext fun x => value?_assign_of_ne (by simp)
  · exact funext fun x => value?_assign_of_ne (by simp)

theorem links_assign_siblingLinks (o : Option SiblingLinks) :
    (m.assign e (.siblingLinks t) o).links t =
      { m.links t with siblings? := Function.update (m.links t).siblings? e o } := by
  ext1
  · exact funext fun x => value?_assign_of_ne (by simp)
  · exact value?_assign (c := .siblingLinks t) o
  · exact funext fun x => value?_assign_of_ne (by simp)
  · exact funext fun x => value?_assign_of_ne (by simp)

theorem links_assign_firstChild (o : Option FirstChild) :
    (m.assign e (.firstChild t) o).links t =
      { m.links t with first? := Function.update (m.links t).first? e o } := by
  ext1
  · exact funext fun x => value?_assign_of_ne (by simp)
  · exact funext fun x => value?_assign_of_ne (by simp)
  · exact value?_assign (c := .firstChild t) o
  · exact funext fun x => value?_assign_of_ne (by simp)

theorem links_assign_childCount (o : Option ChildCount) :
    (m.assign e (.childCount t) o).links t =
      { m.links t with count? := Function.update (m.links t).count? e o } := by
  ext1
  · exact funext fun x => value?_assign_of_ne (by simp)
  · exact funext fun x => value?_assign_of_ne (by simp)
  · exact funext fun x => value?_assign_of_ne (by simp)
  · exact value?_assign (c := .childCount t) o

@[simp] theorem relink_assign_parentLink (o : Option ParentLink) :
    (m.relink t L).assign e (.parentLink t) o =
      m.relink t { L with parent? := Function.update L.parent? e o } := by
  rw [relink_assign rfl, links_assign_parentLink, links_relink]

@[simp] theorem relink_assign_siblingLinks (o : Option SiblingLinks) :
    (m.relink t L).assign e (.siblingLinks t) o =
      m.relink t { L with siblings? := Function.update L.siblings? e o } := by
  rw [relink_assign rfl, links_assign_siblingLinks, links_relink]

@[simp] theorem relink_assign_firstChild (o : Option FirstChild) :
    (m.relink t L).assign e (.firstChild t) o =
      m.relink t { L with first? := Function.update L.first? e o } := by
  rw [relink_assign rfl, links_assign_firstChild, links_relink]

@[simp] theorem relink_assign_childCount (o : Option ChildCount) :
    (m.relink t L).assign e (.childCount t) o =
      m.relink t { L with count? := Function.update L.count? e o } := by
  rw [relink_assign rfl, links_assign_childCount, links_relink]

end Contents

end EntityStore
