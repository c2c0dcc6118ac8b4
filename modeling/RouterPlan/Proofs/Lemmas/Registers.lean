import RouterPlan.Proofs.Lemmas.Places

/-!
# The numbers of a register

A register is consistent when its numbers hang together (`Register.Consistent`): the root has the number zero, every other
place stands below one with a smaller number that lists it, and what is listed stands below the place that lists it, each under
a name of its own. Two steps change a register, and both keep it consistent: a place is edited where it stands
(`Consistent.put`), or a section is made under a name that is not taken (`Consistent.addChild`).

Numbers and paths then say the same. No two places share a path (`Consistent.eq_of_path_eq`, by induction on the number), and a
path leads to the number of the place that has it (`Consistent.find?_eq_some_iff`).
-/

namespace RouterPlan

namespace Register

variable {r r' : Register} {id j : Nat}

/-! ## What the two steps change -/

@[simp] theorem size_put (r : Register) (id : Nat) (p : Place) : (r.put id p).size = r.size := by
  simp [put, size]

@[simp] theorem order_put (r : Register) (id : Nat) (p : Place) : (r.put id p).order = r.order :=
  rfl

theorem place_put_self (h : id < r.size) (p : Place) : (r.put id p).place id = p := by
  have hlt : id < r.places.size := h
  simp [put, place, hlt]

theorem place_put_of_ne (h : j ≠ id) (p : Place) : (r.put id p).place j = r.place j := by
  simp [put, place, h.symm]

@[simp] theorem size_addChild (r : Register) (id : Nat) (name : String) : (r.addChild id name).size = r.size + 1 := by
  simp [addChild, put, size]

@[simp] theorem order_addChild (r : Register) (id : Nat) (name : String) : (r.addChild id name).order = r.order :=
  rfl

theorem place_addChild_self (h : id < r.size) (name : String) :
    (r.addChild id name).place id = { r.place id with children := (r.place id).children ++ [r.size] } := by
  rw [addChild, place_put_self]
  simp only [size, Array.size_push] at h ⊢
  omega

/-- The new section has the next number. -/
theorem place_addChild_size (h : id < r.size) (name : String) :
    (r.addChild id name).place r.size = .fresh r.order ((r.place id).path.child name) (some id) := by
  rw [addChild, place_put_of_ne (Nat.ne_of_gt h)]
  simp [place, size]

theorem place_addChild_of_ne (hj : j < r.size) (h : j ≠ id) (name : String) :
    (r.addChild id name).place j = r.place j := by
  have hlt : j < r.places.size := hj
  rw [addChild, place_put_of_ne h]
  simp [place, Array.getElem?_push, Nat.ne_of_lt hlt]

/-! ## Consistent registers -/

/-- How numbers, paths and links hang together, and what holds of every place. -/
structure Consistent (r : Register) : Prop where
  pos : 0 < r.size
  path_root : (r.place 0).path = .root
  parent_root : (r.place 0).parent = none
  linked : ∀ id < r.size, id ≠ 0 → ∃ above < id, (r.place id).parent = some above ∧ id ∈ (r.place above).children ∧
    ∃ name, (r.place id).path = (r.place above).path.child name
  listed : ∀ id < r.size, ∀ child ∈ (r.place id).children, child < r.size ∧ (r.place child).parent = some id
  apart : ∀ id < r.size, ((r.place id).children.map fun child => (r.place child).path).Nodup
  sound : ∀ id < r.size, (r.place id).Sound r.order

/-- A child is one segment below the place that lists it. -/
theorem Consistent.path_of_mem (h : r.Consistent) (hid : id < r.size) {child : Nat} (hchild : child ∈ (r.place id).children) :
    ∃ name, (r.place child).path = (r.place id).path.child name := by
  obtain ⟨hlt, hparent⟩ := h.listed id hid child hchild
  have hne : child ≠ 0 := by
    rintro rfl
    rw [h.parent_root] at hparent
    cases hparent
  obtain ⟨above, -, habove, -, hpath⟩ := h.linked child hlt hne
  rw [hparent] at habove
  cases habove
  exact hpath

/-- Children of a place with the same path are the same. -/
theorem Consistent.eq_of_mem (h : r.Consistent) (hid : id < r.size) {child other : Nat}
    (hchild : child ∈ (r.place id).children) (hother : other ∈ (r.place id).children)
    (hpath : (r.place child).path = (r.place other).path) : child = other :=
  List.inj_on_of_nodup_map (h.apart id hid) hchild hother hpath

/-- A place lists each child once. -/
theorem Consistent.nodup_children (h : r.Consistent) (hid : id < r.size) : (r.place id).children.Nodup :=
  (h.apart id hid).of_map _

/-- Each child of a place has another name. -/
theorem Consistent.nodup_names (h : r.Consistent) (hid : id < r.size) :
    ((r.place id).children.map fun child => (r.place child).path.name?).Nodup := by
  refine List.Nodup.map_on (fun child hchild other hother heq => ?_) (h.nodup_children hid)
  obtain ⟨name, hname⟩ := h.path_of_mem hid hchild
  obtain ⟨name', hname'⟩ := h.path_of_mem hid hother
  rw [hname, hname', Path.name?_child, Path.name?_child, Option.some.injEq] at heq
  exact h.eq_of_mem hid hchild hother (by rw [hname, hname', heq])

/-- No two places share a path. -/
theorem Consistent.eq_of_path_eq (h : r.Consistent) (hid : id < r.size) (hj : j < r.size)
    (hpath : (r.place id).path = (r.place j).path) : id = j := by
  -- Places below the root with the same path stand below places with the same path, whose numbers are smaller.
  induction id using Nat.strongRecOn generalizing j with
  | ind id ih =>
    by_cases hid0 : id = 0
    · by_cases hj0 : j = 0
      · rw [hid0, hj0]
      · obtain ⟨above, -, -, -, name, hname⟩ := h.linked j hj hj0
        rw [hid0, h.path_root, hname] at hpath
        exact absurd hpath.symm (Path.child_ne_root _ name)
    · obtain ⟨above, hlt, -, hmem, name, hname⟩ := h.linked id hid hid0
      by_cases hj0 : j = 0
      · rw [hj0, h.path_root, hname] at hpath
        exact absurd hpath (Path.child_ne_root _ name)
      · obtain ⟨above', hlt', -, hmem', name', hname'⟩ := h.linked j hj hj0
        rw [hname, hname', Path.child_inj] at hpath
        have hsame : above = above' := ih above hlt (Nat.lt_trans hlt hid) (Nat.lt_trans hlt' hj) hpath.1
        subst hsame
        exact h.eq_of_mem (Nat.lt_trans hlt hid) hmem hmem' (by rw [hname, hname', hpath.2])

/-- A name finds the child that has it. -/
theorem Consistent.child?_eq_some_iff (h : r.Consistent) (hid : id < r.size) {name : String} {child : Nat} :
    r.child? id name = some child ↔ child < r.size ∧ (r.place child).path = (r.place id).path.child name := by
  constructor
  · intro hc
    have hmem := List.mem_of_find?_eq_some hc
    obtain ⟨other, hother⟩ := h.path_of_mem hid hmem
    have hname : (r.place child).path.name? = some name := by simpa using List.find?_some hc
    rw [hother, Path.name?_child, Option.some.injEq] at hname
    exact ⟨(h.listed id hid child hmem).1, hname ▸ hother⟩
  · rintro ⟨hlt, hpath⟩
    have hne : child ≠ 0 := by
      rintro rfl
      exact Path.child_ne_root _ name (hpath.symm.trans h.path_root)
    obtain ⟨above, habove, -, hmem, other, hother⟩ := h.linked child hlt hne
    have hsame : above = id :=
      h.eq_of_path_eq (Nat.lt_trans habove hlt) hid (Path.child_inj.1 (hother.symm.trans hpath)).1
    rw [hsame] at hmem
    cases hc : r.child? id name with
    | none =>
      have hno := List.find?_eq_none.1 hc child hmem
      rw [hpath, Path.name?_child] at hno
      simp at hno
    | some found =>
      have hfound := List.mem_of_find?_eq_some hc
      obtain ⟨name', hname'⟩ := h.path_of_mem hid hfound
      have hname : (r.place found).path.name? = some name := by simpa using List.find?_some hc
      rw [hname', Path.name?_child, Option.some.injEq] at hname
      rw [h.eq_of_mem hid hfound hmem (by rw [hname', hpath, hname])]

/-- The path of a place leads to its number. -/
theorem Consistent.find?_path (h : r.Consistent) (hid : id < r.size) : r.find? (r.place id).path = some id := by
  induction id using Nat.strongRecOn with
  | ind id ih =>
    by_cases hid0 : id = 0
    · rw [hid0, h.path_root]
      rfl
    · obtain ⟨above, hlt, -, hmem, name, hname⟩ := h.linked id hid hid0
      have habove := ih above hlt (Nat.lt_trans hlt hid)
      have hchild := (h.child?_eq_some_iff (Nat.lt_trans hlt hid)).2 ⟨hid, hname⟩
      rw [find?] at habove
      rw [hname, find?, Path.child, List.foldlM_append, habove]
      simpa using hchild

/-- Names lead from a place to one whose path they continue. -/
theorem Consistent.path_of_foldlM (h : r.Consistent) {names : List String} {start : Nat} (hstart : start < r.size)
    (hfold : names.foldlM r.child? start = some id) : id < r.size ∧ (r.place id).path = (r.place start).path.extend names := by
  induction names generalizing start with
  | nil =>
    cases hfold
    exact ⟨hstart, (Path.extend_nil _).symm⟩
  | cons name names ih =>
    rw [List.foldlM_cons] at hfold
    obtain ⟨child, hchild, hrest⟩ := Option.bind_eq_some_iff.1 hfold
    obtain ⟨hlt, hpath⟩ := (h.child?_eq_some_iff hstart).1 hchild
    obtain ⟨hid, hend⟩ := ih hlt hrest
    exact ⟨hid, by rw [hend, hpath, Path.extend_child]⟩

/-- A path leads to a number exactly when the place of the number has that path. -/
theorem Consistent.find?_eq_some_iff (h : r.Consistent) {path : Path} :
    r.find? path = some id ↔ id < r.size ∧ (r.place id).path = path := by
  constructor
  · intro hfind
    obtain ⟨hid, hpath⟩ := h.path_of_foldlM h.pos hfind
    exact ⟨hid, by rw [hpath, h.path_root, Path.extend_root]⟩
  · rintro ⟨hid, rfl⟩
    exact h.find?_path hid

/-! ## The two steps keep registers consistent -/

/-- The register with nothing but a root is consistent. -/
theorem consistent_empty (order : OrderTable) : (empty order).Consistent := by
  have hone : ∀ id < (empty order).size, id = 0 := fun id hid => Nat.lt_one_iff.1 hid
  have hroot : (empty order).place 0 = .fresh order .root none := rfl
  refine ⟨Nat.one_pos, rfl, rfl, fun id hid hne => absurd (hone id hid) hne, fun id hid => ?_, fun id hid => ?_,
    fun id hid => ?_⟩ <;> rw [hone id hid, hroot]
  · exact fun child hchild => (nomatch hchild)
  · exact List.nodup_nil
  · exact Place.sound_fresh order .root none

/-- The version takes no part in how numbers hang together. -/
theorem Consistent.withVersion (h : r.Consistent) (version : Option String) : ({ r with version } : Register).Consistent :=
  ⟨h.pos, h.path_root, h.parent_root, h.linked, h.listed, h.apart, h.sound⟩

/-- A place that is edited where it stands, and stays sound, keeps a register consistent. -/
theorem Consistent.put (h : r.Consistent) {p : Place} (hpath : p.path = (r.place id).path)
    (hparent : p.parent = (r.place id).parent) (hchildren : p.children = (r.place id).children) (hp : p.Sound r.order) :
    (r.put id p).Consistent := by
  have hplace : ∀ j, (r.put id p).place j = p ∧ j = id ∨ (r.put id p).place j = r.place j := by
    intro j
    by_cases hj : j = id
    · subst hj
      by_cases hlt : j < r.size
      · exact .inl ⟨place_put_self hlt p, rfl⟩
      · refine .inr ?_
        have hle : r.places.size ≤ j := Nat.le_of_not_lt hlt
        simp [Register.put, place, hle]
    · exact .inr (place_put_of_ne hj p)
  have hlinks : ∀ j, ((r.put id p).place j).path = (r.place j).path ∧ ((r.put id p).place j).parent = (r.place j).parent ∧
      ((r.put id p).place j).children = (r.place j).children := by
    intro j
    rcases hplace j with ⟨hj, rfl⟩ | hj
    · rw [hj]
      exact ⟨hpath, hparent, hchildren⟩
    · rw [hj]
      exact ⟨rfl, rfl, rfl⟩
  have hpaths : ∀ j, ((r.put id p).place j).path = (r.place j).path := fun j => (hlinks j).1
  have hparents : ∀ j, ((r.put id p).place j).parent = (r.place j).parent := fun j => (hlinks j).2.1
  have hlists : ∀ j, ((r.put id p).place j).children = (r.place j).children := fun j => (hlinks j).2.2
  refine ⟨by simpa using h.pos, (hpaths 0).trans h.path_root, (hparents 0).trans h.parent_root, ?_, ?_, ?_, fun j hj => ?_⟩
  · simpa only [size_put, hpaths, hparents, hlists] using h.linked
  · simpa only [size_put, hparents, hlists] using h.listed
  · simpa only [size_put, hpaths, hlists] using h.apart
  · rw [size_put] at hj
    rcases hplace j with ⟨hj', -⟩ | hj' <;> rw [hj', order_put]
    · exact hp
    · exact h.sound j hj

/-- A new section changes neither the path nor the parent of any other. -/
theorem path_addChild (hid : id < r.size) (hj : j < r.size) (name : String) :
    ((r.addChild id name).place j).path = (r.place j).path ∧ ((r.addChild id name).place j).parent = (r.place j).parent := by
  by_cases hne : j = id
  · subst hne
    rw [place_addChild_self hid]
    exact ⟨rfl, rfl⟩
  · rw [place_addChild_of_ne hj hne]
    exact ⟨rfl, rfl⟩

/-- What a place lists after a section is made: what it listed, and the new section if that stands below it. -/
theorem children_addChild (hid : id < r.size) (hj : j < r.size) (name : String) :
    ((r.addChild id name).place j).children =
      if j = id then (r.place j).children ++ [r.size] else (r.place j).children := by
  by_cases hne : j = id
  · subst hne
    rw [place_addChild_self hid, if_pos rfl]
  · rw [place_addChild_of_ne hj hne, if_neg hne]

/-- The numbers after a section is made are those of before and the next one. -/
theorem lt_or_eq_of_lt_addChild {name : String} (hj : j < (r.addChild id name).size) : j < r.size ∨ j = r.size := by
  rw [size_addChild] at hj
  omega

/-- What is listed after a section is made stands below the place that lists it. -/
theorem Consistent.listed_addChild (h : r.Consistent) (hid : id < r.size) {name : String}
    (hj : j < (r.addChild id name).size) {child : Nat} (hchild : child ∈ ((r.addChild id name).place j).children) :
    child < (r.addChild id name).size ∧ ((r.addChild id name).place child).parent = some j := by
  have hold : ∀ {j}, j < r.size → child ∈ (r.place j).children →
      child < (r.addChild id name).size ∧ ((r.addChild id name).place child).parent = some j := by
    intro j hlt hchild
    obtain ⟨hless, hparent⟩ := h.listed j hlt child hchild
    exact ⟨by rw [size_addChild]; omega, (path_addChild hid hless name).2.trans hparent⟩
  rcases lt_or_eq_of_lt_addChild hj with hlt | rfl
  · rw [children_addChild hid hlt] at hchild
    split at hchild
    · rename_i hsame
      rcases List.mem_append.1 hchild with hchild | hchild
      · exact hold hlt hchild
      · rw [List.mem_singleton.1 hchild, place_addChild_size hid, hsame]
        exact ⟨by simp, rfl⟩
    · exact hold hlt hchild
  · rw [place_addChild_size hid] at hchild
    cases hchild

/-- A section made under a name that is not taken has another path than those beside it. -/
theorem Consistent.apart_addChild (h : r.Consistent) (hid : id < r.size) {name : String} (hnone : r.child? id name = none)
    (hj : j < (r.addChild id name).size) :
    (((r.addChild id name).place j).children.map fun child => ((r.addChild id name).place child).path).Nodup := by
  have hsame : ∀ {j}, j < r.size → (r.place j).children.map (fun child => ((r.addChild id name).place child).path) =
      (r.place j).children.map fun child => (r.place child).path := fun hlt =>
    List.map_congr_left fun child hchild => (path_addChild hid (h.listed _ hlt child hchild).1 name).1
  rcases lt_or_eq_of_lt_addChild hj with hlt | rfl
  · rw [children_addChild hid hlt]
    split
    · rename_i hat
      subst hat
      rw [List.map_append, hsame hlt, List.map_singleton, place_addChild_size hid]
      refine List.nodup_append.2 ⟨h.apart j hlt, List.nodup_singleton _, ?_⟩
      rintro path hold _ hnew rfl
      obtain ⟨child, hchild, rfl⟩ := List.mem_map.1 hold
      have htaken := (h.child?_eq_some_iff hlt).2 ⟨(h.listed j hlt child hchild).1, List.mem_singleton.1 hnew⟩
      rw [hnone] at htaken
      cases htaken
    · rw [hsame hlt]
      exact h.apart j hlt
  · rw [place_addChild_size hid]
    exact List.nodup_nil

/-- A section made under a name that is not taken keeps a register consistent. -/
theorem Consistent.addChild (h : r.Consistent) (hid : id < r.size) {name : String} (hnone : r.child? id name = none) :
    (r.addChild id name).Consistent := by
  have hpath := fun {j} (hj : j < r.size) => (path_addChild hid hj name).1
  have hparent := fun {j} (hj : j < r.size) => (path_addChild hid hj name).2
  refine ⟨by simp, (hpath h.pos).trans h.path_root, (hparent h.pos).trans h.parent_root, fun j hj hne => ?_,
    fun j hj child hchild => h.listed_addChild hid hj hchild, fun j hj => h.apart_addChild hid hnone hj, fun j hj => ?_⟩
  · rcases lt_or_eq_of_lt_addChild hj with hlt | rfl
    · obtain ⟨above, hless, habove, hmem, other, hother⟩ := h.linked j hlt hne
      have habove' := Nat.lt_trans hless hlt
      refine ⟨above, hless, (hparent hlt).trans habove, ?_, other, by rw [hpath hlt, hpath habove', hother]⟩
      rw [children_addChild hid habove']
      split
      · exact List.mem_append_left _ hmem
      · exact hmem
    · refine ⟨id, hid, by rw [place_addChild_size hid]; rfl, ?_, name, by rw [place_addChild_size hid, hpath hid]; rfl⟩
      rw [children_addChild hid hid, if_pos rfl]
      exact List.mem_append_right _ List.mem_cons_self
  · rw [order_addChild]
    rcases lt_or_eq_of_lt_addChild hj with hlt | rfl
    · by_cases hne : j = id
      · subst hne
        rw [place_addChild_self hid]
        exact ⟨(h.sound j hlt).wellFormed, (h.sound j hlt).filed⟩
      · rw [place_addChild_of_ne hlt hne]
        exact h.sound j hlt
    · rw [place_addChild_size hid]
      exact Place.sound_fresh r.order _ _

end Register

end RouterPlan
