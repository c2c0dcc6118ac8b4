import RouterPlan.Proofs.Lemmas.Outlines

/-!
# Outlines whose entries know their paths

`Outline.Placed` says that each child lies one segment below its parent and that siblings have different paths. In such an
outline a path leads to an entry exactly when the entry is there and has that path (`get?_eq_some_iff`), no two entries
share a path (`Placed.nodup_paths`), and edits keep it so (`Placed.editAt`).
-/

namespace RouterPlan

/-- The path that leads on from here by some names. -/
def Path.extend (path : Path) (names : List String) : Path :=
  ⟨path.segments ++ names⟩

@[simp] theorem Path.extend_nil (path : Path) : path.extend [] = path := by
  simp [Path.extend]

/-- From the root, the segments of a path lead to it. -/
theorem Path.extend_root (path : Path) : Path.root.extend path.segments = path :=
  rfl

@[simp] theorem Path.extend_child (path : Path) (name : String) (names : List String) :
    (path.child name).extend names = path.extend (name :: names) := by
  simp [Path.extend, Path.child]

/-- The names that lead on decide where the path ends. -/
theorem Path.extend_inj {path : Path} {names others : List String} :
    path.extend names = path.extend others ↔ names = others := by
  simp [Path.extend]

/-- A path below another one determines the path above it and the name. -/
theorem Path.child_inj {path other : Path} {name name' : String} :
    path.child name = other.child name' ↔ path = other ∧ name = name' := by
  cases path
  cases other
  simp [Path.child]

/-- The root is below no path. -/
theorem Path.child_ne_root (path : Path) (name : String) : path.child name ≠ .root := by
  simp [Path.child, Path.root]

/-- Naming and making entries goes by their paths. -/
structure Growth.Tracks {α : Type} (growth : Growth α) (pathOf : α → Path) : Prop where
  name?_eq : ∀ a, growth.name? a = (pathOf a).name?
  path_child : ∀ a name, pathOf (growth.child a name) = (pathOf a).child name

/-- A child that is made has the name it was asked for. -/
theorem Growth.Tracks.name?_child {α : Type} {growth : Growth α} {pathOf : α → Path} (h : growth.Tracks pathOf) (a : α)
    (name : String) : growth.name? (growth.child a name) = some name := by
  rw [h.name?_eq, h.path_child, Path.name?_child]

namespace Forest

variable {α : Type} {pathOf : α → Path}

/-- The entries of a row lie one segment below a path, each at another place, and so do the rows below them. -/
def Placed (pathOf : α → Path) (path : Path) : Forest α → Prop
  | nil => True
  | cons entry below rest =>
    (∃ name, pathOf entry = path.child name) ∧ (∀ o ∈ rest.outlines, pathOf o.root ≠ pathOf entry) ∧
      below.Placed pathOf (pathOf entry) ∧ rest.Placed pathOf path

/-- The outlines of a row lie one segment below its path. -/
theorem Placed.exists_name {path : Path} {f : Forest α} (h : f.Placed pathOf path) {o : Outline α} (ho : o ∈ f.outlines) :
    ∃ name, pathOf o.root = path.child name := by
  induction f with
  | nil => simp [outlines] at ho
  | cons entry below rest _ ih =>
    obtain ⟨hname, _, _, hrest⟩ := h
    rcases List.mem_cons.1 ho with rfl | ho
    · exact hname
    · exact ih hrest ho

/-- The row below an outline of a row lies below its entry. -/
theorem Placed.below {path : Path} {f : Forest α} (h : f.Placed pathOf path) {o : Outline α} (ho : o ∈ f.outlines) :
    o.below.Placed pathOf (pathOf o.root) := by
  induction f with
  | nil => simp [outlines] at ho
  | cons entry below rest _ ih =>
    obtain ⟨_, _, hbelow, hrest⟩ := h
    rcases List.mem_cons.1 ho with rfl | ho
    · exact hbelow
    · exact ih hrest ho

/-- Outlines of a row with the same path are the same. -/
theorem Placed.eq_of_path_eq {path : Path} {f : Forest α} (h : f.Placed pathOf path) {o o' : Outline α} (ho : o ∈ f.outlines)
    (ho' : o' ∈ f.outlines) (heq : pathOf o.root = pathOf o'.root) : o = o' := by
  induction f with
  | nil => simp [outlines] at ho
  | cons entry below rest _ ih =>
    obtain ⟨_, hne, _, hrest⟩ := h
    rcases List.mem_cons.1 ho with rfl | ho <;> rcases List.mem_cons.1 ho' with rfl | ho'
    · rfl
    · exact absurd heq.symm (hne o' ho')
    · exact absurd heq (hne o ho)
    · exact ih hrest ho ho'

/-- Every entry of a row lies at or below the path of one of its outlines. -/
theorem Placed.prefix_of_mem {path : Path} {f : Forest α} (h : f.Placed pathOf path) {a : α} (ha : a ∈ f.entries) :
    ∃ o ∈ f.outlines, (pathOf o.root).segments <+: (pathOf a).segments := by
  induction f generalizing path with
  | nil => simp [entries] at ha
  | cons entry below rest ihBelow ihRest =>
    obtain ⟨_, _, hbelow, hrest⟩ := h
    simp only [entries, List.mem_cons, List.mem_append] at ha
    rcases ha with rfl | ha | ha
    · exact ⟨⟨a, below⟩, List.mem_cons_self, List.prefix_rfl⟩
    · obtain ⟨o, ho, hpre⟩ := ihBelow hbelow ha
      obtain ⟨name, hname⟩ := hbelow.exists_name ho
      refine ⟨⟨entry, below⟩, List.mem_cons_self, List.IsPrefix.trans ?_ hpre⟩
      rw [hname]
      exact List.prefix_append _ _
    · obtain ⟨o, ho, hpre⟩ := ihRest hrest ha
      exact ⟨o, List.mem_cons_of_mem _ ho, hpre⟩

/-- Entries of a row lie below the path of the row. -/
theorem Placed.length_lt {path : Path} {f : Forest α} (h : f.Placed pathOf path) {a : α} (ha : a ∈ f.entries) :
    path.segments.length < (pathOf a).segments.length := by
  obtain ⟨o, ho, hpre⟩ := h.prefix_of_mem ha
  obtain ⟨name, hname⟩ := h.exists_name ho
  have hle := hpre.length_le
  rw [hname] at hle
  simp only [Path.child, List.length_append, List.length_cons, List.length_nil] at hle
  omega

/-- Nothing in a row lies at or below a name that no outline of the row has. -/
theorem Placed.not_prefix {path : Path} {f : Forest α} (h : f.Placed pathOf path) {name : String}
    (hne : ∀ o ∈ f.outlines, pathOf o.root ≠ path.child name) {a : α} (ha : a ∈ f.entries) :
    ¬(path.child name).segments <+: (pathOf a).segments := by
  intro hpre
  obtain ⟨o, ho, hpre'⟩ := h.prefix_of_mem ha
  obtain ⟨other, hother⟩ := h.exists_name ho
  rw [hother] at hpre'
  have hlen : (path.child other).segments.length = (path.child name).segments.length := by simp [Path.child]
  have hsame := (List.prefix_of_prefix_length_le hpre' hpre (Nat.le_of_eq hlen)).eq_of_length hlen
  exact hne o ho (hother.trans (congrArg Path.mk hsame))

/-- No two entries of a row share a path. -/
theorem Placed.nodup_paths {path : Path} {f : Forest α} (h : f.Placed pathOf path) : (f.entries.map pathOf).Nodup := by
  induction f generalizing path with
  | nil => exact List.nodup_nil
  | cons entry below rest ihBelow ihRest =>
    obtain ⟨⟨name, hname⟩, hne, hbelow, hrest⟩ := h
    have hapart : ∀ a, (pathOf entry).segments <+: (pathOf a).segments → a ∉ rest.entries := fun a hpre ha =>
      hrest.not_prefix (fun o ho => hname ▸ hne o ho) ha (hname ▸ hpre)
    have hunder : ∀ a ∈ below.entries, (pathOf entry).segments <+: (pathOf a).segments := by
      intro a ha
      obtain ⟨o, ho, hpre⟩ := hbelow.prefix_of_mem ha
      obtain ⟨name', hname'⟩ := hbelow.exists_name ho
      refine List.IsPrefix.trans ?_ hpre
      rw [hname']
      exact List.prefix_append _ _
    simp only [entries, List.map_cons, List.map_append, List.nodup_cons, List.mem_append, List.mem_map, not_or]
    refine ⟨⟨?_, ?_⟩, List.nodup_append.2 ⟨ihBelow hbelow, ihRest hrest, ?_⟩⟩
    · rintro ⟨a, ha, heq⟩
      have hlt := hbelow.length_lt ha
      rw [heq] at hlt
      exact Nat.lt_irrefl _ hlt
    · rintro ⟨a, ha, heq⟩
      exact hapart a (heq ▸ List.prefix_rfl) ha
    · intro p hp q hq hpq
      obtain ⟨a, ha, rfl⟩ := List.mem_map.1 hp
      obtain ⟨b, hb, rfl⟩ := List.mem_map.1 hq
      exact hapart b (hpq ▸ hunder a ha) hb

/-- Putting in an outline at a place of its own keeps a row in place. -/
theorem Placed.putFirst {path : Path} {f : Forest α} (h : f.Placed pathOf path) {name : String} {test : α → Bool}
    {o : Outline α} (htest : ∀ a, test a = true ↔ (pathOf a).name? = some name) (hpath : pathOf o.root = path.child name)
    (hbelow : o.below.Placed pathOf (pathOf o.root)) : (f.putFirst test o).Placed pathOf path := by
  induction f with
  | nil => exact ⟨⟨name, hpath⟩, by simp [outlines], hbelow, trivial⟩
  | cons entry below rest _ ih =>
    obtain ⟨hname, hne, hb, hrest⟩ := h
    unfold Forest.putFirst
    split
    · rename_i ht
      obtain ⟨other, hother⟩ := hname
      have hsame : other = name := by simpa [hother] using (htest entry).1 ht
      have heq : pathOf o.root = pathOf entry := by rw [hpath, hother, hsame]
      refine ⟨⟨name, hpath⟩, ?_, hbelow, hrest⟩
      rw [heq]
      exact hne
    · rename_i ht
      refine ⟨hname, ?_, hb, ih hrest⟩
      intro o' ho' heq
      rcases mem_outlines_putFirst ho' with rfl | ho'
      · exact ht ((htest entry).2 (by rw [← heq, hpath, Path.name?_child]))
      · exact hne o' ho' heq

end Forest

namespace Outline

variable {α β : Type} {growth : Growth α} {pathOf : α → Path}

/-- The root lies at a path, and what is below it lies where its names say. -/
def Placed (pathOf : α → Path) (path : Path) (outline : Outline α) : Prop :=
  pathOf outline.root = path ∧ outline.below.Placed pathOf path

/-- A child of an outline is in place. -/
theorem Placed.child {path : Path} {o child : Outline α} (h : o.Placed pathOf path) (hmem : child ∈ o.children) :
    ∃ name, child.Placed pathOf (path.child name) := by
  obtain ⟨name, hname⟩ := h.2.exists_name hmem
  exact ⟨name, hname, hname ▸ h.2.below hmem⟩

/-- A name finds a child exactly when the child is there and lies at that name. -/
theorem Placed.child?_eq_some_iff (ht : growth.Tracks pathOf) {path : Path} {o child : Outline α}
    (h : o.Placed pathOf path) {name : String} :
    o.child? growth name = some child ↔ child ∈ o.children ∧ pathOf child.root = path.child name := by
  constructor
  · intro hc
    have hmem : child ∈ o.children := List.mem_of_find?_eq_some hc
    obtain ⟨other, hother⟩ := h.2.exists_name hmem
    have hname := name?_of_child? hc
    rw [ht.name?_eq, hother, Path.name?_child, Option.some.injEq] at hname
    exact ⟨hmem, hname ▸ hother⟩
  · rintro ⟨hmem, hpath⟩
    cases hc : o.child? growth name with
    | none =>
      have hno := List.find?_eq_none.1 hc child hmem
      rw [ht.name?_eq, hpath, Path.name?_child] at hno
      simp at hno
    | some other =>
      have hmem' : other ∈ o.children := List.mem_of_find?_eq_some hc
      obtain ⟨name', hname'⟩ := h.2.exists_name hmem'
      have hname := name?_of_child? hc
      rw [ht.name?_eq, hname', Path.name?_child, Option.some.injEq] at hname
      rw [h.2.eq_of_path_eq hmem' hmem (by rw [hname', hpath, hname])]

/-- The child with a name is in place, also if it has to be made. -/
theorem Placed.childAt (ht : growth.Tracks pathOf) {path : Path} {o : Outline α} (h : o.Placed pathOf path)
    (name : String) : (o.childAt growth name).Placed pathOf (path.child name) := by
  unfold Outline.childAt
  cases hc : o.child? growth name with
  | none => exact ⟨by rw [Option.getD_none, ht.path_child, h.1], trivial⟩
  | some child =>
    obtain ⟨hmem, hpath⟩ := (h.child?_eq_some_iff ht).1 hc
    exact ⟨hpath, hpath ▸ h.2.below hmem⟩

/-- Putting a child in its place keeps an outline in place. -/
theorem Placed.putChild (ht : growth.Tracks pathOf) {path : Path} {o child : Outline α} {name : String}
    (h : o.Placed pathOf path) (hchild : child.Placed pathOf (path.child name)) :
    (o.putChild growth name child).Placed pathOf path :=
  ⟨h.1, h.2.putFirst (fun a => by simp [ht.name?_eq]) hchild.1 (hchild.1 ▸ hchild.2)⟩

/-- An edit that leaves an entry where it is keeps the outline in place. -/
theorem Placed.editAt (ht : growth.Tracks pathOf) {edit : α → β × α} (hedit : ∀ a, pathOf (edit a).2 = pathOf a)
    {path : Path} {names : List String} {o : Outline α} (h : o.Placed pathOf path) :
    (Outline.editAt growth edit names o).2.Placed pathOf path := by
  induction names generalizing path o with
  | nil => exact ⟨(hedit o.root).trans h.1, h.2⟩
  | cons name names ih =>
    rw [editAt_cons]
    exact h.putChild ht (ih (h.childAt ht name))

/-- What holds of every entry, of what an edit makes of such an entry at the path of the edit, and of the children it would get,
holds of every entry after the edit. -/
theorem Placed.entries_editAt (ht : growth.Tracks pathOf) {edit : α → β × α} {P : α → Prop}
    (hchild : ∀ a name, P a → P (growth.child a name)) {path : Path} {names : List String} {o : Outline α}
    (h : o.Placed pathOf path) (hedit : ∀ a, pathOf a = path.extend names → P a → P (edit a).2)
    (hP : ∀ a ∈ o.entries, P a) : ∀ a ∈ (Outline.editAt growth edit names o).2.entries, P a := by
  induction names generalizing path o with
  | nil =>
    intro a ha
    rcases List.mem_cons.1 ha with rfl | ha
    · exact hedit _ (by rw [h.1, Path.extend_nil]) (hP _ List.mem_cons_self)
    · exact hP a (List.mem_cons_of_mem _ ha)
  | cons name names ih =>
    rw [editAt_cons]
    rw [← Path.extend_child] at hedit
    exact forall_entries_putChild hP (ih (h.childAt ht name) hedit (forall_entries_childAt hchild hP name))

/-- The part of an outline that a path leads to is in place there. -/
theorem Placed.find? (ht : growth.Tracks pathOf) {path : Path} {names : List String} {o part : Outline α}
    (h : o.Placed pathOf path) (hpart : o.find? growth names = some part) : part.Placed pathOf (path.extend names) := by
  induction names generalizing path o with
  | nil =>
    cases hpart
    rwa [Path.extend_nil]
  | cons name names ih =>
    obtain ⟨child, hchild, hpart⟩ := Option.bind_eq_some_iff.1 hpart
    obtain ⟨hmem, hpath⟩ := (h.child?_eq_some_iff ht).1 hchild
    rw [← Path.extend_child]
    exact ih ⟨hpath, hpath ▸ h.2.below hmem⟩ hpart

/-- The entry at a path has that path. -/
theorem Placed.path_entryAt (ht : growth.Tracks pathOf) {path : Path} {names : List String} {o : Outline α}
    (h : o.Placed pathOf path) : pathOf (o.entryAt growth names) = path.extend names := by
  induction names generalizing path o with
  | nil => rw [Path.extend_nil]; exact h.1
  | cons name names ih =>
    rw [← Path.extend_child]
    exact ih (h.childAt ht name)

/-- A path that leads nowhere ends in an entry that has to be made. -/
theorem entryAt_of_find?_eq_none {names : List String} {o : Outline α} (h : o.find? growth names = none) :
    ∃ parent name, o.entryAt growth names = growth.child parent name := by
  have hfresh : ∀ (names : List String) (parent : α) (name : String),
      ∃ parent' name', Outline.entryAt growth names ⟨growth.child parent name, .nil⟩ = growth.child parent' name' := by
    intro names
    induction names with
    | nil => exact fun parent name => ⟨parent, name, rfl⟩
    | cons next names ih => exact fun parent name => ih (growth.child parent name) next
  induction names generalizing o with
  | nil => cases h
  | cons name names ih =>
    rw [entryAt, childAt]
    cases hc : o.child? growth name with
    | none => exact hfresh names o.root name
    | some child =>
      refine ih ?_
      rw [Outline.find?, hc] at h
      exact h

/-- Every entry of an outline in place is where its path leads. -/
theorem Placed.exists_get? (ht : growth.Tracks pathOf) {path : Path} {o : Outline α} (h : o.Placed pathOf path) {a : α}
    (ha : a ∈ o.entries) : ∃ names, o.get? growth names = some a := by
  have hrow : ∀ (f : Forest α) (path : Path), f.Placed pathOf path → a ∈ f.entries →
      ∃ part ∈ f.outlines, ∃ names, part.get? growth names = some a := by
    intro f
    induction f with
    | nil => intro _ _ ha; simp [Forest.entries] at ha
    | cons entry below rest ihBelow ihRest =>
      intro path hf ha
      obtain ⟨_, _, hbelow, hrest⟩ := hf
      simp only [Forest.entries, List.mem_cons, List.mem_append] at ha
      rcases ha with rfl | ha | ha
      · exact ⟨⟨a, below⟩, List.mem_cons_self, [], rfl⟩
      · obtain ⟨part, hmem, names, hnames⟩ := ihBelow _ hbelow ha
        obtain ⟨name, hname⟩ := hbelow.exists_name hmem
        have hplaced : (⟨entry, below⟩ : Outline α).Placed pathOf (pathOf entry) := ⟨rfl, hbelow⟩
        have hc := (hplaced.child?_eq_some_iff ht).2 ⟨hmem, hname⟩
        refine ⟨⟨entry, below⟩, List.mem_cons_self, name :: names, ?_⟩
        rw [get?, Outline.find?, hc]
        exact hnames
      · obtain ⟨part, hmem, hnames⟩ := ihRest path hrest ha
        exact ⟨part, List.mem_cons_of_mem _ hmem, hnames⟩
  rcases List.mem_cons.1 ha with rfl | ha
  · exact ⟨[], rfl⟩
  · obtain ⟨part, hmem, names, hnames⟩ := hrow o.below path h.2 ha
    obtain ⟨name, hname⟩ := h.2.exists_name hmem
    refine ⟨name :: names, ?_⟩
    rw [get?, Outline.find?, (h.child?_eq_some_iff ht).2 ⟨hmem, hname⟩]
    exact hnames

/-- What a path leads to is an entry of the outline. -/
theorem mem_entries_of_get? {names : List String} {o : Outline α} {a : α} (h : o.get? growth names = some a) :
    a ∈ o.entries := by
  induction names generalizing o with
  | nil => exact Option.some.inj h ▸ List.mem_cons_self
  | cons name names ih =>
    rw [get?, Outline.find?] at h
    cases hc : o.child? growth name with
    | none => rw [hc] at h; cases h
    | some child =>
      rw [hc] at h
      exact List.mem_cons_of_mem _ (Forest.mem_entries_iff.2 ⟨child, List.mem_of_find?_eq_some hc, ih h⟩)

/-- In an outline in place, a path leads to the entry that lies there. -/
theorem Placed.get?_eq_some_iff (ht : growth.Tracks pathOf) {path : Path} {o : Outline α} (h : o.Placed pathOf path)
    {names : List String} {a : α} :
    o.get? growth names = some a ↔ a ∈ o.entries ∧ pathOf a = path.extend names := by
  have hpath : ∀ {names : List String} {a : α}, o.get? growth names = some a → pathOf a = path.extend names := by
    intro names a ha
    obtain ⟨part, hpart, rfl⟩ := Option.map_eq_some_iff.1 ha
    exact (h.find? ht hpart).1
  refine ⟨fun ha => ⟨mem_entries_of_get? ha, hpath ha⟩, fun ⟨ha, hat⟩ => ?_⟩
  obtain ⟨others, hothers⟩ := h.exists_get? ht ha
  have heq : others = names := Path.extend_inj.1 ((hpath hothers).symm.trans hat)
  rwa [heq] at hothers

/-- No two entries of an outline in place share a path. -/
theorem Placed.nodup_paths {path : Path} {o : Outline α} (h : o.Placed pathOf path) :
    (o.entries.map pathOf).Nodup := by
  rw [entries, List.map_cons, List.nodup_cons]
  refine ⟨?_, h.2.nodup_paths⟩
  intro hmem
  obtain ⟨a, ha, heq⟩ := List.mem_map.1 hmem
  have hlt := h.2.length_lt ha
  rw [heq, h.1] at hlt
  exact Nat.lt_irrefl _ hlt

end Outline

end RouterPlan
