import RouterPlan.Proofs.Lemmas.Registers

/-!
# Registers and outlines

What a register holds below a number is an outline of sections (`Register.Holds`): the numbers that a place lists stand for the
row below it, in the same order. Looking up a child, making one and editing one do the same on both sides, so an edit at a path
and a merge of a whole row lead from an outline that is held to one that is held (`Holds.editAt`, `Holds.mergeBelow`).

The inductions rest on what an edit below a path leaves alone (`Register.EditedBelow`): every place whose path does not continue
that path is as it was, so the rows beside the edited one are still held.
-/

namespace RouterPlan

namespace Register

variable {r r' : Register} {id k : Nat} {ids : List Nat} {f : Forest Section} {o child : Outline Section} {path : Path}
  {name : String}

/-- Numbers stand for a row of sections with what is below them. -/
inductive Lists (r : Register) : List Nat → Forest Section → Prop where
  | nil : Lists r [] .nil
  | cons {id : Nat} {ids : List Nat} {below rest : Forest Section} (hid : id < r.size)
      (hbelow : Lists r (r.place id).children below) (hrest : Lists r ids rest) :
      Lists r (id :: ids) (.cons (r.place id).held below rest)

/-- A number stands for a section with what is below it. -/
structure Holds (r : Register) (id : Nat) (o : Outline Section) : Prop where
  lt : id < r.size
  root : (r.place id).held = o.root
  below : r.Lists (r.place id).children o.below

/-- A row that is held stays so while its places stay as they are. -/
theorem Lists.congr (h : r.Lists ids f) (hsize : r.size ≤ r'.size)
    (hsame : ∀ j < r.size, (r.place j).held ∈ f.entries → r'.place j = r.place j) : r'.Lists ids f := by
  induction h with
  | nil => exact .nil
  | @cons id ids below rest hid _ _ ihBelow ihRest =>
    have hplace : r'.place id = r.place id := hsame id hid List.mem_cons_self
    have hbelow : r'.Lists (r'.place id).children below :=
      hplace ▸ ihBelow fun j hj hmem => hsame j hj (List.mem_cons_of_mem _ (List.mem_append_left _ hmem))
    have hrest : r'.Lists ids rest :=
      ihRest fun j hj hmem => hsame j hj (List.mem_cons_of_mem _ (List.mem_append_right _ hmem))
    exact hplace ▸ Lists.cons (Nat.lt_of_lt_of_le hid hsize) hbelow hrest

/-- A name finds the same in a row and among its numbers. -/
theorem Lists.find? (h : r.Lists ids f) (name : String) :
    (ids.find? (fun j => (r.place j).path.name? == some name) = none ∧ f.first? (·.path.name? == some name) = none) ∨
      ∃ k child, ids.find? (fun j => (r.place j).path.name? == some name) = some k ∧
        f.first? (·.path.name? == some name) = some child ∧ r.Holds k child := by
  induction h with
  | nil => exact .inl ⟨rfl, rfl⟩
  | @cons id ids below rest hid hbelow _ _ ih =>
    rw [List.find?_cons, Forest.first?, Forest.outlines, List.find?_cons]
    by_cases ht : ((r.place id).path.name? == some name) = true
    · have ht' : ((r.place id).held.path.name? == some name) = true := ht
      rw [ht, ht']
      exact .inr ⟨id, _, rfl, rfl, hid, rfl, hbelow⟩
    · have ht' : ((r.place id).held.path.name? == some name) = false := Bool.not_eq_true _ ▸ ht
      rw [Bool.not_eq_true] at ht
      rw [ht, ht']
      exact ih

/-- A row with an outline put at its end. -/
theorem Lists.append (h : r.Lists ids f) {test : Section → Bool} (hnone : f.first? test = none) (hk : r.Holds k child) :
    r.Lists (ids ++ [k]) (f.putFirst test child) := by
  induction h with
  | nil =>
    have hlast := Lists.cons hk.lt hk.below .nil
    rwa [hk.root] at hlast
  | @cons id ids below rest hid hbelow _ _ ih =>
    rw [Forest.first?, Forest.outlines, List.find?_cons] at hnone
    split at hnone
    · cases hnone
    · rename_i ht
      rw [Forest.putFirst, if_neg (by simp [ht])]
      exact .cons hid hbelow (ih hnone)

/-! ## Edits below a path -/

/-- A register is as before but for places at a path or below it, and it is still consistent. -/
structure EditedBelow (path : Path) (r r' : Register) : Prop where
  consistent : r'.Consistent
  size : r.size ≤ r'.size
  order : r'.order = r.order
  version : r'.version = r.version
  paths : ∀ j < r.size, (r'.place j).path = (r.place j).path
  same : ∀ j < r.size, ¬path.segments <+: (r.place j).path.segments → r'.place j = r.place j

theorem EditedBelow.refl (h : r.Consistent) (path : Path) : r.EditedBelow path r :=
  ⟨h, Nat.le_refl _, rfl, rfl, fun _ _ => rfl, fun _ _ _ => rfl⟩

theorem EditedBelow.trans {r'' : Register} (h : r.EditedBelow path r') (h' : r'.EditedBelow path r'') :
    r.EditedBelow path r'' := by
  refine ⟨h'.consistent, Nat.le_trans h.size h'.size, h'.order.trans h.order, h'.version.trans h.version,
    fun j hj => ?_, fun j hj hnot => ?_⟩
  · rw [h'.paths j (Nat.lt_of_lt_of_le hj h.size), h.paths j hj]
  · have hsame := h.same j hj hnot
    rw [h'.same j (Nat.lt_of_lt_of_le hj h.size) (hsame ▸ hnot), hsame]

/-- An edit below a child is one below its parent. -/
theorem EditedBelow.ofChild (h : r.EditedBelow (path.child name) r') : r.EditedBelow path r' :=
  ⟨h.consistent, h.size, h.order, h.version, h.paths,
    fun j hj hnot => h.same j hj fun hpre => hnot ((List.prefix_append _ _).trans hpre)⟩

/-- The place of an outline that lies at a path has that path. -/
theorem Holds.path_place (h : r.Holds id o) (hp : o.Placed Section.path path) : (r.place id).path = path :=
  (congrArg Section.path h.root).trans hp.1

/-- What is below an outline that lies at a path is another place than its root. -/
theorem Holds.ne_of_mem (h : r.Holds id o) (hp : o.Placed Section.path path) {j : Nat}
    (hmem : (r.place j).held ∈ o.below.entries) : j ≠ id := by
  rintro rfl
  have hlt := hp.2.length_lt hmem
  rw [h.root, hp.1] at hlt
  exact Nat.lt_irrefl _ hlt

/-- A section that is edited where it stands is the new root of what was held there. -/
theorem Holds.put (hc : r.Consistent) (h : r.Holds id o) (hp : o.Placed Section.path path) {s : Section} {p : Place}
    (hbecomes : (r.place id).Becomes s p) (hpath : s.path = path) (hs : s.WellFormed r.order) :
    (r.put id p).Holds id { o with root := s } ∧ r.EditedBelow path (r.put id p) := by
  have hat := h.path_place hp
  have hpath' : p.path = (r.place id).path := hbecomes.path (hpath.trans hat.symm)
  refine ⟨⟨by simpa using h.lt, ?_, ?_⟩, ?_⟩
  · rw [place_put_self h.lt, hbecomes.held]
  · rw [place_put_self h.lt, hbecomes.children]
    exact h.below.congr (by simp) fun j _ hmem => place_put_of_ne (h.ne_of_mem hp hmem) p
  · refine ⟨hc.put hpath' hbecomes.parent hbecomes.children (hbecomes.sound (hc.sound id h.lt) hs), by simp, rfl, rfl,
      fun j _ => ?_, fun j _ hnot => place_put_of_ne ?_ p⟩
    · by_cases hj : j = id
      · subst hj
        rw [place_put_self h.lt, hpath']
      · rw [place_put_of_ne hj]
    · rintro rfl
      exact hnot (hat ▸ List.prefix_rfl)

/-- A section that is made under a name that is not taken is the last of the row. -/
theorem Holds.addChild (hc : r.Consistent) (h : r.Holds id o) (hp : o.Placed Section.path path)
    (hnone : r.child? id name = none) (hnone' : o.child? (Section.growth r.order) name = none) :
    (r.addChild id name).Holds r.size ⟨(Section.growth r.order).child o.root name, .nil⟩ ∧
      (r.addChild id name).Holds id
        (o.putChild (Section.growth r.order) name ⟨(Section.growth r.order).child o.root name, .nil⟩) ∧
      r.EditedBelow path (r.addChild id name) := by
  have hat := h.path_place hp
  have hnew : (r.addChild id name).Holds r.size ⟨(Section.growth r.order).child o.root name, .nil⟩ := by
    refine ⟨by simp, ?_, ?_⟩ <;> rw [place_addChild_size h.lt]
    · rw [← h.root]
      rfl
    · exact .nil
  have hold : (r.addChild id name).Lists (r.place id).children o.below :=
    h.below.congr (by simp) fun j hj hmem => place_addChild_of_ne hj (h.ne_of_mem hp hmem) name
  refine ⟨hnew, ⟨?_, ?_, ?_⟩, hc.addChild h.lt hnone, by simp, rfl, rfl, fun j hj => (path_addChild h.lt hj name).1,
    fun j hj hnot => place_addChild_of_ne hj ?_ name⟩
  · rw [size_addChild]
    exact Nat.lt_succ_of_lt h.lt
  · rw [place_addChild_self h.lt]
    exact h.root
  · rw [place_addChild_self h.lt]
    exact hold.append hnone' hnew
  · rintro rfl
    exact hnot (hat ▸ List.prefix_rfl)

/-- The number of a child stands for the child, made if it is missing. -/
theorem Holds.ensureChild (hc : r.Consistent) (h : r.Holds id o) (hp : o.Placed Section.path path) (name : String) :
    ∃ k r', r.ensureChild id name = (k, r') ∧ r'.Holds k (o.childAt (Section.growth r.order) name) ∧
      r'.Holds id (o.putChild (Section.growth r.order) name (o.childAt (Section.growth r.order) name)) ∧
      r.EditedBelow path r' := by
  rw [Outline.childAt]
  rcases h.below.find? name with ⟨hnone, hnone'⟩ | ⟨k, child, hk, hchild, hholds⟩
  · obtain ⟨hnew, hrow, hedited⟩ := h.addChild hc hp hnone hnone'
    refine ⟨r.size, r.addChild id name, ?_, ?_, ?_, hedited⟩
    · rw [Register.ensureChild, show r.child? id name = none from hnone]
    · rwa [show o.child? (Section.growth r.order) name = none from hnone']
    · rwa [show o.child? (Section.growth r.order) name = none from hnone']
  · have hchild' : o.child? (Section.growth r.order) name = some child := hchild
    refine ⟨k, r, ?_, ?_, ?_, .refl hc path⟩
    · rw [Register.ensureChild, show r.child? id name = some k from hk]
    · rwa [hchild']
    · rwa [hchild', Option.getD_some, Outline.putChild_of_child? hchild']

/-- A row that is held stays so when one of its outlines is edited: the edit leaves the other places as they are. -/
theorem Lists.putFirst (hc : r.Consistent) (h : r.Lists ids f) (hf : f.Placed Section.path path)
    (hfound : (f.first? (·.path.name? == some name)).isSome) (hk : k < r.size) (hpath : (r.place k).path = path.child name)
    (hedited : r.EditedBelow (path.child name) r') (hchild : r'.Holds k child) :
    r'.Lists ids (f.putFirst (·.path.name? == some name) child) := by
  induction h with
  | nil => cases hfound
  | @cons id ids below rest hid hbelow hrest _ ih =>
    obtain ⟨⟨other, hother⟩, hne, hbelowPlaced, hrestPlaced⟩ := hf
    have hid' : (r.place id).path = path.child other := hother
    rw [Forest.putFirst]
    by_cases hname : other = name
    · subst hname
      have hsame : id = k := hc.eq_of_path_eq hid hk (hid'.trans hpath.symm)
      subst hsame
      have hbeside : r'.Lists ids rest := hrest.congr hedited.size fun j hj hmem =>
        hedited.same j hj (hrestPlaced.not_prefix (fun o ho => hother ▸ hne o ho) hmem)
      rw [if_pos (by simp [hother])]
      have hrow := Lists.cons hchild.lt hchild.below hbeside
      rwa [hchild.root] at hrow
    · have hapart : ∀ j < r.size, (r.place j).held ∈ (r.place id).held :: below.entries → r'.place j = r.place j := by
        intro j hj hmem
        have hplaced : (Forest.cons (r.place id).held below .nil).Placed Section.path path :=
          ⟨⟨other, hother⟩, fun _ ho => absurd ho List.not_mem_nil, hbelowPlaced, trivial⟩
        refine hedited.same j hj (hplaced.not_prefix (fun o ho => ?_) (by simpa [Forest.entries] using hmem))
        rw [List.mem_singleton.1 ho, hother]
        exact fun heq => hname (Path.child_inj.1 heq).2
      have hplace : r'.place id = r.place id := hapart id hid List.mem_cons_self
      have hnot : ((r.place id).held.path.name? == some name) = false := by simp [hother, hname]
      rw [Forest.first?, Forest.outlines, List.find?_cons, hnot] at hfound
      rw [hnot, if_neg Bool.false_ne_true]
      have hbelow' : r'.Lists (r.place id).children below :=
        hbelow.congr hedited.size fun j hj hmem => hapart j hj (List.mem_cons_of_mem _ hmem)
      have hrow := Lists.cons (Nat.lt_of_lt_of_le hid hedited.size) (hplace ▸ hbelow') (ih hrestPlaced hfound)
      rwa [hplace] at hrow

/-- What a number stands for when one of its children is edited. -/
theorem Holds.putChild (hc : r.Consistent) {order : OrderTable}
    (h : r.Holds id (o.putChild (Section.growth order) name (o.childAt (Section.growth order) name)))
    (hp : o.Placed Section.path path) (hk : r.Holds k (o.childAt (Section.growth order) name))
    (hedited : r.EditedBelow (path.child name) r') (hchild : r'.Holds k child) :
    r'.Holds id (o.putChild (Section.growth order) name child) := by
  have htr := Section.tracks order
  have hp' := hp.putChild htr (hp.childAt htr name)
  have hnamed := Outline.name?_childAt htr.name?_child o name
  have hpath := hk.path_place (hp.childAt htr name)
  have hplace : r'.place id = r.place id := by
    refine hedited.same id h.lt fun hpre => ?_
    have hle := hpre.length_le
    rw [h.path_place hp'] at hle
    simp only [Path.child, List.length_append, List.length_cons, List.length_nil] at hle
    omega
  refine ⟨Nat.lt_of_lt_of_le h.lt hedited.size, by rw [hplace]; exact h.root, ?_⟩
  rw [hplace, ← Outline.putChild_putChild hnamed]
  exact h.below.putFirst hc hp'.2 (Option.isSome_of_eq_some (Outline.child?_putChild_self hnamed o)) hk.lt hpath hedited
    hchild

/-! ## Edits at a path, and merges of rows -/

/-- An edit at the number that names lead to is the edit of the outline at those names. -/
theorem Holds.editAt {β : Type} {order : OrderTable} {edit : Place → β × Place} {edit' : Section → β × Section}
    (hedit : Place.Mirrors order edit edit') (hkeep : Section.Keeps order edit') (names : List String)
    (hc : r.Consistent) (horder : r.order = order) (h : r.Holds id o) (hp : o.Placed Section.path path) :
    ∃ k r₁ r', ensureFrom names id r = (k, r₁) ∧ k < r₁.size ∧ (r₁.place k).path = path.extend names ∧
      r₁.editAt k edit = ((o.editAt (Section.growth order) edit' names).1, r') ∧
      r'.Holds id (o.editAt (Section.growth order) edit' names).2 ∧ r.EditedBelow path r' := by
  induction names generalizing r id o path with
  | nil =>
    obtain ⟨hresult, hbecomes⟩ := hedit (r.place id) (horder ▸ hc.sound id h.lt)
    rw [h.root] at hresult hbecomes
    have hs := hkeep.wellFormed o.root (h.root ▸ horder ▸ (hc.sound id h.lt).wellFormed)
    obtain ⟨hholds, hedited⟩ := h.put hc hp hbecomes ((hkeep.path o.root).trans hp.1) (horder ▸ hs)
    exact ⟨id, r, _, rfl, h.lt, (h.path_place hp).trans (Path.extend_nil path).symm, Prod.ext hresult rfl, hholds, hedited⟩
  | cons name names ih =>
    subst horder
    obtain ⟨child, r₁, hensure, hchild, hrow, hedited⟩ := h.ensureChild hc hp name
    obtain ⟨k, r₂, r', hnext, hlt, hpath, hresult, hholds, hedited'⟩ :=
      ih hedited.consistent hedited.order hchild (hp.childAt (Section.tracks r.order) name)
    rw [Outline.editAt_cons]
    refine ⟨k, r₂, r', ?_, hlt, hpath.trans (Path.extend_child path name names), hresult, ?_, hedited.trans hedited'.ofChild⟩
    · rw [ensureFrom, hensure]
      exact hnext
    · exact hrow.putChild hedited.consistent hp hchild hedited' hholds

/-- A merge of the sections below a number is the merge of the row below what is held there. -/
theorem Holds.mergeBelow {order order' : OrderTable} (targets : Forest Section) (hplaced : targets.Placed Section.path path)
    (htargets : ∀ t ∈ targets.entries, t.WellFormed order') (hc : r.Consistent) (horder : r.order = order)
    (h : r.Holds id o) (hp : o.Placed Section.path path) :
    ∃ batches o' r', Configuration.mergeBelow order targets o = .ok (batches, o') ∧
      mergeBelow targets id r = .ok (batches, r') ∧ r'.Holds id o' ∧ o'.Placed Section.path path ∧ r.EditedBelow path r' := by
  induction targets generalizing r id o path with
  | nil => exact ⟨.nil, o, r, rfl, rfl, h, hp, .refl hc path⟩
  | cons target below rest ihBelow ihRest =>
    subst horder
    obtain ⟨⟨name, hname⟩, -, hbelowPlaced, hrestPlaced⟩ := hplaced
    have htr := Section.tracks r.order
    -- The section itself.
    obtain ⟨k, r₁, hensure, hchild, hrow, hedited⟩ := h.ensureChild hc hp name
    have hchildPlaced := hp.childAt htr name
    have hsound := hedited.consistent.sound k hchild.lt
    have hwf : (o.childAt (Section.growth r.order) name).root.WellFormed r.order :=
      hchild.root ▸ hedited.order ▸ hsound.wellFormed
    obtain ⟨commands, s, hmerge, hs, hspath⟩ := Section.exists_mergeWith hwf (htargets target List.mem_cons_self)
    obtain ⟨p, hmerge', hbecomes⟩ := Place.exists_mergeWith hsound (hchild.root ▸ hmerge)
    obtain ⟨hput, hedited₂⟩ := hchild.put hedited.consistent hchildPlaced hbecomes (hspath.trans hchildPlaced.1)
      (hedited.order ▸ hs)
    -- The sections below it.
    obtain ⟨batches, child', r₃, hokBelow, hokBelow', hchild', hchildPlaced', hedited₃⟩ :=
      ihBelow (hname ▸ hbelowPlaced) (fun t ht => htargets t (by simp [Forest.entries, ht])) hedited₂.consistent
        hedited.order hput ⟨hspath.trans hchildPlaced.1, hchildPlaced.2⟩
    have hrow' := hrow.putChild hedited.consistent hp hchild (hedited₂.trans hedited₃) hchild'
    -- The sections beside it.
    obtain ⟨siblings, o', r₄, hokRest, hokRest', ho', hp', hedited₄⟩ :=
      ihRest hrestPlaced (fun t ht => htargets t (by simp [Forest.entries, ht])) hedited₃.consistent
        (hedited₃.order.trans hedited.order) hrow' (hp.putChild htr hchildPlaced')
    have hpath : p.path = s.path := congrArg Section.path hbecomes.held
    have hmode : p.mode = s.mode := congrArg Section.mode hbecomes.held
    refine ⟨.cons { path := s.path, mode := s.mode, commands } batches siblings, o', r₄, ?_, ?_, ho', hp',
      ((hedited.trans hedited₂.ofChild).trans hedited₃.ofChild).trans hedited₄⟩
    · simp only [Configuration.mergeBelow, hname, Path.name?_child, Outline.editChild_eq, hmerge, hokBelow, hokRest, bind,
        Except.bind, pure, Except.pure]
    · simp only [Register.mergeBelow, hname, Path.name?_child, hensure, hmerge', hokBelow', hokRest', hpath, hmode, bind,
        Except.bind, pure, Except.pure]

end Register

end RouterPlan
