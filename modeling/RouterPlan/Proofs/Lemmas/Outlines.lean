import RouterPlan.Outline
import RouterPlan.Path

/-!
# Outlines as maps from paths to entries

An edit at a path of an outline is described by what it does to the entries: `entryAt` gives the entry at a path, or the one
that an edit there would make, and `entryAt_editAt` says that an edit changes it at its own path and nowhere else.

`Outline.Placed` says that the entries know their paths: each child lies one segment below its parent, and siblings have
different paths. In such an outline the entries and what the paths lead to are the same (`get?_eq_some_iff`).
-/

namespace RouterPlan

namespace Forest

variable {α β : Type}

/-- The first outline of a row whose entry passes a test. -/
def first? (test : α → Bool) (f : Forest α) : Option (Outline α) :=
  f.outlines.find? fun outline => test outline.root

/-- The row with an outline in the place of the first one whose entry passes a test, or at the end. -/
def putFirst (test : α → Bool) (outline : Outline α) : Forest α → Forest α
  | nil => cons outline.root outline.below nil
  | cons entry below rest =>
    if test entry then cons outline.root outline.below rest else cons entry below (rest.putFirst test outline)

/-- Editing the first outline that passes a test is taking it out, editing it and putting it back. -/
theorem editFirst_eq {m : Type → Type} [Monad m] [LawfulMonad m] (test : α → Bool) (fresh : α)
    (edit : Outline α → m (β × Outline α)) (f : Forest α) :
    f.editFirst test fresh edit = do
      let (result, outline) ← edit ((f.first? test).getD ⟨fresh, nil⟩)
      return (result, f.putFirst test outline) := by
  induction f with
  | nil => simp [editFirst, first?, outlines, putFirst]
  | cons entry below rest _ ih =>
    by_cases h : test entry = true
    · simp [editFirst, first?, outlines, putFirst, h]
    · simp only [first?] at ih
      simp [editFirst, first?, outlines, putFirst, h, ih]

/-- What is put in is found, if it passes the test. -/
theorem first?_putFirst_self {test : α → Bool} {outline : Outline α} (h : test outline.root = true) (f : Forest α) :
    (f.putFirst test outline).first? test = some outline := by
  induction f with
  | nil => simp [putFirst, first?, outlines, h]
  | cons entry below rest _ ih =>
    by_cases he : test entry = true
    · simp [putFirst, first?, outlines, he, h]
    · simp only [first?] at ih
      simp [putFirst, first?, outlines, he, ih]

/-- What fails another test, like all that it replaces, is not found by that test. -/
theorem first?_putFirst_of_disjoint {test other : α → Bool} {outline : Outline α} (h : other outline.root = false)
    (hd : ∀ a, test a = true → other a = false) (f : Forest α) :
    (f.putFirst test outline).first? other = f.first? other := by
  induction f with
  | nil => simp [putFirst, first?, outlines, h]
  | cons entry below rest _ ih =>
    by_cases he : test entry = true
    · simp [putFirst, first?, outlines, he, h, hd entry he]
    · simp only [first?] at ih
      simp [putFirst, first?, outlines, he, List.find?_cons, ih]

/-- Of two outlines put in by the same test the later one counts. -/
theorem putFirst_putFirst {test : α → Bool} {first second : Outline α} (h : test first.root = true) (f : Forest α) :
    (f.putFirst test first).putFirst test second = f.putFirst test second := by
  induction f with
  | nil => simp [putFirst, h]
  | cons entry below rest _ ih =>
    by_cases he : test entry = true
    · simp [putFirst, he, h]
    · simp [putFirst, he, ih]

/-- What is found and put back changes nothing. -/
theorem putFirst_of_first? {test : α → Bool} {o : Outline α} {f : Forest α} (h : f.first? test = some o) :
    f.putFirst test o = f := by
  induction f with
  | nil => cases h
  | cons entry below rest _ ih =>
    rw [first?, outlines, List.find?_cons] at h
    rw [putFirst]
    split at h
    · rename_i ht
      cases h
      rw [if_pos ht]
    · rename_i ht
      rw [if_neg (by simp [ht]), ih h]

/-- The entries of a row belong to its outlines. -/
theorem mem_entries_iff {f : Forest α} {a : α} : a ∈ f.entries ↔ ∃ outline ∈ f.outlines, a ∈ outline.entries := by
  induction f with
  | nil => simp [entries, outlines]
  | cons entry below rest _ ih => simp [entries, outlines, Outline.entries, ih, or_assoc]

/-- The outlines of a row after one is put in: that one, and others that were there. -/
theorem mem_outlines_putFirst {test : α → Bool} {outline o : Outline α} {f : Forest α}
    (h : o ∈ (f.putFirst test outline).outlines) : o = outline ∨ o ∈ f.outlines := by
  induction f with
  | nil => simpa [putFirst, outlines] using h
  | cons entry below rest _ ih =>
    unfold putFirst at h
    split at h
    · rcases List.mem_cons.1 h with h | h
      · exact .inl h
      · exact .inr (List.mem_cons_of_mem _ h)
    · rcases List.mem_cons.1 h with h | h
      · exact .inr (h ▸ List.mem_cons_self)
      · exact (ih h).imp id (List.mem_cons_of_mem _)

end Forest

namespace Outline

variable {α β : Type}

/-- The child with a name, or the one that would be made for it. -/
def childAt (growth : Growth α) (name : String) (outline : Outline α) : Outline α :=
  (outline.child? growth name).getD ⟨growth.child outline.root name, .nil⟩

/-- The outline with a child put in the place of the one with a name. -/
def putChild (growth : Growth α) (name : String) (outline child : Outline α) : Outline α :=
  { outline with below := outline.below.putFirst (fun entry => growth.name? entry == some name) child }

/-- The entry at a path, or the one that an edit there would make. -/
def entryAt (growth : Growth α) : List String → Outline α → α
  | [], outline => outline.root
  | name :: names, outline => (outline.childAt growth name).entryAt growth names

/-- The entry at a path. -/
def get? (growth : Growth α) (names : List String) (outline : Outline α) : Option α :=
  (outline.find? growth names).map (·.root)

/-- An edit that changes neither what an entry is called nor which children it would get. -/
def Keeps (growth : Growth α) (edit : α → β × α) : Prop :=
  ∀ a, growth.name? (edit a).2 = growth.name? a ∧ growth.child (edit a).2 = growth.child a

/-- Editing a child is taking it out, editing it and putting it back. -/
theorem editChild_eq {m : Type → Type} [Monad m] [LawfulMonad m] (growth : Growth α) (name : String)
    (edit : Outline α → m (β × Outline α)) (outline : Outline α) :
    outline.editChild growth name edit = do
      let (result, child) ← edit (outline.childAt growth name)
      return (result, outline.putChild growth name child) := by
  simp [editChild, Forest.editFirst_eq, childAt, child?, children, Forest.first?, putChild]

/-- An edit at a path edits the child on the way. -/
theorem editAt_cons (growth : Growth α) (edit : α → β × α) (name : String) (names : List String) (outline : Outline α) :
    editAt growth edit (name :: names) outline =
      ((editAt growth edit names (outline.childAt growth name)).1,
        outline.putChild growth name (editAt growth edit names (outline.childAt growth name)).2) := by
  rw [editAt, editChild_eq]
  rfl

/-- The child with a name is the first one of the row that bears it. -/
theorem child?_eq_first? (growth : Growth α) (outline : Outline α) (name : String) :
    outline.child? growth name = outline.below.first? fun entry => growth.name? entry == some name :=
  rfl

/-- A child put in under its name is found by it. -/
theorem child?_putChild_self {growth : Growth α} {name : String} {child : Outline α}
    (h : growth.name? child.root = some name) (outline : Outline α) :
    (outline.putChild growth name child).child? growth name = some child := by
  rw [child?_eq_first?]
  exact Forest.first?_putFirst_self (by simp [h]) outline.below

/-- A child put in under its name hides no other name. -/
theorem child?_putChild_of_ne {growth : Growth α} {name other : String} {child : Outline α}
    (h : growth.name? child.root = some name) (hne : other ≠ name) (outline : Outline α) :
    (outline.putChild growth name child).child? growth other = outline.child? growth other := by
  rw [child?_eq_first?, child?_eq_first?]
  refine Forest.first?_putFirst_of_disjoint ?_ ?_ outline.below
  · simpa [h] using hne.symm
  · intro a ha
    have ha : growth.name? a = some name := by simpa using ha
    simpa [ha] using hne.symm

/-- A child put in under its name is the one that an edit under that name goes to. -/
theorem childAt_putChild_self {growth : Growth α} {name : String} {child : Outline α}
    (h : growth.name? child.root = some name) (outline : Outline α) :
    (outline.putChild growth name child).childAt growth name = child := by
  rw [childAt, child?_putChild_self h, Option.getD_some]

/-- Of two children put in under the same name the later one counts. -/
theorem putChild_putChild {growth : Growth α} {name : String} {first : Outline α}
    (h : growth.name? first.root = some name) (outline second : Outline α) :
    (outline.putChild growth name first).putChild growth name second = outline.putChild growth name second := by
  rw [putChild, putChild, putChild, Forest.putFirst_putFirst (by simp [h])]

/-- A child that is found and put back changes nothing. -/
theorem putChild_of_child? {growth : Growth α} {name : String} {outline child : Outline α}
    (h : outline.child? growth name = some child) : outline.putChild growth name child = outline := by
  rw [child?_eq_first?] at h
  rw [putChild, Forest.putFirst_of_first? h]

/-- A child that is found has the name it was asked for. -/
theorem name?_of_child? {growth : Growth α} {outline child : Outline α} {name : String}
    (h : outline.child? growth name = some child) : growth.name? child.root = some name := by
  simpa using List.find?_some h

/-- The child with a name has that name, also if it has to be made. -/
theorem name?_childAt {growth : Growth α} (hname : ∀ a name, growth.name? (growth.child a name) = some name)
    (outline : Outline α) (name : String) : growth.name? (outline.childAt growth name).root = some name := by
  unfold childAt
  cases h : outline.child? growth name with
  | none => exact hname _ _
  | some child => exact name?_of_child? h

/-- An edit at a path keeps what the root is called and which children it would get. -/
theorem editAt_keeps {growth : Growth α} {edit : α → β × α} (hk : Keeps growth edit) (names : List String)
    (outline : Outline α) :
    growth.name? (editAt growth edit names outline).2.root = growth.name? outline.root ∧
      growth.child (editAt growth edit names outline).2.root = growth.child outline.root := by
  cases names with
  | nil => exact hk outline.root
  | cons name names =>
    rw [editAt_cons]
    exact ⟨rfl, rfl⟩

/-- An edit at a path is carried out on the entry there. -/
theorem fst_editAt (growth : Growth α) (edit : α → β × α) (names : List String) (outline : Outline α) :
    (editAt growth edit names outline).1 = (edit (outline.entryAt growth names)).1 := by
  induction names generalizing outline with
  | nil => rfl
  | cons name names ih =>
    rw [editAt_cons]
    exact ih _

/-- An edit at a path changes the entry there and no other. -/
theorem entryAt_editAt {growth : Growth α} {edit : α → β × α}
    (hname : ∀ a name, growth.name? (growth.child a name) = some name) (hk : Keeps growth edit) (names others : List String)
    (outline : Outline α) :
    (editAt growth edit names outline).2.entryAt growth others =
      if others = names then (edit (outline.entryAt growth names)).2 else outline.entryAt growth others := by
  induction names generalizing others outline with
  | nil =>
    cases others with
    | nil => rfl
    | cons other others =>
      have hchild : (editAt growth edit [] outline).2.childAt growth other = outline.childAt growth other := by
        have hc := (editAt_keeps hk [] outline).2
        unfold childAt
        rw [hc]
        rfl
      simp only [entryAt, hchild]
      rw [if_neg (by simp)]
  | cons name names ih =>
    rw [editAt_cons]
    cases others with
    | nil => rfl
    | cons other others =>
      have hroot : growth.name? (editAt growth edit names (outline.childAt growth name)).2.root = some name := by
        rw [(editAt_keeps hk names _).1]
        exact name?_childAt hname outline name
      by_cases hne : other = name
      · subst hne
        rw [entryAt, childAt_putChild_self hroot, ih, entryAt]
        simp only [List.cons.injEq, true_and]
        rfl
      · have hchild : (outline.putChild growth name (editAt growth edit names (outline.childAt growth name)).2).childAt
            growth other = outline.childAt growth other := by
          rw [childAt, child?_putChild_of_ne hroot hne]
          rfl
        rw [entryAt, hchild, if_neg (by simp [hne])]
        rfl

/-- Two edits at a path, one after the other, are one edit. -/
theorem editAt_editAt {γ : Type} {growth : Growth α} {first : α → β × α}
    (hname : ∀ a name, growth.name? (growth.child a name) = some name) (hk : Keeps growth first) (second : α → γ × α)
    (names : List String) (outline : Outline α) :
    editAt growth second names (editAt growth first names outline).2 =
      editAt growth (fun a => second (first a).2) names outline := by
  induction names generalizing outline with
  | nil => rfl
  | cons name names ih =>
    have hchild : growth.name? (editAt growth first names (outline.childAt growth name)).2.root = some name := by
      rw [(editAt_keeps hk names _).1]
      exact name?_childAt hname outline name
    rw [editAt_cons, editAt_cons, editAt_cons, childAt_putChild_self hchild, ih, putChild_putChild hchild]

/-- The entry at a path that leads somewhere. -/
theorem entryAt_of_find? {growth : Growth α} {names : List String} {outline part : Outline α}
    (h : outline.find? growth names = some part) : outline.entryAt growth names = part.root := by
  induction names generalizing outline with
  | nil =>
    cases h
    rfl
  | cons name names ih =>
    obtain ⟨child, hchild, hpart⟩ := Option.bind_eq_some_iff.1 h
    rw [entryAt, childAt, hchild]
    exact ih hpart

/-- Finding an entry takes the names of entries and nothing else. -/
theorem get?_congr {growth growth' : Growth α} (h : growth.name? = growth'.name?) (names : List String)
    (outline : Outline α) : outline.get? growth names = outline.get? growth' names := by
  induction names generalizing outline with
  | nil => rfl
  | cons name names ih =>
    have hchild : outline.child? growth name = outline.child? growth' name := by
      rw [child?, child?, h]
    simp only [get?, find?] at ih ⊢
    rw [hchild]
    cases outline.child? growth' name with
    | none => rfl
    | some child => exact ih child

/-- The first child has its name, or the others decide. -/
theorem child?_cons (growth : Growth α) (root entry : α) (below rest : Forest α) (name : String) :
    (⟨root, .cons entry below rest⟩ : Outline α).child? growth name =
      if growth.name? entry = some name then some ⟨entry, below⟩ else (⟨root, rest⟩ : Outline α).child? growth name := by
  by_cases h : growth.name? entry = some name <;> simp [child?, children, Forest.outlines, h]

theorem get?_cons (growth : Growth α) (name : String) (names : List String) (outline : Outline α) :
    outline.get? growth (name :: names) = (outline.child? growth name).bind (get? growth names) := by
  rw [get?, find?]
  cases outline.child? growth name <;> rfl

/-- Below a child that would have to be made there is nothing. -/
theorem get?_childAt (growth : Growth α) (name next : String) (names : List String) (outline : Outline α) :
    (outline.childAt growth name).get? growth (next :: names) = outline.get? growth (name :: next :: names) := by
  rw [get?_cons growth name, childAt]
  cases outline.child? growth name <;> rfl

/-- What is found below a child put in under its name is what the child holds. -/
theorem get?_putChild_self {growth : Growth α} {name : String} {child : Outline α}
    (h : growth.name? child.root = some name) (names : List String) (outline : Outline α) :
    (outline.putChild growth name child).get? growth (name :: names) = child.get? growth names := by
  rw [get?_cons, child?_putChild_self h, Option.bind_some]

/-- A child put in under its name changes nothing below other names. -/
theorem get?_putChild_of_ne {growth : Growth α} {name other : String} {child : Outline α}
    (h : growth.name? child.root = some name) (hne : other ≠ name) (names : List String) (outline : Outline α) :
    (outline.putChild growth name child).get? growth (other :: names) = outline.get? growth (other :: names) := by
  rw [get?_cons, child?_putChild_of_ne h hne, get?_cons]

/-- An edit takes no entry away. -/
theorem isSome_get?_editAt {growth : Growth α} {edit : α → β × α}
    (hname : ∀ a name, growth.name? (growth.child a name) = some name) (hk : Keeps growth edit) (names others : List String)
    {outline : Outline α} (h : (outline.get? growth others).isSome = true) :
    ((editAt growth edit names outline).2.get? growth others).isSome = true := by
  induction names generalizing others outline with
  | nil =>
    cases others with
    | nil => rfl
    | cons other others => exact h
  | cons name names ih =>
    rw [editAt_cons]
    cases others with
    | nil => rfl
    | cons other others =>
      have hroot : growth.name? (editAt growth edit names (outline.childAt growth name)).2.root = some name := by
        rw [(editAt_keeps hk names _).1]
        exact name?_childAt hname outline name
      by_cases hne : other = name
      · subst hne
        rw [get?_cons] at h
        rw [get?_putChild_self hroot]
        refine ih others ?_
        cases hc : outline.child? growth other with
        | none =>
          rw [hc] at h
          cases h
        | some child =>
          rw [hc] at h
          rw [childAt, hc]
          exact h
      · rwa [get?_putChild_of_ne hroot hne]

theorem entryAt_putChild_of_ne {growth : Growth α} {name other : String} {child : Outline α}
    (h : growth.name? child.root = some name) (hne : other ≠ name) (names : List String) (outline : Outline α) :
    (outline.putChild growth name child).entryAt growth (other :: names) =
      outline.entryAt growth (other :: names) := by
  rw [entryAt, childAt, child?_putChild_of_ne h hne]
  rfl

/-- What is below the root does not depend on it, but for the children that it would get. -/
theorem entryAt_withRoot {growth : Growth α} {outline : Outline α} {root : α}
    (h : growth.child root = growth.child outline.root) (name : String) (names : List String) :
    ({ outline with root } : Outline α).entryAt growth (name :: names) = outline.entryAt growth (name :: names) := by
  rw [entryAt, childAt, h]
  rfl

/-- Every entry of a child is an entry of the outline; one that has to be made is not. -/
theorem forall_entries_childAt {growth : Growth α} {P : α → Prop} (hchild : ∀ a name, P a → P (growth.child a name))
    {outline : Outline α} (h : ∀ a ∈ outline.entries, P a) (name : String) :
    ∀ a ∈ (outline.childAt growth name).entries, P a := by
  unfold childAt
  cases hc : outline.child? growth name with
  | none =>
    intro a ha
    simp only [Option.getD_none, entries, Forest.entries, List.mem_singleton] at ha
    exact ha ▸ hchild _ _ (h _ List.mem_cons_self)
  | some child =>
    intro a ha
    exact h a (List.mem_cons_of_mem _ (Forest.mem_entries_iff.2 ⟨child, List.mem_of_find?_eq_some hc, ha⟩))

/-- Every entry after a child is put in is one of the child or was there before. -/
theorem forall_entries_putChild {growth : Growth α} {P : α → Prop} {name : String} {outline child : Outline α}
    (h : ∀ a ∈ outline.entries, P a) (hchild : ∀ a ∈ child.entries, P a) :
    ∀ a ∈ (outline.putChild growth name child).entries, P a := by
  intro a ha
  rcases List.mem_cons.1 ha with rfl | ha
  · exact h _ List.mem_cons_self
  · obtain ⟨o, ho, hao⟩ := Forest.mem_entries_iff.1 ha
    rcases Forest.mem_outlines_putFirst ho with rfl | ho
    · exact hchild a hao
    · exact h a (List.mem_cons_of_mem _ (Forest.mem_entries_iff.2 ⟨o, ho, hao⟩))

/-- What holds of every entry, of what edits make of such an entry, and of the children it would get, holds of every entry
after an edit. -/
theorem entries_editAt {growth : Growth α} {edit : α → β × α} {P : α → Prop} (hedit : ∀ a, P a → P (edit a).2)
    (hchild : ∀ a name, P a → P (growth.child a name)) (names : List String) (outline : Outline α)
    (h : ∀ a ∈ outline.entries, P a) : ∀ a ∈ (editAt growth edit names outline).2.entries, P a := by
  induction names generalizing outline with
  | nil =>
    intro a ha
    rcases List.mem_cons.1 ha with rfl | ha
    · exact hedit _ (h _ List.mem_cons_self)
    · exact h a (List.mem_cons_of_mem _ ha)
  | cons name names ih =>
    rw [editAt_cons]
    exact forall_entries_putChild h (ih _ (forall_entries_childAt hchild h name))

end Outline

end RouterPlan
