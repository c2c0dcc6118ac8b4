import RouterPlan.Proofs.Lemmas.ScriptTree

/-!
# Configurations as scripts

The sections of a configuration with a list of commands for each make a script of the same shape (`Configuration.scriptOf`). If
the commands are those that the sections have recorded, loading a command is pushing it (`recorded_load`). So edits that were
loaded into an empty configuration are recorded there section by section, in the document order in which a script has them
(`working_recorded`).
-/

namespace RouterPlan

/-! ## Outlines of the same shape -/

section Shapes

variable {α β : Type} {growth : Growth α} {growth' : Growth β} {f : α → β}

/-- The row of what a function makes of each entry. -/
def Forest.map (f : α → β) : Forest α → Forest β
  | .nil => .nil
  | .cons entry below rest => .cons (f entry) (below.map f) (rest.map f)

/-- The outline of what a function makes of each entry. -/
def Outline.map (f : α → β) (outline : Outline α) : Outline β :=
  ⟨f outline.root, outline.below.map f⟩

/-- What a function makes of an entry has the same name, and corresponding children. -/
structure Growth.Carries (growth : Growth α) (growth' : Growth β) (f : α → β) : Prop where
  name?_eq : ∀ a, growth'.name? (f a) = growth.name? a
  child_eq : ∀ a name, growth'.child (f a) name = f (growth.child a name)

namespace Forest

theorem entries_map (f : α → β) (row : Forest α) : (row.map f).entries = row.entries.map f := by
  induction row with
  | nil => rfl
  | cons entry below rest ihBelow ihRest => simp [map, entries, ihBelow, ihRest]

theorem outlines_map (f : α → β) (row : Forest α) : (row.map f).outlines = row.outlines.map (·.map f) := by
  induction row with
  | nil => rfl
  | cons entry below rest _ ihRest => simp [map, outlines, Outline.map, ihRest]

/-- Putting in an outline, seen through a function. -/
theorem map_putFirst {test : α → Bool} {test' : β → Bool} (h : ∀ a, test' (f a) = test a) (outline : Outline α)
    (row : Forest α) : (row.putFirst test outline).map f = (row.map f).putFirst test' (outline.map f) := by
  induction row with
  | nil => rfl
  | cons entry below rest _ ih =>
    by_cases ht : test entry = true
    · simp [putFirst, map, ht, h, Outline.map]
    · simp [putFirst, map, ht, h, ih]

/-- Rows in place stay in place under a function that keeps paths. -/
theorem Placed.map {pathOf : α → Path} {pathOf' : β → Path} (hf : ∀ a, pathOf' (f a) = pathOf a) {path : Path} {row : Forest α}
    (h : row.Placed pathOf path) : (row.map f).Placed pathOf' path := by
  induction row generalizing path with
  | nil => trivial
  | cons entry below rest ihBelow ihRest =>
    obtain ⟨hname, hne, hbelow, hrest⟩ := h
    have hat := hf entry
    refine ⟨by rwa [hat], fun o ho => ?_, by rw [hat]; exact ihBelow hbelow, ihRest hrest⟩
    rw [outlines_map, List.mem_map] at ho
    obtain ⟨other, hother, rfl⟩ := ho
    rw [hat, Outline.map, hf]
    exact hne other hother

end Forest

namespace Outline

theorem entries_map (f : α → β) (outline : Outline α) : (outline.map f).entries = outline.entries.map f := by
  rw [entries, entries, List.map_cons, ← Forest.entries_map]
  rfl

/-- The child with a name, or the one that would be made for it, seen through a function. -/
theorem map_childAt (h : growth.Carries growth' f) (name : String) (outline : Outline α) :
    (outline.childAt growth name).map f = (outline.map f).childAt growth' name := by
  have hfind : (outline.map f).child? growth' name = (outline.child? growth name).map (·.map f) := by
    rw [child?, child?, children, map, Forest.outlines_map, List.find?_map, children]
    simp only [Function.comp_def, map, h.name?_eq]
  rw [childAt, childAt, hfind]
  cases outline.child? growth name with
  | none => simp [map, Forest.map, h.child_eq]
  | some child => rfl

/-- Putting in a child, seen through a function. -/
theorem map_putChild (h : growth.Carries growth' f) (name : String) (outline child : Outline α) :
    (outline.putChild growth name child).map f = (outline.map f).putChild growth' name (child.map f) := by
  have htest : ∀ a, (fun b => growth'.name? b == some name) (f a) = (growth.name? a == some name) := by
    intro a
    rw [← h.name?_eq]
  exact congrArg (Outline.mk (f outline.root)) (Forest.map_putFirst htest child outline.below)

/-- An edit at a path, seen through a function, is an edit at that path, if it is so at the entry there. -/
theorem map_editAt {γ δ : Type} (h : growth.Carries growth' f) {edit : α → γ × α} {edit' : β → δ × β} {names : List String}
    {outline : Outline α}
    (hedit : f (edit (outline.entryAt growth names)).2 = (edit' (f (outline.entryAt growth names))).2) :
    (editAt growth edit names outline).2.map f = (editAt growth' edit' names (outline.map f)).2 := by
  induction names generalizing outline with
  | nil =>
    exact congrArg (fun root => Outline.mk root (outline.below.map f)) hedit
  | cons name names ih =>
    rw [editAt_cons, editAt_cons, ← map_childAt h, ← ih hedit, map_putChild h]

end Outline

end Shapes

/-! ## Sections as batches -/

namespace Section

/-- The batch of a section with some commands for it. -/
def batchOf (commands : Section → List Command) (s : Section) : Batch :=
  { path := s.path, mode := s.mode, commands := commands s }

/-- Making sections is making batches, if a section in which nothing is yet has no commands. -/
theorem carries_batchOf (order : OrderTable) {commands : Section → List Command}
    (h : ∀ path, commands (fresh order path) = []) : (growth order).Carries (Batch.growth order) (batchOf commands) where
  name?_eq _ := rfl
  child_eq s name := by
    have hnone := h (s.path.child name)
    rw [growth, batchOf, batchOf, hnone]
    rfl

end Section

namespace Configuration

variable {c c' : Configuration} {commands : Section → List Command}

/-- The script of the shape of a configuration with some commands for each section. -/
def scriptOf (commands : Section → List Command) (c : Configuration) : Script :=
  ⟨c.outline.map (Section.batchOf commands)⟩

/-- The commands that the sections of a configuration have recorded. -/
def recorded (c : Configuration) : Script :=
  c.scriptOf (·.log)

theorem batches_scriptOf (commands : Section → List Command) (c : Configuration) :
    (c.scriptOf commands).batches = c.sections.map (Section.batchOf commands) :=
  Outline.entries_map _ _

/-- The script of a configuration has its batches in place. -/
theorem WellFormed.placed_scriptOf (h : c.WellFormed) : (c.scriptOf commands).Placed :=
  ⟨h.placed.1, h.placed.2.map (f := Section.batchOf commands) fun _ => rfl⟩

/-- The commands that the script of a configuration has for a path are those of the section there. -/
theorem WellFormed.atPath_scriptOf (h : c.WellFormed) (hfresh : ∀ path, commands (Section.fresh c.order path) = [])
    (path : Path) : atPath path (c.scriptOf commands).edits = commands (c.sectionAt path) := by
  rw [h.placed_scriptOf.atPath_edits]
  cases hs : c.section? path with
  | none =>
    have hnone : (c.scriptOf commands).batch? path = none := by
      refine List.find?_eq_none.2 fun batch hbatch hpath => ?_
      rw [batches_scriptOf, List.mem_map] at hbatch
      obtain ⟨s, hmem, rfl⟩ := hbatch
      rw [h.section?_eq_some_iff.2 ⟨hmem, of_decide_eq_true hpath⟩] at hs
      cases hs
    rw [hnone, h.sectionAt_of_section?_eq_none hs, hfresh]
    rfl
  | some s =>
    obtain ⟨hmem, hpath⟩ := h.section?_eq_some_iff.1 hs
    have hbatch : Section.batchOf commands s ∈ (c.scriptOf commands).batches := by
      rw [batches_scriptOf]
      exact List.mem_map_of_mem hmem
    rw [h.placed_scriptOf.batch?_eq_some_iff.2 ⟨hbatch, hpath⟩, sectionAt_of_section? hs]
    rfl

/-! ## Loading is pushing -/

/-- Loading a command that is accepted pushes it onto what is recorded. -/
theorem WellFormed.recorded_load (h : c.WellFormed) {path : Path} {command : Command} (hok : (c.load path command).1 = .ok ()) :
    (c.load path command).2.recorded = c.recorded.push c.order path command := by
  rw [fst_load] at hok
  cases hload : (c.sectionAt path).load command with
  | error cause =>
    rw [hload] at hok
    cases hok
  | ok s =>
    obtain ⟨hpath, hmode, hlog⟩ := Section.frame_load (h.sectionAt path).nodup hload
    refine congrArg Script.mk (Outline.map_editAt (Section.carries_batchOf c.order fun _ => rfl) ?_)
    rw [Configuration.sectionAt] at hload hpath hmode hlog
    rw [attempt_load, hload]
    simp [Section.batchOf, hpath, hmode, hlog]

/-- Edits that go through are pushed onto what is recorded. -/
theorem WellFormed.recorded_loadAll (h : c.WellFormed) {edits : List (Path × Command)} (hok : Configuration.loadAll edits c = (.ok (), c')) :
    c'.recorded = c.recorded.pushEdits c.order edits := by
  induction edits generalizing c with
  | nil =>
    cases hok
    rfl
  | cons edit edits ih =>
    rw [Configuration.loadAll] at hok
    have hwf := h.load edit.1 edit.2
    have horder : (c.load edit.1 edit.2).2.order = c.order := rfl
    have hstep : (c.load edit.1 edit.2).1 = .ok () → _ := h.recorded_load
    cases hc : c.load edit.1 edit.2 with
    | mk result next =>
      rw [hc] at hok hstep horder hwf
      cases result with
      | error cause => cases hok
      | ok =>
        rw [ih hwf hok, hstep rfl, horder]
        rfl

/-- Pushing edits one by one is pushing them by the names that lead to them. -/
theorem outline_pushEdits (order : OrderTable) (script : Script) (edits : List (Path × Command)) :
    (script.pushEdits order edits).outline =
      script.outline.pushes order (edits.map fun edit => (edit.1.segments, edit.2)) := by
  induction edits generalizing script with
  | nil => rfl
  | cons edit edits ih => exact ih _

/-- The edits of a script in place, loaded into a configuration in which nothing is, are recorded section by section in the order
of the script. -/
theorem working_recorded {script : Script} (hs : script.Placed) {order : OrderTable} {version : Option String}
    (hok : loadAll script.edits (bare order version) = (.ok (), c)) :
    Batch.working c.recorded.batches = Batch.working script.batches := by
  rw [(wellFormed_bare order version).recorded_loadAll hok, Script.batches, outline_pushEdits]
  exact hs.working_pushes rfl rfl

end Configuration

end RouterPlan
