import RouterPlan.Proofs.Lemmas.Edits
import RouterPlan.Proofs.Lemmas.Placement
import RouterPlan.Replay

/-!
# Configurations as maps from paths to sections

`Configuration.sectionAt` is the section at a path, or the empty one that an edit there would make. An edit at a path changes
that section and no other (`sectionAt_editAt`), so a list of edits acts on each path apart from the others
(`sectionAt_of_loadAll`, `exists_loadAll`).
-/

namespace RouterPlan

/-- The naming of sections goes by their paths. -/
theorem Section.tracks (order : OrderTable) : (growth order).Tracks Section.path :=
  ⟨fun _ => rfl, fun _ _ => rfl⟩

/-- A section in which nothing is yet is well-formed. -/
theorem Section.wellFormed_fresh (order : OrderTable) (path : Path) : (fresh order path).WellFormed order :=
  ⟨List.nodup_nil, fun _ _ h => (nomatch h), rfl⟩

/-- An edit leaves sections where they are, and those that are well-formed stay so. -/
structure Section.Keeps {β : Type} (order : OrderTable) (edit : Section → β × Section) : Prop where
  path : ∀ s, (edit s).2.path = s.path
  wellFormed : ∀ s, s.WellFormed order → (edit s).2.WellFormed order

namespace Section

variable {order : OrderTable}

/-- An edit that may be refused keeps sections if it does so when it is accepted. -/
theorem keeps_attempt {α : Type} {edit : Section → Except IntegrityError (α × Section)}
    (hpath : ∀ s result s', edit s = .ok (result, s') → s'.path = s.path)
    (hwf : ∀ s result s', s.WellFormed order → edit s = .ok (result, s') → s'.WellFormed order) :
    Keeps order (attempt edit) := by
  refine ⟨fun s => ?_, fun s hs => ?_⟩ <;> rw [attempt] <;> split
  · rename_i result s' he
    exact hpath s result s' he
  · rfl
  · rename_i result s' he
    exact hwf s result s' hs he
  · exact hs

theorem keeps_insert (item : Item) (destination : Option Nat) :
    Keeps order (attempt fun s => s.insert item destination) :=
  keeps_attempt (fun _ _ _ h => path_insert h) fun _ _ _ hs h => (effect_of_insert h).wellFormed hs

theorem keeps_delete (item : Item) : Keeps order (attempt fun s => s.delete item) :=
  keeps_attempt (fun _ _ _ h => path_delete h) fun _ _ _ hs h => (effect_of_delete hs.nodup h).wellFormed hs

theorem keeps_move (item : Item) (destination : Option Nat) : Keeps order (attempt fun s => s.move item destination) :=
  keeps_attempt (fun _ _ _ h => path_move h) fun _ _ _ hs h => (effect_of_move hs.nodup h).wellFormed hs

theorem keeps_set (target : Identifier) (values : Values) : Keeps order fun s => s.set target values :=
  ⟨fun s => path_set s target values, fun _ hs => hs.set target values⟩

theorem keeps_load (command : Command) : Keeps order (attempt fun s => do return ((), ← s.load command)) := by
  refine keeps_attempt (fun s result s' h => ?_) fun s result s' hs h => ?_ <;>
    obtain ⟨m, hload, hm⟩ := bind_eq_ok_iff.1 h <;> cases hm
  · exact path_load hload
  · exact wellFormed_of_load hs hload

end Section

namespace Configuration

/-- The section at a path, or the empty one that an edit there would make. -/
def sectionAt (c : Configuration) (path : Path) : Section :=
  c.outline.entryAt (Section.growth c.order) path.segments

/-- The items at a path, none if there is no section. -/
def itemsAt (c : Configuration) (path : Path) : List Item :=
  ((c.section? path).map (·.items)).getD []

/-- The settings at a path, none if there is no section. -/
def settingsAt (c : Configuration) (path : Path) : Assoc Identifier Values :=
  ((c.section? path).map (·.settings)).getD ∅

/-- The commands recorded at a path, none if there is no section. -/
def logAt (c : Configuration) (path : Path) : List Command :=
  ((c.section? path).map (·.log)).getD []

/-- Every section lies where its path says, and is well-formed. -/
structure WellFormed (c : Configuration) : Prop where
  placed : c.outline.Placed Section.path .root
  sections : ∀ s ∈ c.sections, s.WellFormed c.order

/-- The empty configuration is well-formed. -/
theorem wellFormed_empty (order : OrderTable) : (empty order).WellFormed := by
  refine ⟨⟨rfl, trivial⟩, fun s hs => ?_⟩
  have hroot : s = Section.fresh order .root := by
    simpa [sections, empty, Outline.entries, Forest.entries] using hs
  exact hroot ▸ Section.wellFormed_fresh order .root

variable {c : Configuration}

/-- A section at a path is one that has the path. -/
theorem WellFormed.section?_eq_some_iff (h : c.WellFormed) {path : Path} {s : Section} :
    c.section? path = some s ↔ s ∈ c.sections ∧ s.path = path := by
  have hiff : c.section? path = some s ↔ s ∈ c.sections ∧ s.path = Path.root.extend path.segments :=
    h.placed.get?_eq_some_iff (Section.tracks c.order)
  rwa [Path.extend_root] at hiff

/-- The section at a path has that path. -/
theorem WellFormed.path_sectionAt (h : c.WellFormed) (path : Path) : (c.sectionAt path).path = path := by
  have hpath : (c.sectionAt path).path = Path.root.extend path.segments :=
    h.placed.path_entryAt (Section.tracks c.order)
  rwa [Path.extend_root] at hpath

/-- Where there is a section, it is the one at the path. -/
theorem sectionAt_of_section? {path : Path} {s : Section} (h : c.section? path = some s) : c.sectionAt path = s := by
  obtain ⟨part, hpart, rfl⟩ := Option.map_eq_some_iff.1 h
  exact Outline.entryAt_of_find? hpart

/-- Where there is no section, an empty one would be made. -/
theorem WellFormed.sectionAt_of_section?_eq_none (h : c.WellFormed) {path : Path} (hnone : c.section? path = none) :
    c.sectionAt path = Section.fresh c.order path := by
  obtain ⟨parent, name, heq⟩ := Outline.entryAt_of_find?_eq_none (Option.map_eq_none_iff.1 hnone)
  have hpath := h.path_sectionAt path
  unfold sectionAt at hpath ⊢
  rw [heq] at hpath ⊢
  exact congrArg (Section.fresh c.order) hpath

/-- The section at a path is well-formed, whether it is there or not. -/
theorem WellFormed.sectionAt (h : c.WellFormed) (path : Path) : (c.sectionAt path).WellFormed c.order := by
  cases hs : c.section? path with
  | none =>
    rw [h.sectionAt_of_section?_eq_none hs]
    exact Section.wellFormed_fresh c.order path
  | some s =>
    rw [sectionAt_of_section? hs]
    exact h.sections s (h.section?_eq_some_iff.1 hs).1

theorem WellFormed.itemsAt_eq (h : c.WellFormed) (path : Path) : c.itemsAt path = (c.sectionAt path).items := by
  cases hs : c.section? path with
  | none => rw [itemsAt, hs, h.sectionAt_of_section?_eq_none hs]; rfl
  | some s => rw [itemsAt, hs, sectionAt_of_section? hs]; rfl

theorem WellFormed.settingsAt_eq (h : c.WellFormed) (path : Path) :
    c.settingsAt path = (c.sectionAt path).settings := by
  cases hs : c.section? path with
  | none => rw [settingsAt, hs, h.sectionAt_of_section?_eq_none hs]; rfl
  | some s => rw [settingsAt, hs, sectionAt_of_section? hs]; rfl

theorem WellFormed.logAt_eq (h : c.WellFormed) (path : Path) : c.logAt path = (c.sectionAt path).log := by
  cases hs : c.section? path with
  | none => rw [logAt, hs, h.sectionAt_of_section?_eq_none hs]; rfl
  | some s => rw [logAt, hs, sectionAt_of_section? hs]; rfl

/-- The version takes no part in what the sections are. -/
theorem WellFormed.withVersion (h : c.WellFormed) (version : Option String) : ({ c with version } : Configuration).WellFormed :=
  ⟨h.placed, h.sections⟩

/-- The configuration of a version in which nothing is. -/
def bare (order : OrderTable) (version : Option String) : Configuration :=
  { empty order with version }

theorem wellFormed_bare (order : OrderTable) (version : Option String) : (bare order version).WellFormed :=
  (wellFormed_empty order).withVersion version

/-- Where nothing is, the section at a path is a fresh one. -/
theorem sectionAt_bare (order : OrderTable) (version : Option String) (path : Path) :
    (bare order version).sectionAt path = Section.fresh order path := by
  cases hs : (bare order version).section? path with
  | none => exact (wellFormed_bare order version).sectionAt_of_section?_eq_none hs
  | some s =>
    obtain ⟨hmem, hpath⟩ := (wellFormed_bare order version).section?_eq_some_iff.1 hs
    have hroot : s = Section.fresh order .root := by
      simpa [sections, bare, empty, Outline.entries, Forest.entries] using hmem
    rw [sectionAt_of_section? hs, ← hpath, hroot]
    rfl

/-! ## Edits at a path -/

variable {β : Type} {edit : Section → β × Section}

/-- An edit that leaves sections where they are changes neither what they are called nor what children they get. -/
theorem keeps_of_path {order : OrderTable} (hedit : ∀ s, (edit s).2.path = s.path) :
    Outline.Keeps (Section.growth order) edit :=
  fun s => ⟨by simp [Section.growth, hedit], by simp [Section.growth, hedit]⟩

/-- An edit is carried out on the section at its path. -/
theorem fst_editAt (c : Configuration) (path : Path) (edit : Section → β × Section) :
    (c.editAt path edit).1 = (edit (c.sectionAt path)).1 :=
  Outline.fst_editAt _ _ _ _

/-- An edit at a path changes the section there and no other. -/
theorem sectionAt_editAt (hedit : ∀ s, (edit s).2.path = s.path) (c : Configuration) (path other : Path) :
    (c.editAt path edit).2.sectionAt other = if other = path then (edit (c.sectionAt path)).2 else c.sectionAt other := by
  have hiff : other.segments = path.segments ↔ other = path :=
    ⟨fun h => by cases other; cases path; exact congrArg Path.mk h, fun h => h ▸ rfl⟩
  have hat := Outline.entryAt_editAt (Section.tracks c.order).name?_child (keeps_of_path hedit) path.segments other.segments c.outline
  simp only [hiff] at hat
  exact hat

/-- An edit that keeps sections well-formed and where they are keeps the configuration well-formed. -/
theorem WellFormed.editAt (h : c.WellFormed) (path : Path) (hedit : Section.Keeps c.order edit) :
    (c.editAt path edit).2.WellFormed :=
  ⟨h.placed.editAt (Section.tracks c.order) hedit.path,
    Outline.entries_editAt hedit.wellFormed (fun _ _ _ => Section.wellFormed_fresh c.order _) path.segments c.outline h.sections⟩

/-- Two edits at a path, one after the other, are one edit. -/
theorem editAt_editAt {γ : Type} (hedit : ∀ s, (edit s).2.path = s.path) (next : Section → γ × Section) (c : Configuration)
    (path : Path) : (c.editAt path edit).2.editAt path next = c.editAt path fun s => next (edit s).2 := by
  have houtline := Outline.editAt_editAt (Section.tracks c.order).name?_child (keeps_of_path hedit) next path.segments c.outline
  rw [editAt, editAt, editAt]
  simp only [houtline]

/-- An edit takes no section away. -/
theorem isSome_section?_editAt (hedit : ∀ s, (edit s).2.path = s.path) (c : Configuration) (path other : Path)
    (h : (c.section? other).isSome = true) : ((c.editAt path edit).2.section? other).isSome = true :=
  Outline.isSome_get?_editAt (Section.tracks c.order).name?_child (keeps_of_path hedit) path.segments other.segments h

/-! ## Loading commands -/

/-- Loading a command is an edit that may be refused. -/
theorem attempt_load (command : Command) (s : Section) :
    Section.attempt (fun s => do return ((), ← s.load command)) s =
      match s.load command with
      | .ok s' => (.ok (), s')
      | .error cause => (.error cause, s) := by
  rw [Section.attempt]
  cases s.load command <;> rfl

/-- Loading a command leaves every section where it is. -/
theorem path_attempt_load (command : Command) (s : Section) :
    (Section.attempt (fun s => do return ((), ← s.load command)) s).2.path = s.path := by
  rw [attempt_load]
  cases h : s.load command with
  | ok s' => exact Section.path_load h
  | error cause => rfl

/-- Loading a command makes the section at its path by itself. -/
theorem load_ensure (c : Configuration) (path : Path) (command : Command) :
    (c.ensure path).load path command = c.load path command :=
  editAt_editAt (fun _ => rfl) _ c path

/-- A command is accepted at a path exactly when the section there accepts it. -/
theorem fst_load (c : Configuration) (path : Path) (command : Command) :
    (c.load path command).1 = ((c.sectionAt path).load command).map fun _ => () := by
  rw [load, fst_editAt, attempt_load]
  cases (c.sectionAt path).load command <;> rfl

/-- A command that is accepted changes the section at its path and no other. -/
theorem sectionAt_load {path : Path} {command : Command} {s : Section} (h : (c.sectionAt path).load command = .ok s)
    (other : Path) : (c.load path command).2.sectionAt other = if other = path then s else c.sectionAt other := by
  rw [load, sectionAt_editAt (path_attempt_load command), attempt_load, h]

/-- Loading a command keeps a configuration well-formed, whether it is accepted or refused. -/
theorem WellFormed.load (h : c.WellFormed) (path : Path) (command : Command) : (c.load path command).2.WellFormed :=
  h.editAt path (Section.keeps_load command)

/-- What a list of edits, or of lines, has for one path. -/
def atPath {α : Type} (path : Path) (edits : List (Path × α)) : List α :=
  (edits.filter fun e => e.1 = path).map (·.2)

@[simp] theorem atPath_nil {α : Type} (path : Path) : atPath path ([] : List (Path × α)) = [] :=
  rfl

theorem atPath_cons {α : Type} (path : Path) (e : Path × α) (edits : List (Path × α)) :
    atPath path (e :: edits) = if e.1 = path then e.2 :: atPath path edits else atPath path edits := by
  by_cases h : e.1 = path <;> simp [atPath, h]

theorem atPath_append {α : Type} (path : Path) (edits more : List (Path × α)) :
    atPath path (edits ++ more) = atPath path edits ++ atPath path more := by
  simp [atPath]

theorem atPath_map {α : Type} (path at_ : Path) (commands : List α) :
    atPath path (commands.map (at_, ·)) = if at_ = path then commands else [] := by
  induction commands with
  | nil => simp
  | cons command commands ih =>
    rw [List.map_cons, atPath_cons, ih]
    split <;> rfl

/-- Edits after others go through when the first do, and then the others do. -/
theorem loadAll_append (edits more : List (Path × Command)) (c : Configuration) :
    loadAll (edits ++ more) c =
      match loadAll edits c with
      | (.ok (), c') => loadAll more c'
      | (.error cause, c') => (.error cause, c') := by
  induction edits generalizing c with
  | nil => rfl
  | cons e edits ih =>
    rw [List.cons_append, loadAll, loadAll]
    split
    · exact ih _
    · rfl

/-- The first of several commands makes the section at their path, so it does not matter whether it is there already. -/
theorem loadAll_ensure {commands : List Command} (hcommands : commands ≠ []) (c : Configuration) (path : Path) :
    loadAll (commands.map (path, ·)) (c.ensure path) = loadAll (commands.map (path, ·)) c := by
  cases commands with
  | nil => exact absurd rfl hcommands
  | cons command commands => rw [List.map_cons, loadAll, loadAll, load_ensure]

/-- Edits that go through can be stopped between any two of them. -/
theorem exists_of_loadAll_append {edits more : List (Path × Command)} {c c' : Configuration}
    (h : loadAll (edits ++ more) c = (.ok (), c')) :
    ∃ next, loadAll edits c = (.ok (), next) ∧ loadAll more next = (.ok (), c') := by
  rw [loadAll_append] at h
  split at h
  · rename_i next hnext
    exact ⟨next, hnext, h⟩
  · cases h

/-- A list of edits that goes through does at each path what the commands for that path do there. -/
theorem sectionAt_of_loadAll {edits : List (Path × Command)} {c c' : Configuration}
    (h : loadAll edits c = (.ok (), c')) (path : Path) :
    (atPath path edits).foldlM Section.load (c.sectionAt path) = .ok (c'.sectionAt path) := by
  induction edits generalizing c with
  | nil =>
    cases h
    rfl
  | cons e edits ih =>
    obtain ⟨at_, command⟩ := e
    rw [loadAll] at h
    cases hl : (c.sectionAt at_).load command with
    | error cause =>
      have hfst := fst_load c at_ command
      rw [hl] at hfst
      cases hc : c.load at_ command with
      | mk result c₁ =>
        rw [hc] at hfst h
        cases hfst
        cases h
    | ok s =>
      have hfst := fst_load c at_ command
      have hat := sectionAt_load hl
      rw [hl] at hfst
      cases hc : c.load at_ command with
      | mk result c₁ =>
        rw [hc] at hfst h hat
        cases hfst
        have ih := ih h
        rw [hat] at ih
        rw [atPath_cons]
        by_cases hp : at_ = path
        · subst hp
          rw [if_pos rfl] at ih
          rw [if_pos rfl, List.foldlM_cons, hl]
          exact ih
        · rw [if_neg fun hp' => hp hp'.symm] at ih
          rw [if_neg hp]
          exact ih

/-- A list of edits goes through if the commands for each path go through there. -/
theorem exists_loadAll {edits : List (Path × Command)} {c : Configuration}
    (h : ∀ path, ∃ s, (atPath path edits).foldlM Section.load (c.sectionAt path) = .ok s) :
    ∃ c', loadAll edits c = (.ok (), c') := by
  induction edits generalizing c with
  | nil => exact ⟨c, rfl⟩
  | cons e edits ih =>
    obtain ⟨at_, command⟩ := e
    obtain ⟨s, hs⟩ := h at_
    rw [atPath_cons, if_pos rfl, List.foldlM_cons] at hs
    obtain ⟨m, hl, hm⟩ := bind_eq_ok_iff.1 hs
    have hfst := fst_load c at_ command
    have hat := sectionAt_load hl
    rw [hl] at hfst
    rw [loadAll]
    cases hc : c.load at_ command with
    | mk result c₁ =>
      rw [hc] at hfst hat
      cases hfst
      refine ih fun path => ?_
      rw [hat]
      by_cases hp : path = at_
      · subst hp
        rw [if_pos rfl]
        exact ⟨s, hm⟩
      · obtain ⟨s', hs'⟩ := h path
        rw [atPath_cons, if_neg fun hp' => hp hp'.symm] at hs'
        rw [if_neg hp]
        exact ⟨s', hs'⟩

/-- Edits that have their effects at each path go through, and leave at each path what the effects say. -/
theorem exists_loadAll_of_effects {c : Configuration} (h : c.WellFormed) {edits : List (Path × Command)}
    {φ : Path → Section → Command → Prop} {after : Path → Section}
    (heff : ∀ path, Section.Effects (φ path) (c.sectionAt path) (atPath path edits) (after path)) :
    ∃ c', loadAll edits c = (.ok (), c') ∧
      ∀ path, c'.sectionAt path = { after path with log := (c.sectionAt path).log ++ atPath path edits } := by
  have hreplay := fun path => (heff path).replay (h.sectionAt path).nodup (c.sectionAt path).log
  obtain ⟨c', hc'⟩ := exists_loadAll fun path => ⟨_, hreplay path⟩
  exact ⟨c', hc', fun path => Except.ok.inj ((sectionAt_of_loadAll hc' path).symm.trans (hreplay path))⟩

/-- A script is applied by loading its edits, if all of them go through. -/
theorem apply_eq_ok_iff {c c' : Configuration} {script : Script} :
    c.apply script = .ok c' ↔ Configuration.loadAll script.edits c = (.ok (), c') := by
  rw [apply, replay]
  split
  · rename_i next hnext
    simp [hnext]
  · rename_i cause next hnext
    simp [hnext]

/-- What every command keeps, accepted or refused, is kept by edits, whether they go through or not. -/
theorem loadAll_keeps {P : Configuration → Prop} (hload : ∀ c path command, P c → P (c.load path command).2) {c : Configuration}
    (hc : P c) (edits : List (Path × Command)) : P (loadAll edits c).2 := by
  induction edits generalizing c with
  | nil => exact hc
  | cons e edits ih =>
    have hnext := hload c e.1 e.2 hc
    rw [loadAll]
    split
    · rename_i next h
      rw [h] at hnext
      exact ih hnext
    · rename_i cause next h
      rw [h] at hnext
      exact hnext

/-- Edits take no section away. -/
theorem isSome_section?_loadAll (edits : List (Path × Command)) {c : Configuration} {path : Path}
    (h : (c.section? path).isSome = true) : ((loadAll edits c).2.section? path).isSome = true :=
  loadAll_keeps (fun c at_ command hc => isSome_section?_editAt (path_attempt_load command) c at_ path hc) h edits

/-- Edits keep a configuration well-formed. -/
theorem WellFormed.loadAll {c : Configuration} (h : c.WellFormed) (edits : List (Path × Command)) :
    (Configuration.loadAll edits c).2.WellFormed :=
  loadAll_keeps (fun _ path command hc => hc.load path command) h edits

end Configuration

end RouterPlan
