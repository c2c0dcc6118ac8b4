import RouterPlan.Proofs.Lemmas.Configurations

/-!
# Configurations that hold the same

What is recorded in a section takes no part in what a command does there (`Section.perform_unlogged`). Configurations are alike
when their sections hold the same at every path, whatever is recorded in them and whichever empty sections they list; then they are
equal (`Configuration.Alike.beq`). Edits that go through in one of them go through in the other, and leave them alike
(`Configuration.Alike.exists_loadAll`), and so does a script (`Configuration.Alike.exists_apply`).
-/

namespace RouterPlan

namespace Section

variable {s s' m : Section}

/-- The section with nothing recorded. -/
def unlogged (s : Section) : Section :=
  { s with log := [] }

theorem insert_unlogged (s : Section) (item : Item) (destination : Option Nat) :
    s.unlogged.insert item destination = (s.insert item destination).map fun result => (result.1, result.2.unlogged) := by
  have hsettle : s.unlogged.settleDestination (s.unlogged.items.length - 1) destination =
      s.settleDestination (s.items.length - 1) destination := by
    cases destination <;> rfl
  rw [insert, insert, hsettle]
  cases s.settleDestination (s.items.length - 1) destination <;>
    by_cases hmode : (destination.isSome && !s.mode.allowsPlacement) = true <;>
    by_cases hitem : item ∈ s.items <;>
    simp [unlogged, hmode, hitem, bind, Except.bind, pure, Except.pure, Except.map]

theorem delete_unlogged (s : Section) (item : Item) :
    s.unlogged.delete item = (s.delete item).map fun result => (result.1, result.2.unlogged) := by
  have hposition : s.unlogged.requirePosition item = s.requirePosition item := rfl
  rw [delete, delete, hposition]
  cases s.requirePosition item <;> rfl

theorem move_unlogged (s : Section) (item : Item) (destination : Option Nat) :
    s.unlogged.move item destination = (s.move item destination).map fun result => (result.1, result.2.unlogged) := by
  have hsettle : s.unlogged.settleDestination s.unlogged.items.length destination =
      s.settleDestination s.items.length destination := by
    cases destination <;> rfl
  have hposition : s.unlogged.requirePosition item = s.requirePosition item := rfl
  rw [move, move, hsettle, hposition]
  cases hmode : s.mode.isOrdered <;> cases s.settleDestination s.items.length destination <;>
    cases s.requirePosition item <;> simp [unlogged, hmode, bind, Except.bind, pure, Except.pure, Except.map]

theorem set_unlogged (s : Section) (target : Identifier) (values : Values) :
    (s.unlogged.set target values).2 = (s.set target values).2.unlogged := by
  simp only [set, apply_ite Prod.snd, apply_ite unlogged]
  rfl

/-- What is recorded takes no part in what a command does. -/
theorem perform_unlogged (s : Section) (command : Command) :
    s.unlogged.perform command = (s.perform command).map unlogged := by
  have hitem : ∀ index, s.unlogged.itemAt index = s.itemAt index := fun _ => rfl
  cases command with
  | add values before =>
    rw [perform, perform, insert_unlogged]
    cases s.insert values before <;> rfl
  | remove index =>
    rw [perform, perform, hitem]
    cases s.itemAt index with
    | error cause => rfl
    | ok item =>
      simp only [bind, Except.bind, delete_unlogged]
      cases s.delete item <;> rfl
  | move index before =>
    rw [perform, perform, hitem]
    cases s.itemAt index with
    | error cause => rfl
    | ok item =>
      simp only [bind, Except.bind, move_unlogged]
      cases s.move item before <;> rfl
  | set target values =>
    rw [perform, perform, set_unlogged]
    rfl

/-- Sections that hold the same accept the same command, and hold the same afterwards. -/
theorem exists_load_of_unlogged {command : Command} (h : s.load command = .ok s') (hsame : m.unlogged = s.unlogged) :
    ∃ m', m.load command = .ok m' ∧ m'.unlogged = s'.unlogged := by
  obtain ⟨after, hafter, hs'⟩ := bind_eq_ok_iff.1 h
  cases hs'
  have hperform := perform_unlogged m command
  rw [hsame, perform_unlogged, hafter] at hperform
  cases hm : m.perform command with
  | error cause =>
    rw [hm] at hperform
    cases hperform
  | ok m' =>
    rw [hm] at hperform
    refine ⟨{ m' with log := m'.log ++ [command] }, ?_, (Except.ok.inj hperform).symm⟩
    rw [load, hm]
    rfl

/-- Sections that hold the same accept the same commands, and hold the same afterwards. -/
theorem exists_loads_of_unlogged {commands : List Command} (h : commands.foldlM load s = .ok s')
    (hsame : m.unlogged = s.unlogged) : ∃ m', commands.foldlM load m = .ok m' ∧ m'.unlogged = s'.unlogged := by
  induction commands generalizing s m with
  | nil =>
    cases h
    exact ⟨m, rfl, hsame⟩
  | cons command commands ih =>
    rw [List.foldlM_cons] at h
    obtain ⟨after, hload, hrest⟩ := bind_eq_ok_iff.1 h
    obtain ⟨after', hload', hsame'⟩ := exists_load_of_unlogged hload hsame
    obtain ⟨m', hm', hresult⟩ := ih hrest hsame'
    exact ⟨m', by rw [List.foldlM_cons, hload']; exact hm', hresult⟩

end Section

namespace Configuration

variable {c c' c'' : Configuration}

/-- The configurations hold the same items and settings in sections of the same mode at every path. -/
def Alike (c c' : Configuration) : Prop :=
  ∀ path, (c.sectionAt path).unlogged = (c'.sectionAt path).unlogged

theorem Alike.symm (h : c.Alike c') : c'.Alike c :=
  fun path => (h path).symm

theorem Alike.trans (h : c.Alike c') (h' : c'.Alike c'') : c.Alike c'' :=
  fun path => (h path).trans (h' path)

theorem Alike.items_eq (h : c.Alike c') (path : Path) : (c.sectionAt path).items = (c'.sectionAt path).items :=
  (congrArg Section.items (h path) :)

theorem Alike.settings_eq (h : c.Alike c') (path : Path) :
    (c.sectionAt path).settings = (c'.sectionAt path).settings :=
  (congrArg Section.settings (h path) :)

/-- Edits that go through in one of two configurations that are alike go through in the other, and leave them alike. -/
theorem Alike.exists_loadAll {edits : List (Path × Command)} {after : Configuration} (h : c'.Alike c)
    (hafter : loadAll edits c = (.ok (), after)) : ∃ after', loadAll edits c' = (.ok (), after') ∧ after'.Alike after := by
  have hloads := fun path => Section.exists_loads_of_unlogged (sectionAt_of_loadAll hafter path) (h path)
  obtain ⟨after', hafter'⟩ := Configuration.exists_loadAll fun path => ⟨_, (hloads path).choose_spec.1⟩
  refine ⟨after', hafter', fun path => ?_⟩
  have hsame := (hloads path).choose_spec
  rw [Except.ok.inj ((sectionAt_of_loadAll hafter' path).symm.trans hsame.1)]
  exact hsame.2

/-- What a configuration holds by path: what the section at the path holds, if it holds something. -/
theorem WellFormed.get?_content (h : c.WellFormed) (path : Path) :
    c.content.get? path = if (c.sectionAt path).hasContent then
      some ((c.sectionAt path).comparableItems, (c.sectionAt path).settings) else none := by
  have hkeys : (((c.sections.filter (·.hasContent)).map fun s => (s.path, s.comparableItems, s.settings)).map (·.1)).Nodup := by
    rw [List.map_map]
    exact h.placed.nodup_paths.sublist (List.filter_sublist.map Section.path)
  refine Option.ext fun value => ?_
  rw [content, Assoc.get?_ofList_eq_some_iff hkeys, List.mem_map]
  constructor
  · rintro ⟨s, hs, hentry⟩
    obtain ⟨hmem, hcontent⟩ := List.mem_filter.1 hs
    cases hentry
    rw [sectionAt_of_section? (h.section?_eq_some_iff.2 ⟨hmem, rfl⟩), if_pos hcontent]
  · intro hvalue
    rw [Option.ite_none_right_eq_some] at hvalue
    obtain ⟨hcontent, hvalue⟩ := hvalue
    cases hs : c.section? path with
    | none =>
      rw [h.sectionAt_of_section?_eq_none hs] at hcontent
      cases hcontent
    | some s =>
      rw [sectionAt_of_section? hs] at hcontent hvalue
      obtain ⟨hmem, rfl⟩ := h.section?_eq_some_iff.1 hs
      exact ⟨s, List.mem_filter.2 ⟨hmem, hcontent⟩, congrArg (Prod.mk s.path) (Option.some.inj hvalue)⟩

/-- Configurations that are alike are equal. -/
theorem Alike.beq (halike : c'.Alike c) (hc' : c'.WellFormed) (hc : c.WellFormed) : (c' == c) = true := by
  have hcontent : c'.content = c.content := by
    refine Assoc.ext_get? fun path => ?_
    rw [hc'.get?_content, hc.get?_content]
    exact (congrArg (fun s : Section => if s.hasContent then some (s.comparableItems, s.settings) else none) (halike path) :)
  have hequal : (c'.content == c.content) = true := beq_iff_eq.2 hcontent
  exact hequal

/-- Loading edits changes neither the modes of further sections nor the version. -/
theorem frame_loadAll (edits : List (Path × Command)) (c : Configuration) :
    (loadAll edits c).2.order = c.order ∧ (loadAll edits c).2.version = c.version :=
  loadAll_keeps (P := fun next => next.order = c.order ∧ next.version = c.version) (fun _ _ _ hnext => hnext) ⟨rfl, rfl⟩ edits

/-- A script that is carried out keeps a configuration well-formed, with the same modes and the same version. -/
theorem WellFormed.of_apply {script : Script} (h : c.WellFormed) (happly : c.apply script = .ok c') :
    c'.WellFormed ∧ c'.order = c.order ∧ c'.version = c.version := by
  have hloaded := apply_eq_ok_iff.1 happly
  have hwf := h.loadAll script.edits
  have hframe := frame_loadAll script.edits c
  rw [hloaded] at hwf hframe
  exact ⟨hwf, hframe⟩

/-- A script that is carried out in one of two configurations that are alike is carried out in the other, and leaves them alike. -/
theorem Alike.exists_apply {script : Script} {after : Configuration} (h : c'.Alike c) (hafter : c.apply script = .ok after) :
    ∃ after', c'.apply script = .ok after' ∧ after'.Alike after := by
  obtain ⟨after', hok, halike⟩ := h.exists_loadAll (apply_eq_ok_iff.1 hafter)
  exact ⟨after', apply_eq_ok_iff.2 hok, halike⟩

end Configuration

end RouterPlan
