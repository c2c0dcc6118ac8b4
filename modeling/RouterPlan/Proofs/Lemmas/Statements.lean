import RouterPlan.Proofs.Lemmas.MergeTree
import RouterPlan.Reading

/-!
# What the statements of a text come to

Both readings of a text follow its statements one by one. As a script they push its edits where the order table allows them
(`Script.foldlM_follow_eq_ok_iff`), so each path has the edits of the text in the order of the text (`Script.Placed.atPath_pushEdits`). As
a configuration they load the same edits (`Configuration.sectionAt_of_foldlM_follow`, `Configuration.exists_foldlM_follow`): headers
make sections and comments give versions, and neither takes part in what a command does. What goes through was allowed
(`Section.checkAllowed_of_loads`), so the check that a script is read with refuses nothing that could be loaded.
-/

namespace RouterPlan

namespace Statement

/-- The edit that a statement asks for, with its path. -/
def edit? (s : Statement) : Option (Path × Command) :=
  match s.content with
  | .ok (.edit command) => some (s.path, command)
  | _ => none

/-- The edits that statements ask for, in their order. -/
def edits (statements : List Statement) : List (Path × Command) :=
  statements.filterMap edit?

/-- The edits of a text, in the order of the text. -/
def editsOfText (text : String) : List (Path × Command) :=
  edits (ofText text)

/-- Whether nothing is wrong with the line of a statement. -/
def Readable (s : Statement) : Prop :=
  ∃ directive, s.content = .ok directive

theorem edits_cons (s : Statement) (statements : List Statement) :
    edits (s :: statements) = s.edit?.toList ++ edits statements := by
  rw [edits, List.filterMap_cons]
  cases s.edit? <;> rfl

end Statement

/-! ## Scripts -/

namespace Script

variable {order : OrderTable} {script script' : Script}

/-- Edits that their order table allows where they stand. -/
def Allows (order : OrderTable) (edits : List (Path × Command)) : Prop :=
  ∀ edit ∈ edits, edit.2.checkAllowed edit.1 (order.modeFor edit.1) = .ok ()

/-- A script follows a statement that is readable, and pushes its edit if it is allowed. -/
theorem follow_eq_ok_iff {s : Statement} :
    follow order script s = .ok script' ↔
      s.Readable ∧ Allows order s.edit?.toList ∧ script' = script.pushEdits order s.edit?.toList := by
  obtain ⟨line, text, path, content⟩ := s
  cases content with
  | error fault => simp [follow, Statement.Readable]
  | ok directive =>
    cases directive with
    | edit command =>
      cases hallowed : command.checkAllowed path (order.modeFor path) <;>
        simp [follow, Statement.Readable, Statement.edit?, Allows, pushEdits, hallowed, eq_comm]
    | comment text => simp [follow, Statement.Readable, Statement.edit?, Allows, pushEdits, eq_comm]
    | enter => simp [follow, Statement.Readable, Statement.edit?, Allows, pushEdits, eq_comm]
    | refresh => simp [follow, Statement.Readable, Statement.edit?, Allows, pushEdits, eq_comm]

/-- A script follows statements that are readable and whose edits are allowed, and then has these edits pushed. -/
theorem foldlM_follow_eq_ok_iff {statements : List Statement} :
    statements.foldlM (follow order) script = .ok script' ↔
      (∀ s ∈ statements, s.Readable) ∧ Allows order (Statement.edits statements) ∧
        script' = script.pushEdits order (Statement.edits statements) := by
  induction statements generalizing script with
  | nil => simp [Statement.edits, Allows, pushEdits, pure, Except.pure, eq_comm]
  | cons s statements ih =>
    simp only [List.foldlM_cons, bind_eq_ok_iff, follow_eq_ok_iff, ih, Statement.edits_cons, pushEdits_append,
      List.forall_mem_cons, Allows, List.forall_mem_append]
    constructor
    · rintro ⟨next, ⟨hreadable, hallowed, rfl⟩, hrest, hothers, hscript⟩
      exact ⟨⟨hreadable, hrest⟩, ⟨hallowed, hothers⟩, hscript⟩
    · rintro ⟨⟨hreadable, hrest⟩, ⟨hallowed, hothers⟩, hscript⟩
      exact ⟨_, ⟨hreadable, hallowed, rfl⟩, hrest, hothers, hscript⟩

/-- The commands of a batch are those of the entry that its path leads to, also where there is no batch yet. -/
theorem Placed.atPath_edits_eq (h : script.Placed) (order : OrderTable) (path : Path) :
    Configuration.atPath path script.edits = (script.outline.entryAt (Batch.growth order) path.segments).commands := by
  rw [h.atPath_edits, h.batch?_eq_get? order]
  cases hfind : script.outline.find? (Batch.growth order) path.segments with
  | none =>
    obtain ⟨parent, name, hentry⟩ := Outline.entryAt_of_find?_eq_none hfind
    rw [Outline.get?, hfind, hentry]
    rfl
  | some part =>
    rw [Outline.get?, hfind, Outline.entryAt_of_find? hfind]
    rfl

/-- A command that is pushed leaves every batch where it is. -/
theorem Placed.push (h : script.Placed) (order : OrderTable) (path : Path) (command : Command) :
    (script.push order path command).Placed :=
  Outline.Placed.editAt (Batch.tracks order) (fun _ => rfl) h

theorem Placed.pushEdits (h : script.Placed) (order : OrderTable) (edits : List (Path × Command)) :
    (script.pushEdits order edits).Placed := by
  induction edits generalizing script with
  | nil => exact h
  | cons edit edits ih => exact ih (h.push order edit.1 edit.2)

/-- A command that is pushed comes after those of its path. -/
theorem Placed.atPath_push (h : script.Placed) (order : OrderTable) (edit : Path × Command) (path : Path) :
    Configuration.atPath path (script.push order edit.1 edit.2).edits =
      Configuration.atPath path script.edits ++ Configuration.atPath path [edit] := by
  have hkeeps : Outline.Keeps (Batch.growth order)
      fun batch => ((), { batch with commands := batch.commands ++ [edit.2] }) := fun _ => ⟨rfl, rfl⟩
  have hentry := Outline.entryAt_editAt (Batch.tracks order).name?_child hkeeps edit.1.segments path.segments script.outline
  rw [(h.push order edit.1 edit.2).atPath_edits_eq order, h.atPath_edits_eq order, Configuration.atPath_cons,
    Configuration.atPath_nil, Script.push, hentry]
  by_cases hpath : edit.1 = path
  · rw [if_pos hpath, if_pos (congrArg Path.segments hpath.symm), hpath]
  · have hsegments : path.segments ≠ edit.1.segments := fun heq => hpath (by
      cases path
      cases hedit : edit.1
      rw [hedit] at heq
      exact congrArg Path.mk heq.symm)
    rw [if_neg hpath, if_neg hsegments, List.append_nil]

/-- Edits that are pushed come, path by path, after what was there and in their order. -/
theorem Placed.atPath_pushEdits (h : script.Placed) (order : OrderTable) (edits : List (Path × Command)) (path : Path) :
    Configuration.atPath path (script.pushEdits order edits).edits =
      Configuration.atPath path script.edits ++ Configuration.atPath path edits := by
  induction edits generalizing script with
  | nil => exact (List.append_nil _).symm
  | cons edit edits ih =>
    have hsplit : Configuration.atPath path (edit :: edits) =
        Configuration.atPath path [edit] ++ Configuration.atPath path edits :=
      Configuration.atPath_append path [edit] edits
    rw [Script.pushEdits, List.foldl_cons, ← Script.pushEdits, ih (h.push order edit.1 edit.2), h.atPath_push, hsplit,
      List.append_assoc]

end Script

/-! ## Configurations -/

namespace Section

variable {order : OrderTable} {s s' : Section}

/-- A command that a section carries out is allowed by its mode. -/
theorem checkAllowed_of_load (hs : s.WellFormed order) {command : Command} (h : s.load command = .ok s') :
    command.checkAllowed s.path (order.modeFor s.path) = .ok () := by
  rw [← hs.mode]
  obtain ⟨after, hperform, -⟩ := bind_eq_ok_iff.1 h
  cases command with
  | add values before =>
    obtain ⟨⟨returned, m⟩, hinsert, -⟩ := bind_eq_ok_iff.1 hperform
    cases before with
    | none => rfl
    | some position => exact if_pos ((insert_eq_ok_iff.1 hinsert).1 rfl)
  | remove index => rfl
  | move index before =>
    obtain ⟨item, -, hmoved⟩ := bind_eq_ok_iff.1 hperform
    obtain ⟨⟨returned, m⟩, hmove, -⟩ := bind_eq_ok_iff.1 hmoved
    exact if_pos ((move_eq_ok_iff hs.nodup).1 hmove).1
  | set target values => rfl

/-- What holds of the commands that a section carries out, one after the other: each is allowed by its mode, and all are recorded in
their order. -/
theorem checkAllowed_of_loads (hs : s.WellFormed order) {commands : List Command} (h : commands.foldlM load s = .ok s') :
    (∀ command ∈ commands, command.checkAllowed s.path (order.modeFor s.path) = .ok ()) ∧ s'.log = s.log ++ commands := by
  induction commands generalizing s with
  | nil =>
    cases h
    exact ⟨List.forall_mem_nil _, (List.append_nil _).symm⟩
  | cons command commands ih =>
    rw [List.foldlM_cons] at h
    obtain ⟨m, hload, hrest⟩ := bind_eq_ok_iff.1 h
    obtain ⟨hallowed, hlog⟩ := ih (wellFormed_of_load hs hload) hrest
    obtain ⟨hpath, -, hrecorded⟩ := frame_load hs.nodup hload
    rw [hpath] at hallowed
    refine ⟨List.forall_mem_cons.2 ⟨checkAllowed_of_load hs hload, hallowed⟩, ?_⟩
    rw [hlog, hrecorded, List.append_assoc, List.singleton_append]

end Section

namespace Configuration

variable {c c' : Configuration}

/-- Making a section changes none, not even the one that it makes. -/
theorem sectionAt_ensure (c : Configuration) (path other : Path) : (c.ensure path).sectionAt other = c.sectionAt other := by
  rw [ensure, sectionAt_editAt fun _ => rfl]
  split
  · rename_i hsame
    rw [hsame]
  · rfl

/-- A configuration follows a statement that is readable and whose edit can be loaded, and then holds at each path what the edit
leaves there. -/
theorem loadAll_of_follow {s : Statement} (h : c.follow s = .ok c') :
    s.Readable ∧ ∃ loaded, loadAll s.edit?.toList c = (.ok (), loaded) ∧ ∀ path, c'.sectionAt path = loaded.sectionAt path := by
  obtain ⟨line, text, at_, content⟩ := s
  cases content with
  | error fault => cases h
  | ok directive =>
    refine ⟨⟨directive, rfl⟩, ?_⟩
    cases directive with
    | comment text =>
      cases h
      exact ⟨c, rfl, fun _ => rfl⟩
    | enter =>
      cases h
      exact ⟨c, rfl, sectionAt_ensure c at_⟩
    | refresh =>
      cases h
      exact ⟨c, rfl, fun _ => rfl⟩
    | edit command =>
      simp only [follow] at h
      split at h
      · rename_i loaded hloaded
        cases h
        refine ⟨c', ?_, fun _ => rfl⟩
        simp only [Statement.edit?, Option.toList_some, loadAll, hloaded]
      · cases h

/-- A statement that is readable and whose edit can be loaded is followed. -/
theorem exists_follow {s : Statement} (hs : s.Readable) {loaded : Configuration}
    (h : loadAll s.edit?.toList c = (.ok (), loaded)) : ∃ next, c.follow s = .ok next := by
  obtain ⟨line, text, at_, content⟩ := s
  obtain ⟨directive, rfl⟩ := hs
  cases directive with
  | comment text => exact ⟨_, rfl⟩
  | enter => exact ⟨_, rfl⟩
  | refresh => exact ⟨_, rfl⟩
  | edit command =>
    simp only [Statement.edit?, Option.toList_some, loadAll] at h
    split at h
    · rename_i next hnext
      refine ⟨next, ?_⟩
      simp only [follow, hnext]
    · cases h

/-- Statements that are followed are readable, and do at each path what their edits for that path do there. -/
theorem sectionAt_of_foldlM_follow {statements : List Statement} (h : statements.foldlM follow c = .ok c') :
    (∀ s ∈ statements, s.Readable) ∧ ∀ path,
      (atPath path (Statement.edits statements)).foldlM Section.load (c.sectionAt path) = .ok (c'.sectionAt path) := by
  induction statements generalizing c with
  | nil =>
    cases h
    exact ⟨List.forall_mem_nil _, fun _ => rfl⟩
  | cons s statements ih =>
    rw [List.foldlM_cons] at h
    obtain ⟨next, hfollow, hrest⟩ := bind_eq_ok_iff.1 h
    obtain ⟨hreadable, loaded, hloaded, hsame⟩ := loadAll_of_follow hfollow
    obtain ⟨hothers, hafter⟩ := ih hrest
    refine ⟨List.forall_mem_cons.2 ⟨hreadable, hothers⟩, fun path => ?_⟩
    rw [Statement.edits_cons, atPath_append, List.foldlM_append, sectionAt_of_loadAll hloaded path, ← hsame path]
    exact hafter path

/-- Readable statements whose edits go through at each path are followed. -/
theorem exists_foldlM_follow {statements : List Statement} (hs : ∀ s ∈ statements, s.Readable)
    (h : ∀ path, ∃ s, (atPath path (Statement.edits statements)).foldlM Section.load (c.sectionAt path) = .ok s) :
    ∃ c', statements.foldlM follow c = .ok c' := by
  induction statements generalizing c with
  | nil => exact ⟨c, rfl⟩
  | cons s statements ih =>
    obtain ⟨hreadable, hothers⟩ := List.forall_mem_cons.1 hs
    simp only [Statement.edits_cons, atPath_append, List.foldlM_append, bind_eq_ok_iff] at h
    obtain ⟨loaded, hloaded⟩ := exists_loadAll fun path => ⟨_, (h path).choose_spec.choose_spec.1⟩
    obtain ⟨next, hfollow⟩ := exists_follow hreadable hloaded
    obtain ⟨-, loaded', hloaded', hsame⟩ := loadAll_of_follow hfollow
    cases hloaded.symm.trans hloaded'
    obtain ⟨c', hrest⟩ := ih (c := next) hothers fun path => by
      obtain ⟨s', m, hm, hs'⟩ := h path
      cases (sectionAt_of_loadAll hloaded path).symm.trans hm
      exact ⟨s', by rw [hsame path]; exact hs'⟩
    exact ⟨c', by rw [List.foldlM_cons, hfollow]; exact hrest⟩

end Configuration

end RouterPlan
