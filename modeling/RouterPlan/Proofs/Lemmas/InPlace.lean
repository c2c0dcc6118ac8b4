import RouterPlan.InPlace
import RouterPlan.Proofs.Reachable

/-!
# In-place edits change all or nothing

Each in-place edit is the edit of the section that gives all of its changes at once and changes nothing when it is refused
(`Section.attempt`), although it is written step by step. For settings the section has to be well-formed: a setting without values
would be taken out. Main statement: carrying out a script in place is replaying it (`WellFormed.run_eq`).
-/

namespace RouterPlan

namespace Work

variable {α β : Type} {order : OrderTable} {s : Section}

/-- A program goes on where the one before it has come to, unless that was refused. -/
theorem on_bind (work : Work α) (next : α → Work β) (s : Section) :
    (work >>= next).on s =
      match work.on s with
      | (.ok a, s') => (next a).on s'
      | (.error cause, s') => (.error cause, s') := by
  have hrest : (work >>= next).on s = Id.run ((ExceptT.bindCont next (work.on s).1).run (work.on s).2) := rfl
  rw [hrest]
  rcases work.on s with ⟨cause | a, s'⟩
  · rfl
  · rfl

/-- Reading the section changes nothing. -/
theorem on_get_bind (next : Section → Work β) (s : Section) : (get >>= next).on s = (next s).on s :=
  rfl

/-- A change is there for what comes after it. -/
theorem on_modify_bind (change : Section → Section) (next : Unit → Work β) (s : Section) :
    (modify change >>= next).on s = (next ()).on (change s) :=
  rfl

/-- Looking something up changes nothing. -/
theorem on_ask_bind (check : Section → Except IntegrityError α) (next : α → Work β) (s : Section) :
    (ask check >>= next).on s =
      match check s with
      | .ok a => (next a).on s
      | .error cause => (.error cause, s) := by
  rw [on_bind, ask, on_get_bind]
  cases check s <;> rfl

/-- What a program gives may be left unused. -/
theorem on_discard (work : Work α) (s : Section) : (discard work).on s = ((work.on s).1.map fun _ => (), (work.on s).2) := by
  change (work >>= fun _ => pure ()).on s = _
  rw [on_bind]
  rcases work.on s with ⟨_ | _, s'⟩ <;> rfl

/-! ## Edits of a section -/

/-- An item is put in or refused as by the section. -/
theorem on_insert (item : Item) (destination : Option Nat) (s : Section) :
    (insert item destination).on s = Section.attempt (·.insert item destination) s := by
  rw [insert, Section.attempt, Section.insert, on_get_bind]
  cases destination.isSome && !s.mode.allowsPlacement with
  | true => rfl
  | false =>
    simp only [Bool.false_eq_true, if_false, on_ask_bind]
    cases s.settleDestination (s.items.length - 1) destination with
    | error cause => rfl
    | ok before =>
      -- an item that is there is the last reason to refuse
      cases s.items.contains item <;> rfl

/-- An item is taken out or refused as by the section. -/
theorem on_delete (item : Item) (s : Section) : (delete item).on s = Section.attempt (·.delete item) s := by
  rw [delete, Section.attempt, Section.delete, on_ask_bind]
  cases s.requirePosition item <;> rfl

/-- An item is moved or refused as by the section: that it was taken out in between does not show. -/
theorem on_move (item : Item) (destination : Option Nat) (s : Section) :
    (move item destination).on s = Section.attempt (·.move item destination) s := by
  rw [move, Section.attempt, Section.move, on_get_bind]
  cases s.mode.isOrdered with
  | false => rfl
  | true =>
    simp only [Bool.not_true, Bool.false_eq_true, if_false, on_ask_bind]
    cases s.settleDestination s.items.length destination with
    | error cause => rfl
    | ok before => cases s.requirePosition item <;> rfl

/-- A setting becomes what the section makes of it: one that was made without need is taken out again. A setting that is there has
values, or it would be taken out too. -/
theorem on_set (hs : s.WellFormed order) (target : Identifier) (values : Values) :
    (set target values).on s = (.ok (s.set target values).1, (s.set target values).2) := by
  rw [set, on_get_bind]
  simp only [on_modify_bind, Section.set, Assoc.insert_insert]
  generalize values.filter _ = changed
  cases hchanged : changed.isEmpty with
  | false => rfl
  | true =>
    have hnil : changed.entries = [] := List.isEmpty_iff.1 hchanged
    have hmany : ∀ current : Values, current.insertMany changed.entries = current := fun current => by rw [hnil]; rfl
    simp only [hmany, if_true]
    cases hcurrent : s.settings.get? target with
    | none =>
      -- the setting was made for these values, and has none
      change (Except.ok none, { s with settings := (s.settings.insert target ∅).erase target }) = (Except.ok none, s)
      rw [Assoc.erase_insert hcurrent]
    | some current =>
      have hsame := Assoc.insert_of_get? hcurrent
      have hvalues := hs.settled target current hcurrent
      simp only [Option.getD_some, hvalues, hsame]
      rfl

/-- What is carried out changes the section as it says, and what is refused leaves it alone. -/
theorem on_perform (hs : s.WellFormed order) (command : Command) :
    (perform command).on s = Section.attempt (fun s => do return ((), ← s.perform command)) s := by
  cases command with
  | add values before =>
    rw [perform, on_discard, on_insert, Section.attempt, Section.attempt, Section.perform]
    cases s.insert values before <;> rfl
  | remove index =>
    rw [perform, on_ask_bind, Section.attempt]
    cases hitem : s.itemAt index with
    | error cause =>
      rw [Section.perform, hitem]
      rfl
    | ok item =>
      have hperform : s.perform (.remove index) = (do return (← s.delete item).2) := by rw [Section.perform, hitem]; rfl
      simp only [on_discard, on_delete, hperform, Section.attempt]
      cases s.delete item <;> rfl
  | move index before =>
    rw [perform, on_ask_bind, Section.attempt]
    cases hitem : s.itemAt index with
    | error cause =>
      rw [Section.perform, hitem]
      rfl
    | ok item =>
      have hperform : s.perform (.move index before) = (do return (← s.move item before).2) := by
        rw [Section.perform, hitem]
        rfl
      simp only [on_discard, on_move, hperform, Section.attempt]
      cases s.move item before <;> rfl
  | set target values =>
    rw [perform, on_discard, on_set hs]
    rfl

/-- A command is loaded in place as by the section: it is carried out and recorded, or nothing is done. -/
theorem on_load (hs : s.WellFormed order) (command : Command) :
    (load command).on s = Section.attempt (fun s => do return ((), ← s.load command)) s := by
  rw [load, on_bind, on_perform hs, Section.attempt, Section.attempt]
  simp only [Section.load]
  cases s.perform command <;> rfl

end Work

/-! ## Scripts -/

/-- An edit at a path counts by what it does to the entry there. -/
theorem Outline.editAt_congr {α β : Type} {growth : Growth α} {edit edit' : α → β × α} {names : List String}
    {outline : Outline α} (h : edit (outline.entryAt growth names) = edit' (outline.entryAt growth names)) :
    editAt growth edit names outline = editAt growth edit' names outline := by
  induction names generalizing outline with
  | nil =>
    rw [editAt, editAt]
    exact congrArg _ h
  | cons name names ih => rw [editAt_cons, editAt_cons, ih h]

namespace Configuration

variable {c : Configuration}

/-- A command is loaded in place at a path as it is loaded there. -/
theorem WellFormed.editAt_load (h : c.WellFormed) (path : Path) (command : Command) :
    c.editAt path (Work.load command).on = c.load path command := by
  have hedit := Outline.editAt_congr (Work.on_load (h.sectionAt path) command)
  rw [Configuration.load, Configuration.editAt, Configuration.editAt, hedit]

/-- Loading commands one by one in place is loading them at their path. -/
theorem WellFormed.runEach_eq (h : c.WellFormed) (path : Path) (commands : List Command) :
    runEach path commands c = Configuration.loadAll (commands.map (path, ·)) c := by
  induction commands generalizing c with
  | nil => rfl
  | cons command commands ih =>
    rw [runEach, List.map_cons, Configuration.loadAll, h.editAt_load]
    have hload := h.load path command
    revert hload
    rcases c.load path command with ⟨_ | _, c'⟩
    · exact fun _ => rfl
    · exact ih

/-- Carrying out a script in place is replaying it. -/
theorem WellFormed.run_eq (h : c.WellFormed) (script : Script) : c.run script = c.replay script := by
  rw [run, replay, Script.edits]
  generalize script.batches = batches
  induction batches generalizing c with
  | nil => rfl
  | cons batch batches ih =>
    rw [runBatches, List.flatMap_cons, loadAll_append]
    cases hempty : batch.commands.isEmpty with
    | true =>
      rw [List.isEmpty_iff.1 hempty]
      exact ih h
    | false =>
      have hcommands : batch.commands ≠ [] := fun hnil => by simp [hnil] at hempty
      have hload := h.loadAll (batch.commands.map (batch.path, ·))
      rw [if_neg Bool.false_ne_true, WellFormed.runEach_eq (h.ensure batch.path), loadAll_ensure hcommands]
      revert hload
      rcases Configuration.loadAll (batch.commands.map (batch.path, ·)) c with ⟨_ | _, c'⟩
      · exact fun _ => rfl
      · exact ih

end Configuration

end RouterPlan
