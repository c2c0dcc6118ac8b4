import RouterPlan.Proofs.Lemmas.MergeTree
import RouterPlan.Register

/-!
# Edits of places

A place of a register holds a section, and every edit of it is that edit of the section: it has the same result, and the links
stay (`Place.Mirrors`). The place has to be sound for that, which an edit keeps (`Place.Sound`): each setting is filed under its
own identifier, and the section is well-formed. Edits of items mirror whatever the section does with its items alone
(`mirrors_editItems`); a setting, a loaded command and a merge each have a lemma of their own.
-/

namespace RouterPlan

/-- A lookup in a map with a function applied is the function applied to what is found. -/
@[simp] theorem Assoc.get?_mapValues {κ ν μ : Type} [Ord κ] (f : ν → μ) (m : Assoc κ ν) (key : κ) :
    (m.mapValues f).get? key = (m.get? key).map f := by
  simp [get?, mapValues, List.find?_map, Function.comp_def]

/-- A function is applied to a value that is put in like to the others. -/
theorem Assoc.mapValues_insert {κ ν μ : Type} [Ord κ] [Std.TransOrd κ] [Std.LawfulEqOrd κ] [DecidableEq κ] (f : ν → μ)
    (m : Assoc κ ν) (key : κ) (value : ν) : (m.insert key value).mapValues f = (m.mapValues f).insert key (f value) := by
  refine ext_get? fun key' => ?_
  rw [get?_mapValues, get?_insert_eq, get?_insert_eq, get?_mapValues]
  split <;> rfl

namespace Section

variable {s s' : Section} {commands : List Command}

theorem sameButItems_of_deleteAll {items : List Item} (h : s.deleteAll items = .ok (commands, s')) : s.SameButItems s' := by
  induction items generalizing s commands with
  | nil =>
    cases h
    rfl
  | cons item items ih =>
    obtain ⟨⟨command, m⟩, hdelete, h⟩ := bind_eq_ok_iff.1 h
    obtain ⟨⟨others, m'⟩, hrest, hafter⟩ := bind_eq_ok_iff.1 h
    cases hafter
    exact (sameButItems_of_delete hdelete).trans (ih hrest)

theorem sameButItems_of_insertMissing {position : Nat} {items : List Item}
    (h : s.insertMissing position items = .ok (commands, s')) : s.SameButItems s' := by
  induction items generalizing position s commands with
  | nil =>
    cases h
    rfl
  | cons item items ih =>
    rw [insertMissing] at h
    split at h
    · exact ih h
    · obtain ⟨⟨command, m⟩, hinsert, h⟩ := bind_eq_ok_iff.1 h
      obtain ⟨⟨others, m'⟩, hrest, hafter⟩ := bind_eq_ok_iff.1 h
      cases hafter
      exact (sameButItems_of_insert hinsert).trans (ih hrest)

theorem sameButItems_of_reorder {position : Nat} {items : List Item} (h : s.reorder position items = .ok (commands, s')) :
    s.SameButItems s' := by
  induction items generalizing position s commands with
  | nil =>
    cases h
    rfl
  | cons item items ih =>
    rw [reorder] at h
    split at h
    · exact ih h
    · obtain ⟨⟨command, m⟩, hmove, h⟩ := bind_eq_ok_iff.1 h
      obtain ⟨⟨others, m'⟩, hrest, hafter⟩ := bind_eq_ok_iff.1 h
      cases hafter
      exact (sameButItems_of_move hmove).trans (ih hrest)

theorem sameButItems_of_reorderAll {items : List Item} (h : s.reorderAll items = .ok (commands, s')) :
    s.SameButItems s' := by
  rw [reorderAll] at h
  split at h
  · exact sameButItems_of_reorder h
  · cases h

end Section

namespace Place

variable {α β : Type} {order : OrderTable} {p p' : Place}

/-- What holds of every place of a register: its section is well-formed, and settings are filed under their own identifiers. -/
structure Sound (order : OrderTable) (p : Place) : Prop where
  wellFormed : p.held.WellFormed order
  filed : ∀ target setting, p.settings.get? target = some setting → setting.identifier = target

/-- What was at a place holds a section now, and the links are as they were. -/
structure Becomes (p : Place) (s : Section) (p' : Place) : Prop where
  held : p'.held = s
  parent : p'.parent = p.parent
  children : p'.children = p.children
  filed : (∀ target setting, p.settings.get? target = some setting → setting.identifier = target) →
    ∀ target setting, p'.settings.get? target = some setting → setting.identifier = target

/-- An edit of places does on sound ones what an edit of sections does. -/
def Mirrors (order : OrderTable) (f : Place → β × Place) (g : Section → β × Section) : Prop :=
  ∀ p, p.Sound order → (f p).1 = (g p.held).1 ∧ p.Becomes (g p.held).2 (f p).2

theorem Becomes.refl (p : Place) : p.Becomes p.held p :=
  ⟨rfl, rfl, rfl, id⟩

theorem Becomes.trans {p'' : Place} {s s' : Section} (h : p.Becomes s p') (h' : p'.Becomes s' p'') : p.Becomes s' p'' :=
  ⟨h'.held, h'.parent.trans h.parent, h'.children.trans h.children, h'.filed ∘ h.filed⟩

/-- A place stays sound when it becomes a well-formed section. -/
theorem Becomes.sound {s : Section} (h : p.Becomes s p') (hp : p.Sound order) (hs : s.WellFormed order) : p'.Sound order :=
  ⟨h.held ▸ hs, h.filed hp.filed⟩

/-- The path of a place is that of its section. -/
theorem Becomes.path {s : Section} (h : p.Becomes s p') (hpath : s.path = p.path) : p'.path = p.path :=
  (congrArg Section.path h.held).trans hpath

theorem sound_fresh (order : OrderTable) (path : Path) (parent : Option Nat) : (fresh order path parent).Sound order :=
  ⟨Section.wellFormed_fresh order path, fun _ _ h => (nomatch h)⟩

/-- Items that a section gets go to its place. -/
theorem becomes_withItems {s : Section} (h : p.held.SameButItems s) : p.Becomes s { p with items := s.items } :=
  ⟨h.symm, rfl, rfl, id⟩

/-- An edit of items that a section accepts is accepted at its place. -/
theorem exists_editItems (edit : Section → Except IntegrityError (α × Section)) {result : α} {s : Section}
    (h : edit p.held = .ok (result, s)) (hsame : p.held.SameButItems s) :
    ∃ p', p.editItems edit = .ok (result, p') ∧ p.Becomes s p' := by
  refine ⟨{ p with items := s.items }, ?_, becomes_withItems hsame⟩
  rw [editItems, h]
  rfl

/-- An edit of items is refused at a place when the section refuses it. -/
theorem editItems_eq_error {edit : Section → Except IntegrityError (α × Section)} {cause : IntegrityError}
    (h : edit p.held = .error cause) : p.editItems edit = .error cause := by
  rw [editItems, h]
  rfl

/-- An edit at a place that may be refused mirrors one of sections, if it is accepted with the same result and refused for the
same cause. -/
theorem mirrors_attempt {f : Place → Except IntegrityError (α × Place)} {g : Section → Except IntegrityError (α × Section)}
    (hok : ∀ p, p.Sound order → ∀ result s, g p.held = .ok (result, s) → ∃ p', f p = .ok (result, p') ∧ p.Becomes s p')
    (herror : ∀ p, p.Sound order → ∀ cause, g p.held = .error cause → f p = .error cause) :
    Mirrors order (attempt f) (Section.attempt g) := by
  intro p hp
  rw [attempt, Section.attempt]
  cases hg : g p.held with
  | ok x =>
    obtain ⟨p', hf, hbecomes⟩ := hok p hp x.1 x.2 hg
    rw [hf]
    exact ⟨rfl, hbecomes⟩
  | error cause =>
    rw [herror p hp cause hg]
    exact ⟨rfl, .refl p⟩

/-- An edit of items at a place is the edit of the items of its section. -/
theorem mirrors_editItems {edit : Section → Except IntegrityError (α × Section)}
    (hsame : ∀ s result s', edit s = .ok (result, s') → s.SameButItems s') :
    Mirrors order (attempt (editItems edit)) (Section.attempt edit) :=
  mirrors_attempt (fun _ _ _ _ h => exists_editItems edit h (hsame _ _ _ h)) fun _ _ _ h => editItems_eq_error h

theorem mirrors_insert (item : Item) (destination : Option Nat) :
    Mirrors order (attempt (editItems fun s => s.insert item destination))
      (Section.attempt fun s => s.insert item destination) :=
  mirrors_editItems fun _ _ _ => Section.sameButItems_of_insert

theorem mirrors_delete (item : Item) :
    Mirrors order (attempt (editItems fun s => s.delete item)) (Section.attempt fun s => s.delete item) :=
  mirrors_editItems fun _ _ _ => Section.sameButItems_of_delete

theorem mirrors_move (item : Item) (destination : Option Nat) :
    Mirrors order (attempt (editItems fun s => s.move item destination))
      (Section.attempt fun s => s.move item destination) :=
  mirrors_editItems fun _ _ _ => Section.sameButItems_of_move

/-! ## Settings -/

/-- The setting that an identifier has, or an empty one of its own. -/
theorem identifier_current (hp : ∀ target setting, p.settings.get? target = some setting → setting.identifier = target)
    (target : Identifier) : ((p.settings.get? target).getD ⟨target, ∅⟩).identifier = target := by
  cases h : p.settings.get? target with
  | none => rfl
  | some setting => exact hp target setting h

/-- A setting put in under its own identifier is filed there. -/
theorem filed_insert {settings : Assoc Identifier Setting}
    (h : ∀ target setting, settings.get? target = some setting → setting.identifier = target) (setting : Setting)
    (target : Identifier) (hown : setting.identifier = target) :
    ∀ id other, (settings.insert target setting).get? id = some other → other.identifier = id := by
  intro id other hother
  rw [Assoc.get?_insert_eq] at hother
  split at hother
  · rename_i hid
    cases hother
    rw [hown, hid]
  · exact h id other hother

/-- Values put into a setting of a place are put into that setting of its section. -/
theorem mirrors_set (target : Identifier) (values : Values) :
    Mirrors order (set ⟨target, values⟩) fun s => s.set target values := by
  intro p hp
  have hvalues : ((p.settings.get? target).getD ⟨target, ∅⟩).values = (p.held.settings.get? target).getD ∅ := by
    rw [held, Assoc.get?_mapValues]
    cases p.settings.get? target <;> rfl
  simp only [set, Section.set, hvalues]
  generalize values.filter _ = changed
  cases hempty : changed.isEmpty with
  | false =>
    refine ⟨rfl, ?_, rfl, rfl, fun hfiled => filed_insert hfiled _ _ (identifier_current hfiled target)⟩
    simp only [Bool.false_eq_true, if_false, held, Assoc.mapValues_insert]
  | true =>
    have hnil : changed.entries = [] := List.isEmpty_iff.1 hempty
    simp only [if_true, hnil]
    cases hcurrent : p.settings.get? target with
    | none =>
      -- The setting that was made for the values has none, and goes again.
      have hsame := Assoc.erase_insert hcurrent (Setting.mk target ∅)
      have hnone : (p.held.settings.get? target).getD ∅ = ∅ := by
        rw [← hvalues, hcurrent, Option.getD_none]
      have hempty : (∅ : Values).isEmpty = true := rfl
      have hmany : (∅ : Values).insertMany [] = ∅ := rfl
      simp only [hnone, hempty, hmany, if_true, Option.getD_none, hsame]
      exact ⟨trivial, .refl p⟩
    | some setting =>
      -- A setting that is there has values, and keeps them.
      have hsettled : setting.values.isEmpty = false :=
        hp.wellFormed.settled target setting.values (by rw [held, Assoc.get?_mapValues, hcurrent]; rfl)
      have hsame := Assoc.insert_of_get? hcurrent
      have hsome : (p.held.settings.get? target).getD ∅ = setting.values := by
        rw [← hvalues, hcurrent, Option.getD_some]
      have hmany : setting.values.insertMany [] = setting.values := rfl
      simp only [hsome, hsettled, hmany, Bool.false_eq_true, if_false, Option.getD_some, hsame]
      exact ⟨trivial, .refl p⟩

/-! ## Commands and merges -/

/-- A command about items is carried out by the section. -/
theorem perform_eq {command : Command} (h : ∀ target values, command ≠ .set target values) :
    p.perform command = (p.held.perform command).map fun s => { p with items := s.items } := by
  cases command with
  | set target values => exact absurd rfl (h target values)
  | _ =>
    rw [perform, editItems]
    · cases p.held.perform _ <;> rfl
    · exact h

/-- A command that a section carries out is carried out at its place. -/
theorem exists_perform (hp : p.Sound order) {command : Command} {s : Section} (h : p.held.perform command = .ok s) :
    ∃ p', p.perform command = .ok p' ∧ p.Becomes s p' := by
  by_cases hset : ∃ target values, command = .set target values
  · obtain ⟨target, values, rfl⟩ := hset
    cases h
    exact ⟨_, rfl, (mirrors_set target values p hp).2⟩
  · have hitems : ∀ target values, command ≠ .set target values := fun target values heq => hset ⟨target, values, heq⟩
    refine ⟨{ p with items := s.items }, ?_, becomes_withItems (Section.sameButItems_of_perform hitems h)⟩
    rw [perform_eq hitems, h]
    rfl

/-- A command that a section refuses is refused at its place. -/
theorem perform_eq_error {command : Command} {cause : IntegrityError} (h : p.held.perform command = .error cause) :
    p.perform command = .error cause := by
  have hitems : ∀ target values, command ≠ .set target values := by
    rintro target values rfl
    cases h
  rw [perform_eq hitems, h]
  rfl

/-- Loading a command at a place is loading it in its section. -/
theorem mirrors_load (command : Command) :
    Mirrors order (attempt (load command)) (Section.attempt fun s => do return ((), ← s.load command)) := by
  refine mirrors_attempt (fun p hp result s h => ?_) fun p _ cause h => ?_
  · obtain ⟨s', hload, hafter⟩ := bind_eq_ok_iff.1 h
    cases hafter
    obtain ⟨m, hperform, hafter⟩ := bind_eq_ok_iff.1 hload
    cases hafter
    obtain ⟨p', hp', hbecomes⟩ := exists_perform hp hperform
    refine ⟨{ p' with log := p'.log ++ [command] }, ?_, ?_, hbecomes.parent, hbecomes.children, hbecomes.filed⟩
    · rw [load, hp']
      rfl
    · rw [← hbecomes.held]
      rfl
  · rw [Section.load] at h
    cases hperform : p.held.perform command with
    | ok m =>
      rw [hperform] at h
      cases h
    | error cause' =>
      rw [hperform] at h
      cases h
      rw [load, perform_eq_error hperform]
      rfl

/-- Settings put in at a place are put into its section. -/
theorem becomes_putSettings (settings : List (Identifier × Values)) (p : Place) (hp : p.Sound order) :
    (p.putSettings (settings.map fun (identifier, values) => ⟨identifier, values⟩)).1 = (p.held.putSettings settings).1 ∧
      p.Becomes (p.held.putSettings settings).2
        (p.putSettings (settings.map fun (identifier, values) => ⟨identifier, values⟩)).2 := by
  induction settings generalizing p with
  | nil => exact ⟨rfl, .refl p⟩
  | cons e settings ih =>
    obtain ⟨target, values⟩ := e
    obtain ⟨hcommand, hbecomes⟩ := mirrors_set target values p hp
    obtain ⟨hcommands, hrest⟩ := ih _ (hbecomes.sound hp (hp.wellFormed.set target values))
    rw [hbecomes.held] at hcommands hrest
    refine ⟨?_, hbecomes.trans hrest⟩
    simp only [List.map_cons, putSettings, Section.putSettings]
    rw [hcommand, hcommands]

/-- A merge of a place does what the merge of its section does. -/
theorem exists_mergeWith (hp : p.Sound order) {target s : Section} {commands : List Command}
    (h : p.held.mergeWith target = .ok (commands, s)) :
    ∃ p', p.mergeWith target = .ok (commands, p') ∧ p.Becomes s p' := by
  obtain ⟨hset, hp₁⟩ := becomes_putSettings target.settings.entries p hp
  cases hput : p.putSettings (target.settings.entries.map fun (identifier, values) => ⟨identifier, values⟩) with
  | mk set p₁ =>
  rw [hput] at hset hp₁
  have hsection : p.held.putSettings target.settings.entries = (set, p₁.held) := Prod.ext hset.symm hp₁.held.symm
  rw [Section.mergeWith, hsection] at h
  obtain ⟨⟨removed, s₂⟩, hremoved, h⟩ := bind_eq_ok_iff.1 h
  obtain ⟨p₂, hp₂, hbecomes₂⟩ := exists_editItems _ hremoved (Section.sameButItems_of_deleteAll hremoved)
  obtain ⟨⟨added, s₃⟩, hadded, h⟩ := bind_eq_ok_iff.1 h
  rw [← hbecomes₂.held] at hadded
  obtain ⟨p₃, hp₃, hbecomes₃⟩ := exists_editItems _ hadded (Section.sameButItems_of_insertMissing hadded)
  have hmode : s₃.mode = p₃.mode := congrArg Section.mode hbecomes₃.held.symm
  have hbecomes := (hp₁.trans hbecomes₂).trans hbecomes₃
  simp only [hmode] at h
  simp only [mergeWith, hput]
  split at h
  · rename_i hordered
    obtain ⟨⟨moved, s₄⟩, hmoved, hafter⟩ := bind_eq_ok_iff.1 h
    cases hafter
    rw [← hbecomes₃.held] at hmoved
    obtain ⟨p₄, hp₄, hbecomes₄⟩ := exists_editItems (·.reorderAll target.items) hmoved
      (Section.sameButItems_of_reorderAll hmoved)
    refine ⟨p₄, ?_, hbecomes.trans hbecomes₄⟩
    refine bind_eq_ok_iff.2 ⟨_, hp₂, bind_eq_ok_iff.2 ⟨_, hp₃, ?_⟩⟩
    simp only [hordered, if_true]
    exact bind_eq_ok_iff.2 ⟨_, hp₄, rfl⟩
  · rename_i hunordered
    cases h
    refine ⟨p₃, ?_, hbecomes⟩
    refine bind_eq_ok_iff.2 ⟨_, hp₂, bind_eq_ok_iff.2 ⟨_, hp₃, ?_⟩⟩
    simp only [hunordered]
    rfl

end Place

end RouterPlan
