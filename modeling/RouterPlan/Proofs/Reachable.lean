import RouterPlan.Proofs.Lemmas.MergeTree
import RouterPlan.Reading

/-!
# Reachable configurations

A configuration is reachable when the operations of this library lead to it: reading a text, making sections, edits in a
section, loading commands, merges and scripts, in any order and whether an edit is accepted or refused. Main statement: every
reachable configuration is well-formed (`Reachable.wellFormed`), so no section holds an item twice, none holds an empty
setting, every mode is that of the order table, and every section lies at its path.
-/

namespace RouterPlan.Configuration

/-- The configurations that the operations lead to. An edit that is refused leaves the section that it made. -/
inductive Reachable : Configuration → Prop where
  | empty (order : OrderTable) : Reachable (empty order)
  | read {order : OrderTable} {text : String} {c : Configuration} (h : read order text = .ok c) : Reachable c
  | setVersion {c : Configuration} (version : Option String) (h : Reachable c) : Reachable { c with version }
  | ensure {c : Configuration} (path : Path) (h : Reachable c) : Reachable (c.ensure path)
  | insert {c : Configuration} (path : Path) (item : Item) (destination : Option Nat) (h : Reachable c) :
      Reachable (c.editAt path (Section.attempt fun s => s.insert item destination)).2
  | delete {c : Configuration} (path : Path) (item : Item) (h : Reachable c) :
      Reachable (c.editAt path (Section.attempt fun s => s.delete item)).2
  | move {c : Configuration} (path : Path) (item : Item) (destination : Option Nat) (h : Reachable c) :
      Reachable (c.editAt path (Section.attempt fun s => s.move item destination)).2
  | set {c : Configuration} (path : Path) (target : Identifier) (values : Values) (h : Reachable c) :
      Reachable (c.editAt path fun s => s.set target values).2
  | load {c : Configuration} (path : Path) (command : Command) (h : Reachable c) : Reachable (c.load path command).2
  | merge {base target c : Configuration} {script : Script} (hb : Reachable base) (ht : Reachable target)
      (h : base.merge target = .ok (script, c)) : Reachable c
  | replay {c : Configuration} (script : Script) (h : Reachable c) : Reachable (c.replay script).2
  | apply {c c' : Configuration} {script : Script} (h : Reachable c) (hok : c.apply script = .ok c') : Reachable c'

/-- Making a section changes none that is there. -/
theorem WellFormed.ensure {c : Configuration} (h : c.WellFormed) (path : Path) : (c.ensure path).WellFormed :=
  h.editAt path ⟨fun _ => rfl, fun _ hs => hs⟩

/-- What is kept by a version, by making a section and by every command is kept by a statement that is followed. -/
theorem follow_keeps {P : Configuration → Prop} (hversion : ∀ c version, P c → P { c with version })
    (hensure : ∀ c path, P c → P (c.ensure path)) (hload : ∀ c path command, P c → P (c.load path command).2)
    {c c' : Configuration} (hc : P c) {s : Statement} (hok : c.follow s = .ok c') : P c' := by
  unfold Configuration.follow at hok
  split at hok
  · cases hok
  · cases hok
    exact hversion c _ hc
  · cases hok
    exact hensure c s.path hc
  · cases hok
    exact hc
  · rename_i command _
    have hnext := hload c s.path command hc
    split at hok
    · rename_i next h
      cases hok
      rwa [h] at hnext
    · cases hok

/-- A statement that is followed keeps a configuration well-formed. -/
theorem WellFormed.follow {c c' : Configuration} (h : c.WellFormed) {s : Statement} (hok : c.follow s = .ok c') :
    c'.WellFormed :=
  follow_keeps (fun _ version hc => hc.withVersion version) (fun _ path hc => hc.ensure path)
    (fun _ path command hc => hc.load path command) h hok

/-- A text describes a well-formed configuration, or none. -/
theorem wellFormed_of_read {order : OrderTable} {text : String} {c : Configuration}
    (h : Configuration.read order text = .ok c) : c.WellFormed :=
  foldlM_keeps (fun _ _ _ hc hok => hc.follow hok) (wellFormed_empty order) h

/-- A statement that is followed changes no mode of further sections. -/
theorem order_of_follow {c c' : Configuration} {s : Statement} (hok : c.follow s = .ok c') : c'.order = c.order :=
  follow_keeps (P := fun next => next.order = c.order) (fun _ _ hc => hc) (fun _ _ hc => hc) (fun _ _ _ hc => hc) rfl hok

/-- A configuration that was read has the order table that it was read with. -/
theorem order_of_read {order : OrderTable} {text : String} {c : Configuration}
    (h : Configuration.read order text = .ok c) : c.order = order :=
  foldlM_keeps (P := fun c => c.order = order) (fun _ _ _ hc hok => (order_of_follow hok).trans hc) rfl h

/-- Every reachable configuration is well-formed. -/
theorem Reachable.wellFormed {c : Configuration} (h : c.Reachable) : c.WellFormed := by
  induction h with
  | empty order => exact wellFormed_empty order
  | read h => exact wellFormed_of_read h
  | setVersion version _ ih => exact ih.withVersion version
  | ensure path _ ih => exact ih.ensure path
  | insert path item destination _ ih => exact ih.editAt path (Section.keeps_insert item destination)
  | delete path item _ ih => exact ih.editAt path (Section.keeps_delete item)
  | move path item destination _ ih => exact ih.editAt path (Section.keeps_move item destination)
  | set path target values _ ih => exact ih.editAt path (Section.keeps_set target values)
  | load path command _ ih => exact ih.load path command
  | merge _ _ h ihb iht =>
    obtain ⟨script, merged, hmerge, hwf, -⟩ := exists_merge ihb iht
    cases hmerge.symm.trans h
    exact hwf
  | replay script _ ih => exact ih.loadAll script.edits
  | @apply c c' script _ hok ih =>
    have hreplay := ih.loadAll script.edits
    unfold Configuration.apply Configuration.replay at hok
    split at hok
    · rename_i c₁ hc
      cases hok
      rwa [hc] at hreplay
    · cases hok

/-! ## Sample configurations -/

/-- The path of the packet filter, whose items are ordered without a profile. -/
def filterPath : Path :=
  ⟨["ip", "firewall", "filter"]⟩

/-- A rule that has nothing but a comment. -/
def rule (comment : String) : Item :=
  .ofList [("comment", comment)]

/-- The configuration with one rule for each comment at a path. -/
def withRules (order : OrderTable) (path : Path) (comments : List String) : Configuration :=
  comments.foldl (fun c comment => (c.editAt path (Section.attempt fun s => s.insert (rule comment) none)).2) (empty order)

/-- A configuration made of rules is reachable. -/
theorem reachable_withRules (order : OrderTable) (path : Path) (comments : List String) :
    (withRules order path comments).Reachable := by
  unfold withRules
  have hempty := Reachable.empty order
  generalize Configuration.empty order = start at hempty
  induction comments generalizing start with
  | nil => exact hempty
  | cons comment comments ih => exact ih _ (.insert path (rule comment) none hempty)

/-- A configuration made of rules has the order table that it was made under. -/
theorem order_withRules (order : OrderTable) (path : Path) (comments : List String) :
    (withRules order path comments).order = order := by
  have hfold : ∀ (comments : List String) (c : Configuration), (comments.foldl (fun c comment =>
      (c.editAt path (Section.attempt fun s => s.insert (rule comment) none)).2) c).order = c.order := by
    intro comments
    induction comments with
    | nil => exact fun c => rfl
    | cons comment comments ih => exact fun c => ih _
  exact hfold comments (empty order)

end RouterPlan.Configuration
