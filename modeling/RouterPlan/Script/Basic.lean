import RouterPlan.Outline
import RouterPlan.Command.Basic

/-!
# Edit scripts

A script groups commands by the section they edit, in an outline that is carried out in document order.
-/

namespace RouterPlan

/-- The commands for one section. -/
structure Batch where
  path : Path
  mode : OrderMode
  commands : List Command := []
deriving DecidableEq

/-- Batches are named by the end of their path, and a new one takes its mode from the table. -/
def Batch.growth (order : OrderTable) : Growth Batch where
  name? batch := batch.path.name?
  child parent name := { path := parent.path.child name, mode := order.modeFor (parent.path.child name) }

/-- What a batch without commands adds nothing to is made of the batches that hold a command. -/
theorem Batch.flatMap_filter {β : Type} {f : Batch → List β} (hf : ∀ batch, batch.commands = [] → f batch = [])
    (batches : List Batch) : (batches.filter (!·.commands.isEmpty)).flatMap f = batches.flatMap f := by
  induction batches with
  | nil => rfl
  | cons batch batches ih =>
    by_cases hnone : batch.commands = []
    · rw [List.filter_cons_of_neg (by simp [hnone]), ih, List.flatMap_cons, hf batch hnone, List.nil_append]
    · rw [List.filter_cons_of_pos (by simp [hnone]), List.flatMap_cons, ih, List.flatMap_cons]

/-- Commands grouped by section, in the order in which they are carried out. -/
structure Script where
  outline : Outline Batch
deriving DecidableEq

namespace Script

/-- The script without commands. -/
def empty : Script :=
  ⟨⟨{ path := .root, mode := .unordered }, .nil⟩⟩

/-- The batches in the order in which they are carried out, each before its children. -/
def batches (script : Script) : List Batch :=
  script.outline.entries

/-- The batches that hold a command. -/
def workingBatches (script : Script) : List Batch :=
  script.batches.filter (!·.commands.isEmpty)

/-- The commands with their paths, in the order in which they are carried out. -/
def edits (script : Script) : List (Path × Command) :=
  script.batches.flatMap fun batch => batch.commands.map (batch.path, ·)

/-- How many commands the script has. -/
def size (script : Script) : Nat :=
  script.edits.length

/-- Whether the script has no commands. -/
def isEmpty (script : Script) : Bool :=
  script.edits.isEmpty

/-- The first part of the outline whose batch has a path. -/
def outlineAt? (script : Script) (path : Path) : Option (Outline Batch) :=
  script.outline.subOutlines.find? (·.root.path == path)

/-- The script with one more command for the section at a path. -/
def push (script : Script) (order : OrderTable) (path : Path) (command : Command) : Script :=
  let add (batch : Batch) : Unit × Batch := ((), { batch with commands := batch.commands ++ [command] })
  ⟨(script.outline.editAt (Batch.growth order) add path.segments).2⟩

end Script

end RouterPlan
