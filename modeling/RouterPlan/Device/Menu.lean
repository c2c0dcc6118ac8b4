import RouterPlan.Script.Render

/-!
# Menus and their numbers

What a device makes of the lines for one section. It keeps the items, and the numbers that the last `print` gave them; a number
in a command means the item that it was given to, wherever that stands by now, and the command is rejected if there is none or if
it was taken out since (`Menu.obey`). `Script.menuSteps` is a script as such lines, before they are written out
(`Script.wireLines_eq`).
-/

namespace RouterPlan

/-- One line for the menu of a section. -/
inductive MenuStep where
  /-- Number the items anew. -/
  | print
  | edit (command : Command)
deriving DecidableEq

/-- The line as it is sent. -/
def MenuStep.line (path : Path) : MenuStep → String
  | print => path.withCommand refreshWord
  | edit command => path.withCommand command.text

/-- The items of a menu, and the items by their numbers; the number of an item that was taken out means nothing. -/
structure Menu where
  items : List Item
  numbering : List (Option Item)
deriving DecidableEq

namespace Menu

/-- The menu whose items have just been numbered. -/
def ofItems (items : List Item) : Menu :=
  ⟨items, items.map some⟩

/-- The item that a number means. -/
def named? (menu : Menu) (number : Nat) : Option Item :=
  (menu.numbering[number]?).join

/-- The items with one more, before another. -/
def insertBefore (items : List Item) (item other : Item) : List Item :=
  items.insertIdx (items.idxOf other) item

/-- The menu after a line, if the device does not reject it. Settings leave the items alone. -/
def obey (menu : Menu) : MenuStep → Option Menu
  | .print => some (ofItems menu.items)
  | .edit (.add item none) => some { menu with items := menu.items ++ [item] }
  | .edit (.add item (some before)) => do
    let other ← menu.named? before
    return { menu with items := insertBefore menu.items item other }
  | .edit (.remove index) => do
    let item ← menu.named? index
    return { items := menu.items.erase item, numbering := menu.numbering.map (·.filter (· != item)) }
  | .edit (.move index none) => do
    let item ← menu.named? index
    return { menu with items := menu.items.erase item ++ [item] }
  | .edit (.move index (some before)) => do
    let item ← menu.named? index
    let other ← menu.named? before
    if item = other then return menu
    return { menu with items := insertBefore (menu.items.erase item) item other }
  | .edit (.set ..) => some menu

/-- The menus of a device after lines for several sections, up to the first that is rejected. -/
def sendAll : List (Path × MenuStep) → (Path → Menu) → Option (Path → Menu)
  | [], menus => some menus
  | (path, step) :: steps, menus => do
    let menu ← (menus path).obey step
    sendAll steps fun other => if other = path then menu else menus other

end Menu

namespace Batch

/-- The lines that send commands to a section, where `stale` says whether the device's numbers are out of date. -/
def menuSteps (stale : Bool) : List Command → List MenuStep
  | [] => []
  | command :: commands =>
    let refresh := stale && command.requiresFreshIndices
    let stale := command.invalidatesIndices || (stale && !refresh)
    (if refresh then [.print] else []) ++ .edit command :: menuSteps stale commands

/-- The steps of a batch are its lines. -/
theorem wireCommands_eq (path : Path) (stale : Bool) (commands : List Command) :
    wireCommands path stale commands = (menuSteps stale commands).map (·.line path) := by
  induction commands generalizing stale with
  | nil => rfl
  | cons command commands ih =>
    rw [wireCommands, menuSteps, List.map_append, List.map_cons, ih]
    cases stale && command.requiresFreshIndices <;> rfl

end Batch

namespace Script

/-- The lines for a device with their paths. -/
def menuSteps (script : Script) : List (Path × MenuStep) :=
  script.workingBatches.flatMap fun batch => (Batch.menuSteps false batch.commands).map (batch.path, ·)

/-- The lines for a device are the steps, written out. -/
theorem wireLines_eq (script : Script) : script.wireLines = script.menuSteps.map fun (path, step) => step.line path := by
  simp only [wireLines, menuSteps, List.map_flatMap, List.map_map, Batch.wireLines, Batch.wireCommands_eq]
  rfl

end Script

end RouterPlan
