import RouterPlan.Checked.Reading
import RouterPlan.Merge
import RouterPlan.Reading
import RouterPlan.Replay

/-!
# Edits in steps that may stop

The edits of a section where every position is checked when it is used: items are read, put in and taken out at positions that the
list has to have, the position after a destination has to fit a word, and the one before it has to be there. Merges, scripts and texts
are carried out with these edits.
-/

namespace RouterPlan.Checked

/-! ## Edits of a section -/

/-- A destination of the list, or nothing for one that means the end of it: where `reach` takes the destination past the list. -/
def settleDestination (s : Section) (reach : Nat → Checked Nat) :
    Option Nat → ExceptT IntegrityError Checked (Option Nat)
  | none => return none
  | some destination => do
    let length ← length s.items
    if length < destination then throw (.destinationOutOfRange s.path destination length)
    else return if (← reach destination) < length then some destination else none

/-- The list with an item put in before a position, or at the end. -/
def placeItem (items : List Item) (item : Item) : Option Nat → Checked (List Item)
  | none => .ok (items ++ [item])
  | some before => insertAt items before item

/-- Puts in an item before a destination or at the end. -/
def insert (s : Section) (item : Item) (destination : Option Nat) : ExceptT IntegrityError Checked (Command × Section) := do
  if destination.isSome && !s.mode.allowsPlacement then throw (.placementNotAllowed s.path s.mode)
  let before ← settleDestination s increment destination
  if s.items.contains item then throw (.duplicateItem s.path item)
  let items ← placeItem s.items item before
  return (.add item before, { s with items })

/-- Takes out an item. -/
def delete (s : Section) (item : Item) : ExceptT IntegrityError Checked (Command × Section) := do
  let index ← s.requirePosition item
  let items ← removeAt s.items index
  return (.remove index, { s with items })

/-- The position that a destination names once the item at `index` is taken out. -/
def slotAfterRemoval (index : Nat) : Option Nat → Checked (Option Nat)
  | none => .ok none
  | some before => do if index < before then return some (← subtract before 1) else return some before

/-- Takes an item to before the one at a destination, or to the end. -/
def move (s : Section) (item : Item) (destination : Option Nat) : ExceptT IntegrityError Checked (Command × Section) := do
  if !s.mode.isOrdered then throw (.moveNotAllowed s.path)
  let before ← settleDestination s pure destination
  let index ← s.requirePosition item
  let others ← removeAt s.items index
  let slot ← slotAfterRemoval index before
  let items ← placeItem others item slot
  return (.move index before, { s with items })

/-- The section after a command, before the command is recorded. -/
def perform (s : Section) : Command → ExceptT IntegrityError Checked Section
  | .add values before => do return (← insert s values before).2
  | .remove index => do return (← delete s (← s.itemAt index)).2
  | .move index before => do return (← move s (← s.itemAt index) before).2
  | .set target values => return (s.set target values).2

/-- Carries out a command and records it. -/
def loadCommand (command : Command) (s : Section) : ExceptT IntegrityError Checked Section := do
  let s ← perform s command
  return { s with log := s.log ++ [command] }

/-! ## Merges -/

/-- Takes out items one by one. -/
def deleteAll : List Item → Section → ExceptT IntegrityError Checked (List Command × Section)
  | [], s => return ([], s)
  | item :: items, s => do
    let (command, s) ← delete s item
    let (commands, s) ← deleteAll items s
    return (command :: commands, s)

/-- Puts in the items that are missing, of a target list whose first item here has position `position`. -/
def insertMissing (position : Nat) : List Item → Section → ExceptT IntegrityError Checked (List Command × Section)
  | [], s => return ([], s)
  | item :: items, s => do
    if s.items.contains item then insertMissing (position + 1) items s
    else
      let length ← length s.items
      let placed := s.mode.allowsPlacement && position < length
      let (command, s) ← insert s item (if placed then some position else none)
      let (commands, s) ← insertMissing (position + 1) items s
      return (command :: commands, s)

/-- Moves items until those from `position` on stand as in the target. -/
def reorder (position : Nat) : List Item → Section → ExceptT IntegrityError Checked (List Command × Section)
  | [], s => return ([], s)
  | item :: items, s => do
    let current ← (entryAt s.items position : Checked Item)
    if current = item then reorder (position + 1) items s
    else
      let (command, s) ← move s item (some position)
      let (commands, s) ← reorder (position + 1) items s
      return (command :: commands, s)

/-- Moves items until all stand as in the target, which has as many. -/
def reorderAll (s : Section) (items : List Item) : ExceptT IntegrityError Checked (List Command × Section) := do
  let length ← length s.items
  if length = items.length then reorder 0 items s
  else throw (.itemCountMismatch s.path length items.length)

/-- Takes a section to a target section. -/
def mergeWith (s target : Section) : ExceptT IntegrityError Checked (List Command × Section) := do
  let (set, s) := Section.putSettings target.settings.entries s
  let (removed, s) ← deleteAll (s.items.filter (!target.items.contains ·)) s
  let (added, s) ← insertMissing 0 target.items s
  let (moved, s) ← if s.mode.isOrdered then reorderAll s target.items else pure ([], s)
  return (set ++ removed ++ added ++ moved, s)

/-- Takes the children of a section to those of a target. -/
def mergeBelow (order : OrderTable) : Forest Section → Outline Section →
    ExceptT IntegrityError Checked (Forest Batch × Outline Section)
  | .nil, current => return (.nil, current)
  | .cons target below rest, current =>
    match target.path.name? with
    | none => mergeBelow order rest current
    | some name => do
      let (batch, current) ← current.editChild (Section.growth order) name fun child => do
        let (commands, s) ← mergeWith child.root target
        let (batches, child) ← mergeBelow order below { child with root := s }
        return (Outline.mk { path := s.path, mode := s.mode, commands : Batch } batches, child)
      let (batches, current) ← mergeBelow order rest current
      return (.cons batch.root batch.below batches, current)

/-- Takes a configuration to a target. -/
def merge (c target : Configuration) : Checked (Except IntegrityError (Script × Configuration)) :=
  ExceptT.run do
    let (commands, s) ← mergeWith c.outline.root target.outline.root
    let (batches, outline) ← mergeBelow c.order target.outline.below { c.outline with root := s }
    return (⟨⟨{ path := s.path, mode := s.mode, commands }, batches⟩⟩, { c with outline })

/-- The script that takes a configuration to a target. -/
def diff (base target : Configuration) : Checked (Except IntegrityError Script) := do
  return (← merge base target).map (·.1)

/-! ## Scripts and texts -/

/-- Edits the entry at a path; what is missing on the way is made. -/
def editAt {α β : Type} (growth : Growth α) (edit : α → Checked (β × α)) : List String → Outline α → Checked (β × Outline α)
  | [], outline => do
    let (result, root) ← edit outline.root
    return (result, { outline with root })
  | name :: names, outline => outline.editChild growth name (editAt growth edit names)

/-- A command as a step that leaves the section as it was when it is refused. -/
def attempt (command : Command) (s : Section) : Checked (Except IntegrityError Unit × Section) := do
  match ← (loadCommand command s).run with
  | .ok s => return (.ok (), s)
  | .error cause => return (.error cause, s)

/-- Loads a command into the section at a path. -/
def load (c : Configuration) (path : Path) (command : Command) : Checked (Except IntegrityError Unit × Configuration) := do
  let (result, outline) ← editAt (Section.growth c.order) (attempt command) path.segments c.outline
  return (result, { c with outline })

/-- Loads commands at their paths up to the first that is refused. -/
def loadAll : List (Path × Command) → Configuration → Checked (Except IntegrityError Unit × Configuration)
  | [], c => .ok (.ok (), c)
  | (path, command) :: edits, c => do
    match ← load c path command with
    | (.ok (), c) => loadAll edits c
    | (.error cause, c) => return (.error cause, c)

/-- Carries out a script in place. -/
def replay (c : Configuration) (script : Script) : Checked (Except IntegrityError Unit × Configuration) :=
  loadAll script.edits c

/-- The configuration after a script, if all of it can be carried out. -/
def apply (c : Configuration) (script : Script) : Checked (Except IntegrityError Configuration) := do
  match ← replay c script with
  | (.ok (), c) => return .ok c
  | (.error cause, _) => return .error cause

/-- The configuration after one more statement. -/
def follow (c : Configuration) (s : Statement) : ExceptT ParseError Checked Configuration :=
  match s.content with
  | .error fault => throw (s.refused fault)
  | .ok (.comment text) => return { c with version := c.version.or (Version.inComment? text) }
  | .ok .enter => return c.ensure s.path
  | .ok .refresh => return c
  | .ok (.edit command) => do
    match ← load c s.path command with
    | (.ok (), c) => return c
    | (.error cause, _) => throw (s.refused (.integrity cause))

/-- The configuration that a text describes. -/
def readConfiguration (order : OrderTable) (text : String) : Checked (Except ParseError Configuration) := do
  ((← statements text).foldlM follow (Configuration.empty order)).run

/-- The script that a text describes. -/
def readScript (order : OrderTable) (text : String) : Checked (Except ParseError Script) := do
  return (← statements text).foldlM (Script.follow order) Script.empty

end RouterPlan.Checked
