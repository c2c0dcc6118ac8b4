import RouterPlan.Command.Basic

/-!
# Sections

A section holds a list of items, in which no item occurs twice, and settings by identifier. Its edits return the command
that a device would need for the same effect; an edit that does not fit is refused and changes nothing. `Section.load`
goes the other way: it carries out a command and records it.
-/

namespace RouterPlan

/-- One section of a configuration. -/
structure Section where
  path : Path
  mode : OrderMode
  items : List Item := []
  settings : Assoc Identifier Values := ∅
  /-- The commands carried out here so far, as they were given. -/
  log : List Command := []
deriving DecidableEq

namespace Section

/-- Whether the section holds an item or a setting. -/
def hasContent (s : Section) : Bool :=
  !s.items.isEmpty || !s.settings.isEmpty

/-- The position of an item. -/
def position? (s : Section) (item : Item) : Option Nat :=
  s.items.findIdx? (· == item)

/-- The position of an item that has to be there. -/
def requirePosition (s : Section) (item : Item) : Except IntegrityError Nat :=
  match s.position? item with
  | some index => .ok index
  | none => .error (.missingItem s.path item)

/-- A destination of the list, or nothing for one that means the end of it. The destination may be the length of the
list, and those from `tail` on mean the end. -/
def settleDestination (s : Section) (tail : Nat) : Option Nat → Except IntegrityError (Option Nat)
  | none => .ok none
  | some destination =>
    if s.items.length < destination then .error (.destinationOutOfRange s.path destination s.items.length)
    else .ok (if destination < tail then some destination else none)

/-- The list with an item put in before a position, or at the end. -/
def placeItem (items : List Item) (item : Item) : Option Nat → List Item
  | none => items ++ [item]
  | some before => items.insertIdx before item

/-- Puts in an item before a destination or at the end. The last position counts as the end too, and the command says
so. -/
def insert (s : Section) (item : Item) (destination : Option Nat) : Except IntegrityError (Command × Section) := do
  if destination.isSome && !s.mode.allowsPlacement then .error (.placementNotAllowed s.path s.mode)
  let before ← s.settleDestination (s.items.length - 1) destination
  if s.items.contains item then .error (.duplicateItem s.path item)
  return (.add item before, { s with items := placeItem s.items item before })

/-- Takes out an item. -/
def delete (s : Section) (item : Item) : Except IntegrityError (Command × Section) := do
  let index ← s.requirePosition item
  return (.remove index, { s with items := s.items.eraseIdx index })

/-- The position that `before` names once the item at `index` is taken out. -/
def slotAfterRemoval (index before : Nat) : Nat :=
  if index < before then before - 1 else before

/-- Takes an item to before the one at a destination, or to the end. -/
def move (s : Section) (item : Item) (destination : Option Nat) : Except IntegrityError (Command × Section) := do
  if !s.mode.isOrdered then .error (.moveNotAllowed s.path)
  let before ← s.settleDestination s.items.length destination
  let index ← s.requirePosition item
  let items := placeItem (s.items.eraseIdx index) item (before.map (slotAfterRemoval index))
  return (.move index before, { s with items })

/-- Puts values into the setting of an identifier. The command holds the values that this changed; there is none if
nothing changed. -/
def set (s : Section) (target : Identifier) (values : Values) : Option Command × Section :=
  let current := (s.settings.get? target).getD ∅
  let changed := values.filter fun (key, value) => current.get? key != some value
  if changed.isEmpty then (none, s)
  else (some (.set target changed), { s with settings := s.settings.insert target (current.insertMany changed.entries) })

/-- The item at a position. -/
def itemAt (s : Section) (index : Nat) : Except IntegrityError Item :=
  match s.items[index]? with
  | some item => .ok item
  | none => .error (.indexOutOfRange s.path index s.items.length)

/-- The section after a command, before the command is recorded. -/
def perform (s : Section) : Command → Except IntegrityError Section
  | .add values before => do return (← s.insert values before).2
  | .remove index => do return (← s.delete (← s.itemAt index)).2
  | .move index before => do return (← s.move (← s.itemAt index) before).2
  | .set target values => .ok (s.set target values).2

/-- Carries out a command and records it. -/
def load (s : Section) (command : Command) : Except IntegrityError Section := do
  let s ← s.perform command
  return { s with log := s.log ++ [command] }

end Section

end RouterPlan
