import RouterPlan.Replay

/-!
# Edits in place

The edits of a section as programs that change it step by step and may be refused on the way (`Work`). A program that is refused
leaves the section as far changed as it has come, so nothing in its type says that a refused edit changes nothing: it is that way
because every check comes before the first change. Only the setting of an identifier is made before it is known whether anything is
put into it, and taken out again.

A script is carried out batch by batch (`Configuration.run`). The section of a batch is made before its first command, and a batch
without commands makes none.
-/

namespace RouterPlan

/-- A program that works on a section in place, up to where it is refused. -/
abbrev Work (α : Type) := ExceptT IntegrityError (StateM Section) α

namespace Work

variable {α : Type}

/-- What a program gives on a section, and how it leaves the section. -/
def on (work : Work α) (s : Section) : Except IntegrityError α × Section :=
  Id.run (work.run.run s)

/-- Looks something up in the section, or refuses for the reason that is given there. -/
def ask (check : Section → Except IntegrityError α) : Work α := do
  MonadExcept.ofExcept (check (← get))

/-- Puts in an item before a destination or at the end. -/
def insert (item : Item) (destination : Option Nat) : Work Command := do
  let s ← get
  if destination.isSome && !s.mode.allowsPlacement then throw (.placementNotAllowed s.path s.mode)
  let before ← ask (·.settleDestination (s.items.length - 1) destination)
  if s.items.contains item then throw (.duplicateItem s.path item)
  modify fun s => { s with items := Section.placeItem s.items item before }
  return .add item before

/-- Takes out an item. -/
def delete (item : Item) : Work Command := do
  let index ← ask (·.requirePosition item)
  modify fun s => { s with items := s.items.eraseIdx index }
  return .remove index

/-- Takes an item to before the one at a destination, or to the end. In between the item is not there. -/
def move (item : Item) (destination : Option Nat) : Work Command := do
  let s ← get
  if !s.mode.isOrdered then throw (.moveNotAllowed s.path)
  let before ← ask (·.settleDestination s.items.length destination)
  let index ← ask (·.requirePosition item)
  modify fun s => { s with items := s.items.eraseIdx index }
  modify fun s => { s with items := Section.placeItem s.items item (before.map (Section.slotAfterRemoval index)) }
  return .move index before

/-- Puts values into the setting of an identifier. The setting is made if it is missing, and taken out again if it has no values
afterwards. -/
def set (target : Identifier) (values : Values) : Work (Option Command) := do
  let current := ((← get).settings.get? target).getD ∅
  modify fun s => { s with settings := s.settings.insert target current }
  let changed := values.filter fun (key, value) => current.get? key != some value
  let merged := current.insertMany changed.entries
  modify fun s => { s with settings := s.settings.insert target merged }
  if changed.isEmpty then
    if merged.isEmpty then modify fun s => { s with settings := s.settings.erase target }
    return none
  return some (.set target changed)

/-- Carries out a command. -/
def perform : Command → Work Unit
  | .add values before => discard (insert values before)
  | .remove index => do discard (delete (← ask (·.itemAt index)))
  | .move index before => do discard (move (← ask (·.itemAt index)) before)
  | .set target values => discard (set target values)

/-- Carries out a command, and then records it. -/
def load (command : Command) : Work Unit := do
  perform command
  modify fun s => { s with log := s.log ++ [command] }

end Work

namespace Configuration

/-- Loads commands one by one into the section at a path, up to the first that is refused. -/
def runEach (path : Path) : List Command → Configuration → Except IntegrityError Unit × Configuration
  | [], c => (.ok (), c)
  | command :: commands, c =>
    match c.editAt path (Work.load command).on with
    | (.ok (), c) => runEach path commands c
    | (.error cause, c) => (.error cause, c)

/-- Carries out batches in turn, up to the first command that is refused. -/
def runBatches : List Batch → Configuration → Except IntegrityError Unit × Configuration
  | [], c => (.ok (), c)
  | batch :: batches, c =>
    if batch.commands.isEmpty then runBatches batches c
    else
      match runEach batch.path batch.commands (c.ensure batch.path) with
      | (.ok (), c) => runBatches batches c
      | (.error cause, c) => (.error cause, c)

/-- Carries out a script in place: whether it went through, and what it leaves. -/
def run (c : Configuration) (script : Script) : Except IntegrityError Unit × Configuration :=
  runBatches script.batches c

end Configuration

end RouterPlan
