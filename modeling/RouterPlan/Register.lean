import RouterPlan.Merge
import RouterPlan.Reading
import RouterPlan.Replay

/-!
# Registers

A register keeps the sections of a configuration in one array and never takes one away. A section is known by its number
there, and numbers stand for the links between sections: each place names the one above it and lists those below. What a
configuration does at a path, a register does in two steps: it looks up the number, making what is missing on the way, and
edits the place in the array.

Nothing in the types ties the numbers together. A place could be listed twice or under another parent, and a setting could be
filed under an identifier that is not its own; that this never happens is a matter of proof.
-/

namespace RouterPlan

/-- The values of one identifier. -/
structure Setting where
  identifier : Identifier
  values : Values
deriving DecidableEq

/-- One section of a register, with its links. -/
structure Place where
  path : Path
  mode : OrderMode
  /-- The number of the section above; the root has none. -/
  parent : Option Nat
  /-- The numbers of the sections below, in the order in which they were made. -/
  children : List Nat := []
  items : List Item := []
  settings : Assoc Identifier Setting := ∅
  log : List Command := []
deriving DecidableEq

namespace Place

/-- A place before anything is in it. -/
def fresh (order : OrderTable) (path : Path) (parent : Option Nat) : Place :=
  { path, mode := order.modeFor path, parent }

/-- The section at a place, without its links. -/
def held (p : Place) : Section :=
  { path := p.path, mode := p.mode, items := p.items, settings := p.settings.mapValues (·.values), log := p.log }

/-- An edit as a step that leaves the place as it was when it is refused. -/
def attempt {α : Type} (edit : Place → Except IntegrityError (α × Place)) (p : Place) : Except IntegrityError α × Place :=
  match edit p with
  | .ok (result, p) => (.ok result, p)
  | .error cause => (.error cause, p)

/-- Edits the items as a section would. -/
def editItems {α : Type} (edit : Section → Except IntegrityError (α × Section)) (p : Place) :
    Except IntegrityError (α × Place) := do
  let (result, s) ← edit p.held
  return (result, { p with items := s.items })

/-- Puts values into the setting of an identifier. A setting that has none afterwards is taken out again. -/
def set (setting : Setting) (p : Place) : Option Command × Place :=
  let current := (p.settings.get? setting.identifier).getD ⟨setting.identifier, ∅⟩
  let changed := setting.values.filter fun (key, value) => current.values.get? key != some value
  let settings := p.settings.insert setting.identifier
    { current with values := current.values.insertMany changed.entries }
  if changed.isEmpty then
    if current.values.isEmpty then (none, { p with settings := settings.erase setting.identifier })
    else (none, { p with settings })
  else (some (.set setting.identifier changed), { p with settings })

/-- The place after a command, before the command is recorded. Commands about items are carried out by the section. -/
def perform (p : Place) : Command → Except IntegrityError Place
  | .set target values => .ok (p.set ⟨target, values⟩).2
  | command => do return (← p.editItems fun s => do return ((), ← s.perform command)).2

/-- Carries out a command and records it. -/
def load (command : Command) (p : Place) : Except IntegrityError (Unit × Place) := do
  let p ← p.perform command
  return ((), { p with log := p.log ++ [command] })

/-- Puts in settings one by one; the commands are those of the settings that changed something. -/
def putSettings : List Setting → Place → List Command × Place
  | [], p => ([], p)
  | setting :: settings, p =>
    let (command, p) := p.set setting
    let (commands, p) := putSettings settings p
    (command.toList ++ commands, p)

/-- Takes a place to a target section, in the passes of `Section.mergeWith`. -/
def mergeWith (target : Section) (p : Place) : Except IntegrityError (List Command × Place) := do
  let (set, p) := p.putSettings (target.settings.entries.map fun (identifier, values) => ⟨identifier, values⟩)
  let (removed, p) ← p.editItems (Section.deleteAll (p.items.filter (!target.items.contains ·)))
  let (added, p) ← p.editItems (Section.insertMissing 0 target.items)
  let (moved, p) ← if p.mode.isOrdered then p.editItems (·.reorderAll target.items) else .ok ([], p)
  return (set ++ removed ++ added ++ moved, p)

end Place

/-- The sections of a router by number, and the order table for further ones. -/
structure Register where
  places : Array Place
  order : OrderTable
  /-- The version that the header of an export gave. -/
  version : Option String := none

namespace Register

/-- The register with nothing but an empty root section, which has the number zero. -/
def empty (order : OrderTable) : Register :=
  { places := #[.fresh order .root none], order }

/-- How many sections there are. -/
def size (r : Register) : Nat :=
  r.places.size

/-- The place of a number. A number that was not given out stands for an empty root. -/
def place (r : Register) (id : Nat) : Place :=
  r.places[id]?.getD (.fresh r.order .root none)

/-- The register with another place for a number. -/
def put (r : Register) (id : Nat) (p : Place) : Register :=
  { r with places := r.places.setIfInBounds id p }

/-- Edits the place of a number. -/
def editAt {β : Type} (r : Register) (id : Nat) (edit : Place → β × Place) : β × Register :=
  let (result, p) := edit (r.place id)
  (result, r.put id p)

/-- The number of the first child with a name. -/
def child? (r : Register) (id : Nat) (name : String) : Option Nat :=
  (r.place id).children.find? fun child => (r.place child).path.name? == some name

/-- The number of the section at a path. -/
def find? (r : Register) (path : Path) : Option Nat :=
  path.segments.foldlM r.child? 0

/-- The register with one more section below that of a number. -/
def addChild (r : Register) (id : Nat) (name : String) : Register :=
  let parent := r.place id
  let child := Place.fresh r.order (parent.path.child name) (some id)
  { r with places := r.places.push child }.put id { parent with children := parent.children ++ [r.size] }

/-- The number of the child with a name, which is made if it is missing. -/
def ensureChild (r : Register) (id : Nat) (name : String) : Nat × Register :=
  match r.child? id name with
  | some child => (child, r)
  | none => (r.size, r.addChild id name)

/-- The number of the section that names lead to from that of a number; what is missing on the way is made. -/
def ensureFrom : List String → Nat → Register → Nat × Register
  | [], id, r => (id, r)
  | name :: names, id, r =>
    let (child, r) := r.ensureChild id name
    ensureFrom names child r

/-- The number of the section at a path; what is missing on the way is made. -/
def ensure (r : Register) (path : Path) : Nat × Register :=
  ensureFrom path.segments 0 r

/-- Loads a command into the section at a path. -/
def load (r : Register) (path : Path) (command : Command) : Except IntegrityError Unit × Register :=
  let (id, r) := r.ensure path
  r.editAt id (Place.attempt (Place.load command))

/-- Loads commands into the section of a number up to the first that is refused. -/
def loadEach (id : Nat) : List Command → Register → Except IntegrityError Unit × Register
  | [], r => (.ok (), r)
  | command :: commands, r =>
    match r.editAt id (Place.attempt (Place.load command)) with
    | (.ok (), r) => loadEach id commands r
    | (.error cause, r) => (.error cause, r)

/-- Carries out batches in turn up to the first command that is refused; those without commands make no section. -/
def loadBatches : List Batch → Register → Except IntegrityError Unit × Register
  | [], r => (.ok (), r)
  | batch :: batches, r =>
    if batch.commands.isEmpty then loadBatches batches r
    else
      let (id, r) := r.ensure batch.path
      match r.loadEach id batch.commands with
      | (.ok (), r) => loadBatches batches r
      | (.error cause, r) => (.error cause, r)

/-- Carries out a script in place: whether it went through, and the register after it. -/
def replay (r : Register) (script : Script) : Except IntegrityError Unit × Register :=
  r.loadBatches script.batches

/-- The register after a script, if all of it can be carried out. -/
def apply (r : Register) (script : Script) : Except IntegrityError Register :=
  match r.replay script with
  | (.ok (), r) => .ok r
  | (.error cause, _) => .error cause

/-- The register after one more statement. The first version that a comment gives is kept. -/
def follow (r : Register) (s : Statement) : Except ParseError Register :=
  match s.content with
  | .error fault => .error (s.refused fault)
  | .ok (.comment text) => .ok { r with version := r.version.or (Version.inComment? text) }
  | .ok .enter => .ok (r.ensure s.path).2
  | .ok .refresh => .ok r
  | .ok (.edit command) =>
    match r.load s.path command with
    | (.ok (), r) => .ok r
    | (.error cause, _) => .error (s.refused (.integrity cause))

/-- The register that a text describes. -/
def read (order : OrderTable) (text : String) : Except ParseError Register :=
  (Statement.ofText text).foldlM follow (empty order)

/-- Takes the sections below that of a number to those of a target, and gives their batches. -/
def mergeBelow : Forest Section → Nat → Register → Except IntegrityError (Forest Batch × Register)
  | .nil, _, r => .ok (.nil, r)
  | .cons target below rest, id, r =>
    match target.path.name? with
    | none => mergeBelow rest id r
    | some name => do
      let (child, r) := r.ensureChild id name
      let (commands, p) ← (r.place child).mergeWith target
      let (batches, r) ← mergeBelow below child (r.put child p)
      let (siblings, r) ← mergeBelow rest id r
      return (.cons { path := p.path, mode := p.mode, commands } batches siblings, r)

/-- Takes a register to a target, of which only the sections count. The script is what was carried out. -/
def merge (r : Register) (target : Configuration) : Except IntegrityError (Script × Register) := do
  let (commands, p) ← (r.place 0).mergeWith target.outline.root
  let (batches, r) ← mergeBelow target.outline.below 0 (r.put 0 p)
  return (⟨⟨{ path := p.path, mode := p.mode, commands }, batches⟩⟩, r)

end Register

end RouterPlan
