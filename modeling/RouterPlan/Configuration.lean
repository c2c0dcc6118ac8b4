import RouterPlan.Outline
import RouterPlan.Section

/-!
# Configurations

A configuration is an outline of sections with the order table that gives new sections their mode. Commands are loaded at
a path; the sections on the way are made when they are missing, also when the command is then refused. Two configurations
are equal (`==`) when they hold the same items and settings; order counts only in ordered sections.
-/

namespace RouterPlan

/-- The sections of a router, and the order table for further ones. -/
structure Configuration where
  outline : Outline Section
  order : OrderTable
  /-- The version that the header of an export gave. -/
  version : Option String := none

namespace Section

/-- The section at a path before anything is in it. -/
def fresh (order : OrderTable) (path : Path) : Section :=
  { path, mode := order.modeFor path }

/-- Sections are named by the end of their path, and a new one takes its mode from the table. -/
def growth (order : OrderTable) : Growth Section where
  name? s := s.path.name?
  child parent name := fresh order (parent.path.child name)

/-- An edit as a step that leaves the section as it was when it is refused. -/
def attempt {α : Type} (edit : Section → Except IntegrityError (α × Section)) (s : Section) :
    Except IntegrityError α × Section :=
  match edit s with
  | .ok (result, s) => (.ok result, s)
  | .error cause => (.error cause, s)

/-- The items, in order where order counts and sorted where it does not. -/
def comparableItems (s : Section) : List Item :=
  if s.mode.isOrdered then s.items else s.items.mergeSort Item.precedes

end Section

namespace Configuration

/-- The configuration with nothing but an empty root section. -/
def empty (order : OrderTable) : Configuration :=
  { outline := ⟨Section.fresh order .root, .nil⟩, order }

/-- The sections in document order, each before its children. -/
def sections (c : Configuration) : List Section :=
  c.outline.entries

/-- The part of the outline at a path. -/
def outlineAt? (c : Configuration) (path : Path) : Option (Outline Section) :=
  c.outline.find? (Section.growth c.order) path.segments

/-- The section at a path. -/
def section? (c : Configuration) (path : Path) : Option Section :=
  (c.outlineAt? path).map (·.root)

/-- The children of the section at a path, in the order in which they were made. -/
def children? (c : Configuration) (path : Path) : Option (List Section) :=
  (c.outlineAt? path).map fun outline => outline.children.map (·.root)

/-- Edits the section at a path; it and the sections above it are made if they are missing. -/
def editAt {β : Type} (c : Configuration) (path : Path) (edit : Section → β × Section) : β × Configuration :=
  let (result, outline) := c.outline.editAt (Section.growth c.order) edit path.segments
  (result, { c with outline })

/-- The configuration with a section at a path, made if it is missing. -/
def ensure (c : Configuration) (path : Path) : Configuration :=
  (c.editAt path fun s => ((), s)).2

/-- Loads a command into the section at a path. -/
def load (c : Configuration) (path : Path) (command : Command) : Except IntegrityError Unit × Configuration :=
  c.editAt path (Section.attempt fun s => do return ((), ← s.load command))

/-- What the sections with items or settings hold, by path. -/
def content (c : Configuration) : Assoc Path (List Item × Assoc Identifier Values) :=
  .ofList ((c.sections.filter (·.hasContent)).map fun s => (s.path, s.comparableItems, s.settings))

/-- Configurations are equal when they hold the same; modes, logs, versions and empty sections do not count. -/
instance : BEq Configuration where
  beq a b := a.content == b.content

end Configuration

end RouterPlan
