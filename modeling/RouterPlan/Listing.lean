import RouterPlan.Configuration
import RouterPlan.Json

/-!
# Listing sections

An overview of a configuration: one row a section, with its mode and how much it holds, for the whole configuration or
for one section and those below it.
-/

namespace RouterPlan

/-- One section of a listing. -/
structure Row where
  path : Path
  mode : OrderMode
  /-- How many items the section has. -/
  items : Nat
  /-- How many settings the section has. -/
  settings : Nat
deriving DecidableEq, Repr

/-- The row of a section. -/
def Section.row (s : Section) : Row :=
  { path := s.path, mode := s.mode, items := s.items.length, settings := s.settings.entries.length }

/-- Whether the section is at a path or below it. -/
def Section.isUnder (s : Section) (path : Path) : Bool :=
  path.segments.isPrefixOf s.path.segments

/-- The rows of the sections at a path and below it, in document order, if there is a section at the path. -/
def Configuration.rows? (c : Configuration) (under : Path) : Option (List Row) :=
  (c.section? under).map fun _ => (c.sections.filter (·.isUnder under)).map (·.row)

namespace Row

/-- The row on a line, indented by its depth. -/
def line (row : Row) : String :=
  let indent := String.ofList (List.replicate (2 * row.path.segments.length) ' ')
  let name := row.path.name?.getD "/"
  s!"{indent}{name} [{row.mode.text}] items={row.items} settings={row.settings}"

/-- The rows as lines, each with a line feed. -/
def linesText (rows : List Row) : String :=
  String.join (rows.map (·.line ++ "\n"))

/-- The row as a record. -/
def document (row : Row) : Json :=
  .record [("path", .string row.path.text), ("mode", .string row.mode.text), ("items", .number row.items),
    ("settings", .number row.settings)]

/-- The rows as a JSON text. -/
def jsonText (rows : List Row) : String :=
  (Json.list (rows.map (·.document))).prettyText

end Row

end RouterPlan
