import RouterPlan.Json
import RouterPlan.Script.Basic

/-!
# Scripts as documents

The JSON form of commands and scripts. A command is a record that starts with its kind; a missing destination is left
out.
-/

namespace RouterPlan

/-- The values as a record, in key order. -/
def Values.document (values : Values) : Json :=
  .record (values.entries.map fun (key, value) => (key, .string value))

/-- What a setting is about: its kind, and a value where the kind has one. -/
def Identifier.document : Identifier → Json
  | itself => .record [("kind", .string "section")]
  | number index => .record [("kind", .string "numeric"), ("value", .number index)]
  | name text => .record [("kind", .string "name"), ("value", .string text)]
  | locator text => .record [("kind", .string "dynamic"), ("value", .string text)]

namespace Command

/-- The field of a destination, if there is one. -/
def destinationField (before : Option Nat) : List (String × Json) :=
  before.toList.map fun position => ("destination", .number position)

/-- The fields of a command after its kind. -/
def fields : Command → List (String × Json)
  | add values before => ("values", values.document) :: destinationField before
  | remove index => [("index", .number index)]
  | move index before => ("index", .number index) :: destinationField before
  | set target values => [("identifier", target.document), ("values", values.document)]

/-- The command as a record. -/
def document (command : Command) : Json :=
  .record (("op", .string command.keyword.text) :: command.fields)

end Command

/-- The batch as a record, without its children. -/
def Batch.document (batch : Batch) : Json :=
  .record [("path", .string batch.path.text), ("mode", .string batch.mode.text),
    ("commands", .list (batch.commands.map (·.document)))]

/-- The batches with commands as a JSON text. -/
def Script.jsonText (script : Script) : String :=
  (Json.list (script.workingBatches.map (·.document))).prettyText

end RouterPlan
