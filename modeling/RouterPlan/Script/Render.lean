import RouterPlan.Script.Basic

/-!
# Scripts as lines

Two forms of a script. For reading, each section is a header line and its commands (`prettyLines`). For a device, each
command carries its path (`wireLines`): a device knows items by the numbers that the last `print` of their menu gave
them, so a `print` goes before a command that names items by number once an earlier command has shifted them.
-/

namespace RouterPlan

/-- What a device is asked to do so that its numbers are current again. -/
def refreshWord : String :=
  "print"

/-- A command text with its path in front. -/
def Path.withCommand (path : Path) (text : String) : String :=
  if path.isRoot then "/" ++ text else path.text ++ " " ++ text

namespace Batch

/-- The header and the commands. -/
def prettyLines (batch : Batch) : List String :=
  batch.path.text :: batch.commands.map (·.text)

/-- The lines that send commands to the section at a path, where `stale` says whether the device's numbers are out of
date. -/
def wireCommands (path : Path) (stale : Bool) : List Command → List String
  | [] => []
  | command :: commands =>
    let refresh := stale && command.requiresFreshIndices
    let lines := if refresh then [path.withCommand refreshWord] else []
    let stale := command.invalidatesIndices || (stale && !refresh)
    lines ++ path.withCommand command.text :: wireCommands path stale commands

/-- The lines for a device. -/
def wireLines (batch : Batch) : List String :=
  wireCommands batch.path false batch.commands

end Batch

/-- How a script is written as lines. -/
inductive RenderMode where
  /-- Headers and bare commands, for reading. -/
  | pretty
  /-- Commands with their paths, for a device. -/
  | wire
deriving DecidableEq, Repr

namespace Script

/-- The lines for reading: the sections with commands, an empty line between two of them. -/
def prettyLines (script : Script) : List String :=
  [""].intercalate (script.workingBatches.map (·.prettyLines))

/-- The lines for a device. -/
def wireLines (script : Script) : List String :=
  script.workingBatches.flatMap (·.wireLines)

/-- The lines of a script in a mode. -/
def render (script : Script) : RenderMode → List String
  | .pretty => script.prettyLines
  | .wire => script.wireLines

/-- The text for reading. -/
def prettyText (script : Script) : String :=
  "\n".intercalate script.prettyLines

/-- The lines for reading, each with a line feed. -/
def text (script : Script) : String :=
  String.join (script.prettyLines.map (· ++ "\n"))

/-- How many commands have a keyword. -/
def countOf (script : Script) (keyword : Keyword) : Nat :=
  script.edits.countP (·.2.keyword == keyword)

/-- One line that counts the sections with commands and the commands by keyword. -/
def summary (script : Script) : String :=
  let sections := script.workingBatches.length
  let count := script.countOf
  s!"sections={sections} add={count .add} remove={count .remove} move={count .move} set={count .set}"

end Script

end RouterPlan
