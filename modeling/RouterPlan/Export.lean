import RouterPlan.Configuration

/-!
# Export texts

A configuration as the text that reads back to it: the version in a comment, then each section that holds something, with
its items in order and its settings by identifier.
-/

namespace RouterPlan

/-- The lines of a section: its header, an `add` for each item and a `set` for each setting. -/
def Section.exportLines (s : Section) : List String :=
  s.path.text :: s.items.map (fun item => s!"add {item.text}") ++
    s.settings.entries.map (fun (target, values) => (Command.set target values).text)

namespace Configuration

/-- The header of the export. -/
def versionLines (c : Configuration) : List String :=
  c.version.toList.map fun version => s!"# by RouterOS {version}"

/-- The lines of the export. -/
def exportLines (c : Configuration) : List String :=
  c.versionLines ++ (c.sections.filter (·.hasContent)).flatMap (·.exportLines)

/-- The export, with a line feed after each line. -/
def exportText (c : Configuration) : String :=
  String.join (c.exportLines.map (· ++ "\n"))

end Configuration

end RouterPlan
