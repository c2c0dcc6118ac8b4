import RouterPlan.Configuration
import RouterPlan.Script.Basic
import RouterPlan.Statement
import RouterPlan.Version

/-!
# Reading configurations and scripts

The same text can be read in two ways. As a configuration, each command is loaded into its section as it is read, so it
has to fit what the lines before it made. As a script, commands are only collected by section, and checked against the
mode of that section. Either way the first bad line ends the reading.
-/

namespace RouterPlan

namespace Configuration

/-- The configuration after one more statement. The first version that a comment gives is kept. -/
def follow (c : Configuration) (s : Statement) : Except ParseError Configuration :=
  match s.content with
  | .error fault => .error (s.refused fault)
  | .ok (.comment text) => .ok { c with version := c.version.or (Version.inComment? text) }
  | .ok .enter => .ok (c.ensure s.path)
  | .ok .refresh => .ok c
  | .ok (.edit command) =>
    match c.load s.path command with
    | (.ok (), c) => .ok c
    | (.error cause, _) => .error (s.refused (.integrity cause))

/-- The configuration that a text describes. -/
def read (order : OrderTable) (text : String) : Except ParseError Configuration :=
  (Statement.ofText text).foldlM follow (empty order)

end Configuration

namespace Script

/-- The script after one more statement. -/
def follow (order : OrderTable) (script : Script) (s : Statement) : Except ParseError Script :=
  match s.content with
  | .error fault => .error (s.refused fault)
  | .ok (.edit command) =>
    match command.checkAllowed s.path (order.modeFor s.path) with
    | .ok () => .ok (script.push order s.path command)
    | .error cause => .error (s.refused (.integrity cause))
  | .ok _ => .ok script

/-- The script that a text describes, in either form of a script. -/
def read (order : OrderTable) (text : String) : Except ParseError Script :=
  (Statement.ofText text).foldlM (follow order) empty

end Script

end RouterPlan
