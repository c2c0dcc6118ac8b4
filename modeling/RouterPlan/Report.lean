import RouterPlan.Journal
import RouterPlan.Script.Render
import RouterPlan.Text.Controls
import RouterPlan.Text.Line

/-!
# Scripts and logs on a terminal

A script for reading with a colour for each kind of line, and log entries with a colour for each level, where colours
are wanted.
-/

namespace RouterPlan

/-- How a stretch of text is shown. -/
inductive Style where
  | red
  | green
  | yellow
  | blue
  | magenta
  | cyan
  | gray
  | boldCyan
deriving DecidableEq, Repr

namespace Style

/-- The numbers by which a terminal knows the style. -/
def code : Style → String
  | red => "31"
  | green => "32"
  | yellow => "33"
  | blue => "34"
  | magenta => "35"
  | cyan => "36"
  | gray => "90"
  | boldCyan => "1;36"

/-- What switches the style on. -/
def start (style : Style) : String :=
  "\x1b[" ++ style.code ++ "m"

/-- What switches every style off. -/
def reset : String :=
  "\x1b[0m"

/-- The text with something put in after each place where it switches styles off. -/
def afterResets (insertion : List Char) : List Char → List Char
  | '\x1b' :: '[' :: '0' :: 'm' :: cs => reset.toList ++ insertion ++ afterResets insertion cs
  | c :: cs => c :: afterResets insertion cs
  | [] => []

/-- The text in the style; where the text itself switches styles off, the style is switched on again. -/
def paint (style : Style) (text : String) : String :=
  style.start ++ String.ofList (afterResets style.start.toList text.toList) ++ reset

end Style

namespace Report

/-- The style of the lines that start with a text. -/
def lineStyles : List (String × Style) :=
  [("/", .boldCyan), ("add ", .green), ("remove ", .red), ("move ", .yellow), ("set ", .magenta)]

/-- The style of a line; one that is neither a header nor a command has none. -/
def styleOf? (line : String) : Option Style :=
  (lineStyles.find? fun (start, _) => start.toList.isPrefixOf line.toList).map (·.2)

/-- A text in a style, if colours are wanted and it has one. -/
def styled (colored : Bool) (style : Option Style) (text : String) : String :=
  match colored, style with
  | true, some style => style.paint text
  | _, _ => text

/-- The script for reading. -/
def scriptText (colored : Bool) (script : Script) : String :=
  let lines := (Text.lines script.prettyText.toList).map String.ofList
  "\n".intercalate (lines.map fun line => styled colored (styleOf? line) line)

/-- The counts of the script. -/
def summaryText (colored : Bool) (script : Script) : String :=
  styled colored (some .cyan) script.summary

/-- The style of a level. -/
def levelStyle : Level → Style
  | .error => .red
  | .warn => .yellow
  | .info => .green
  | .debug => .blue
  | .trace => .cyan

/-- The level in five columns. -/
def levelText (level : Level) : String :=
  String.ofList (level.text.toList.rightpad 5 ' ')

/-- A message with its lines after the first indented. -/
def indented (message : String) : String :=
  "\n    ".intercalate ((Text.pieces (· == '\n') message.toList).map String.ofList)

/-- An entry of the log, with the line break after it. Where colours are not wanted, control sequences of the message are
left out too. -/
def entryText (colored : Bool) (entry : Entry) : String :=
  let paint (style : Style) (text : String) := styled colored (some style) text
  let text := paint .gray "[" ++ paint (levelStyle entry.level) (levelText entry.level) ++ " " ++ entry.origin.text ++
    paint .gray "]" ++ " " ++ indented entry.message ++ "\n"
  if colored then text else Text.withoutControls text

end Report

end RouterPlan
