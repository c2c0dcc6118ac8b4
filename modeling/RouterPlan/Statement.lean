import RouterPlan.Command.Reader
import RouterPlan.Text.Line

/-!
# Statements

What the lines of an export or a script say, before anything is done about it. A line that starts with a slash names a
section; with a command after the path it speaks about that section alone, without one it is a header for the lines
after it. Every statement carries its place, so whoever carries statements out can say where the first bad one stands.
-/

namespace RouterPlan

/-- What is wrong with a line. -/
inductive Fault where
  /-- A line with a path cannot be split into words. -/
  | lex (cause : LexError)
  /-- A line is no command. -/
  | grammar (cause : GrammarError)
  /-- The command of a line does not fit its section. -/
  | integrity (cause : IntegrityError)
deriving DecidableEq

/-- The wording of the fault. -/
def Fault.message : Fault → String
  | lex cause => cause.message
  | grammar cause => cause.message
  | integrity cause => cause.message

/-- A line that could not be read. -/
structure ParseError where
  /-- The number of the line, the first one if it is wrapped. -/
  line : Nat
  /-- The logical line without blanks at its ends. -/
  text : String
  /-- The section that the line speaks about. -/
  path : Path
  fault : Fault
deriving DecidableEq

/-- The wording of the error. -/
def ParseError.message (e : ParseError) : String :=
  s!"line {e.line} in {e.path.text}: {e.fault.message}: {e.text}"

/-- What a line asks for. -/
inductive Directive where
  | comment (text : String)
  /-- The lines after this one speak about its section. -/
  | enter
  | edit (command : Command)
  /-- The device is asked to renumber its items; nothing is edited. -/
  | refresh
deriving DecidableEq

/-- What one logical line says, and where. -/
structure Statement where
  line : Nat
  text : String
  path : Path
  content : Except Fault Directive

namespace Statement

/-- The words that end the path of a line. -/
def verbs : List String :=
  Keyword.all.map (·.text) ++ ["print"]

/-- Reads the words of a line into its path, which starts with `segments`, and the text from the first verb on. A verb
may have slashes in front only where it starts the line. Any other word may hold several segments. -/
def splitPath (line : List Char) (segments : List String) : List Word → Path × Option (List Char)
  | [] => (⟨segments⟩, none)
  | word :: words =>
    let (slashes, bare) := word.text.toList.span (· == '/')
    if verbs.contains (String.ofList bare) && (slashes.isEmpty || segments.isEmpty) then
      (⟨segments⟩, some (Text.dropBytes (word.offset + slashes.length) line))
    else splitPath line (segments ++ (Text.fields (· == '/') word.text.toList).map String.ofList) words

/-- Whether a command text only asks the device to renumber. -/
def isRefresh (body : List Char) : Bool :=
  String.ofList (body.takeWhile (!Text.isSeparator ·)) == "print"

/-- What a command text asks for. -/
def readBody (body : List Char) : Except Fault Directive :=
  if isRefresh body then .ok .refresh
  else
    match Command.ofChars body with
    | .ok command => .ok (.edit command)
    | .error cause => .error (.grammar cause)

/-- What a line without blanks at its ends says where `current` is the section of the last header. -/
def ofLine (current : Path) (line : List Char) : Path × Except Fault Directive :=
  match line with
  | '#' :: comment => (current, .ok (.comment (String.ofList (Text.trim comment))))
  | '/' :: _ =>
    match Text.splitWords line with
    | .error cause => (current, .error (.lex cause))
    | .ok words =>
      match splitPath line [] words with
      | (path, none) => (path, .ok .enter)
      | (path, some body) => (path, readBody body)
  | _ => (current, readBody line)

/-- The statements of numbered lines where `current` is the section of the last header. Blank lines say nothing. -/
def ofLines (current : Path) : List (Nat × List Char) → List Statement
  | [] => []
  | (number, raw) :: rest =>
    let line := Text.trim raw
    if line.isEmpty then ofLines current rest
    else
      let (path, content) := ofLine current line
      let current := match content with
        | .ok .enter => path
        | _ => current
      { line := number, text := String.ofList line, path, content } :: ofLines current rest

/-- The statements of a text. -/
def ofText (text : String) : List Statement :=
  ofLines .root (Text.logicalLines text.toList)

/-- The error that the statement is refused with. -/
def refused (s : Statement) (fault : Fault) : ParseError :=
  { line := s.line, text := s.text, path := s.path, fault }

end Statement

end RouterPlan
