import RouterPlan.Checked.Basic
import RouterPlan.Statement

/-!
# Reading statements in steps that may stop

The statements of a text where every cut is at a byte offset: after the indent with which a wrapped line goes on, after the keyword
of a command, behind the bracket that closes a locator, and at a verb with slashes in front of it. How many bytes these slashes take
is told from the word without its quotes and escapes. The depth of a locator goes down by one at every closing bracket.
-/

namespace RouterPlan.Checked

/-! ## Lines -/

/-- The line that `line` and the physical line after it make together, if `line` goes on there. -/
def continued? (line next : List Char) : Checked (Option (List Char)) := do
  if line.getLast? = some '\\' ∧ Text.continuationIndent.isPrefixOf next then
    let (_, rest) ← cut (String.ofList Text.continuationIndent).utf8ByteSize next
    return some (line.dropLast ++ rest)
  else return none

/-- The logical lines of `line`, which started at physical line `first`, and of the physical lines after it. -/
def joinWrapped (first : Nat) (line : List Char) (next : Nat) : List (List Char) → Checked (List (Nat × List Char))
  | [] => .ok [(first, line)]
  | physical :: rest => do
    match ← continued? line physical with
    | some joined => joinWrapped first joined (next + 1) rest
    | none => return (first, line) :: (← joinWrapped next physical (next + 1) rest)

/-- The logical lines of a text. -/
def logicalLines (cs : List Char) : Checked (List (Nat × List Char)) :=
  match Text.lines cs with
  | [] => .ok []
  | line :: rest => joinWrapped 1 line 2 rest

/-! ## Commands -/

/-- The byte offset behind the bracket that closes a locator, in a text before which there are `pos` bytes and in which the locator
is open `depth` deep. -/
def locatorEnd (pos depth : Nat) (quoted : Bool) : List Char → Checked (Option Nat)
  | [] => .ok none
  | ['\\'] => .ok none
  | '\\' :: c :: cs => locatorEnd (pos + 1 + c.utf8Size) depth quoted cs
  | c :: cs =>
    if c = '"' then locatorEnd (pos + 1) depth (!quoted) cs
    else if c = '[' ∧ !quoted then locatorEnd (pos + 1) (depth + 1) quoted cs
    else if c = ']' ∧ !quoted then do
      let depth ← subtract depth 1
      if depth = 0 then return some (pos + 1) else locatorEnd (pos + 1) depth quoted cs
    else locatorEnd (pos + c.utf8Size) depth quoted cs

/-- The target of `set` and the words of its values. -/
def readTarget (cs : List Char) : ExceptT GrammarError Checked (Identifier × List String) := do
  if cs.head? = some '[' then
    match ← locatorEnd 0 0 false cs with
    | none => throw .unterminatedLocator
    | some offset =>
      let (locator, rest) ← cut offset cs
      return (.locator (String.ofList locator), ← Command.readWords rest)
  else return Command.takeIdentifier (← Command.readWords cs)

/-- The arguments of `set`. -/
def readSet (cs : List Char) : ExceptT GrammarError Checked Command := do
  let (target, words) ← readTarget (Text.trimStart cs)
  let values ← Command.readValues words
  if values.isEmpty then throw (.missingArgument .set) else return .set target values

/-- The command on a line. -/
def readCommand (line : List Char) : ExceptT GrammarError Checked Command := do
  let line := Text.trim line
  if line.isEmpty then throw .empty
  else
    let keyword := line.takeWhile (!Text.isSeparator ·)
    let (word, rest) ← cut (String.ofList keyword).utf8ByteSize line
    match Keyword.ofText? (String.ofList word) with
    | some .add => Command.readAdd rest
    | some .remove => Command.readRemove rest
    | some .move => Command.readMove rest
    | some .set => readSet rest
    | none => throw (.unknownCommand (String.ofList word))

/-! ## Statements -/

/-- Reads the words of a line into its path, which starts with `segments`, and the text from the first verb on. -/
def splitPath (line : List Char) (segments : List String) : List Word → Checked (Path × Option (List Char))
  | [] => .ok (⟨segments⟩, none)
  | word :: words => do
    let bare := String.ofList (word.text.toList.dropWhile (· == '/'))
    let slashes ← subtract word.text.utf8ByteSize bare.utf8ByteSize
    if Statement.verbs.contains bare && (slashes == 0 || segments.isEmpty) then
      let (_, body) ← cut (word.offset + slashes) line
      return (⟨segments⟩, some body)
    else splitPath line (segments ++ (Text.fields (· == '/') word.text.toList).map String.ofList) words

/-- What a command text asks for. -/
def readBody (body : List Char) : Checked (Except Fault Directive) := do
  if Statement.isRefresh body then return .ok .refresh
  else
    match ← (readCommand body).run with
    | .ok command => return .ok (.edit command)
    | .error cause => return .error (.grammar cause)

/-- What a line without blanks at its ends says where `current` is the section of the last header. -/
def ofLine (current : Path) (line : List Char) : Checked (Path × Except Fault Directive) :=
  match line with
  | '#' :: comment => .ok (current, .ok (.comment (String.ofList (Text.trim comment))))
  | '/' :: _ =>
    match Text.splitWords line with
    | .error cause => .ok (current, .error (.lex cause))
    | .ok words => do
      match ← splitPath line [] words with
      | (path, none) => return (path, .ok .enter)
      | (path, some body) => return (path, ← readBody body)
  | _ => do return (current, ← readBody line)

/-- The statements of numbered lines where `current` is the section of the last header. -/
def ofLines (current : Path) : List (Nat × List Char) → Checked (List Statement)
  | [] => .ok []
  | (number, raw) :: rest => do
    let line := Text.trim raw
    if line.isEmpty then ofLines current rest
    else
      let (path, content) ← ofLine current line
      let current := match content with
        | .ok .enter => path
        | _ => current
      return { line := number, text := String.ofList line, path, content } :: (← ofLines current rest)

/-- The statements of a text. -/
def statements (text : String) : Checked (List Statement) := do
  ofLines .root (← logicalLines text.toList)

end RouterPlan.Checked
