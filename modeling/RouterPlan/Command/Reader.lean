import RouterPlan.Command.Basic
import RouterPlan.Text.Escaped

/-!
# Reading commands

A command line is a keyword and its arguments: `add` and `set` take pairs, `remove` an index, `move` an index and a
destination. What `set` is about is a locator in brackets, a word without an equals sign, or nothing.
-/

namespace RouterPlan

/-- Why a line is no command. -/
inductive GrammarError where
  /-- There is nothing but blanks. -/
  | empty
  /-- The line does not start with a keyword. -/
  | unknownCommand (word : String)
  /-- The line cannot be split into words. -/
  | lex (cause : LexError)
  /-- The keyword has less after it than it needs. -/
  | missingArgument (keyword : Keyword)
  /-- A word stands where a key with a value has to. -/
  | notAPair (word : String)
  /-- A word stands where an index has to. -/
  | invalidIndex (word : String)
  /-- There is one word more than the keyword takes. -/
  | unexpectedArgument (word : String)
  /-- A locator is opened and never closed. -/
  | unterminatedLocator
deriving DecidableEq, Repr

/-- The wording of the error. -/
def GrammarError.message : GrammarError → String
  | empty => "empty command"
  | unknownCommand word => "unknown command " ++ Text.shown word
  | lex cause => cause.message
  | missingArgument keyword => "`" ++ keyword.text ++ "` needs more arguments"
  | notAPair word => "expected key=value, found " ++ Text.shown word
  | invalidIndex word => "invalid index " ++ Text.shown word
  | unexpectedArgument word => "unexpected argument " ++ Text.shown word
  | unterminatedLocator => "unterminated [ ... ] locator"

namespace Command

/-- The words of an argument text. -/
def readWords (cs : List Char) : Except GrammarError (List String) :=
  match Text.splitWords cs with
  | .ok words => .ok (words.map (·.text))
  | .error cause => .error (.lex cause)

/-- The key and the value that a word writes. -/
def readPair (word : String) : Except GrammarError (String × String) :=
  match Text.splitPair word with
  | some pair => .ok pair
  | none => .error (.notAPair word)

/-- The values that a list of words writes; the last word of a key counts. -/
def readValues (words : List String) : Except GrammarError Values := do
  return .ofList (← words.mapM readPair)

/-- The index that a word writes. -/
def readIndex (word : String) : Except GrammarError Nat :=
  match Text.readIndex word with
  | some index => .ok index
  | none => .error (.invalidIndex word)

/-- The key under which `add` takes the position to insert at. -/
def placementKey : String :=
  "place-before"

/-- The arguments of `add`. -/
def readAdd (cs : List Char) : Except GrammarError Command := do
  let pairs ← readValues (← readWords cs)
  let before ← (pairs.get? placementKey).mapM readIndex
  let values := pairs.erase placementKey
  if values.isEmpty then .error (.missingArgument .add) else return add values before

/-- The arguments of `remove`. -/
def readRemove (cs : List Char) : Except GrammarError Command := do
  match ← readWords cs with
  | [] => .error (.missingArgument .remove)
  | [word] => return remove (← readIndex word)
  | _ :: extra :: _ => .error (.unexpectedArgument extra)

/-- The destination that a word of `move` writes, bare or as a pair. -/
def readDestination (word : String) : Except GrammarError Nat :=
  match Text.splitPair word with
  | some ("destination", value) => readIndex value
  | _ => readIndex word

/-- The arguments of `move`. -/
def readMove (cs : List Char) : Except GrammarError Command := do
  match ← readWords cs with
  | [] => .error (.missingArgument .move)
  | word :: words =>
    let index ← readIndex word
    match words with
    | [] => return move index none
    | word :: words =>
      let before ← readDestination word
      match words with
      | [] => return move index (some before)
      | extra :: _ => .error (.unexpectedArgument extra)

/-- A text cut after the bracket that closes its locator, which is open `depth` deep and inside quotes or not. Brackets
inside quotes and whatever a backslash precedes do not count. -/
def splitLocator (depth : Nat) (quoted : Bool) : List Char → Option (List Char × List Char)
  | [] => none
  | ['\\'] => none
  | '\\' :: c :: cs => (splitLocator depth quoted cs).map fun (locator, rest) => ('\\' :: c :: locator, rest)
  | c :: cs =>
    let quoted := if c = '"' then !quoted else quoted
    let depth := if quoted then depth else if c = '[' then depth + 1 else if c = ']' then depth - 1 else depth
    if c = ']' ∧ !quoted ∧ depth = 0 then some ([c], cs)
    else (splitLocator depth quoted cs).map fun (locator, rest) => (c :: locator, rest)

/-- What `set` is about, if its words say so, and the words after that. -/
def takeIdentifier : List String → Identifier × List String
  | [] => (.itself, [])
  | word :: words => if word.contains '=' then (.itself, word :: words) else (.ofWord word, words)

/-- The target of `set` and the words of its values. -/
def readTarget (cs : List Char) : Except GrammarError (Identifier × List String) := do
  if cs.head? = some '[' then
    match splitLocator 0 false cs with
    | none => .error .unterminatedLocator
    | some (locator, rest) => return (.locator (String.ofList locator), ← readWords rest)
  else return takeIdentifier (← readWords cs)

/-- The arguments of `set`. -/
def readSet (cs : List Char) : Except GrammarError Command := do
  let (target, words) ← readTarget (Text.trimStart cs)
  let values ← readValues words
  if values.isEmpty then .error (.missingArgument .set) else return set target values

/-- The command on a line. -/
def ofChars (line : List Char) : Except GrammarError Command :=
  let line := Text.trim line
  if line.isEmpty then .error .empty
  else
    let (word, rest) := line.span (!Text.isSeparator ·)
    match Keyword.ofText? (String.ofList word) with
    | some .add => readAdd rest
    | some .remove => readRemove rest
    | some .move => readMove rest
    | some .set => readSet rest
    | none => .error (.unknownCommand (String.ofList word))

/-- The command that a text writes. -/
def ofText (text : String) : Except GrammarError Command :=
  ofChars text.toList

end Command

end RouterPlan
