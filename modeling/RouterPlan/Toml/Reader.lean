import RouterPlan.Toml.Scalar
import RouterPlan.Toml.Value

/-!
# Reading TOML

A document is a list of lines: headers of tables, headers of arrays of tables, and keys with values. Reading gives the
table of the whole document, or nothing where the text is not well formed. Values may stand within values, and keys may
have parts, up to a limit (`depthLimit`). Reading takes a bound on its steps; the length of the text is enough (`read?`).

The reader stands in for the package that reads TOML when a program runs. No result depends on what it makes of a text.
-/

namespace RouterPlan.Toml

/-- The mark around a text that has escapes. -/
def basicMark : Char :=
  '"'

/-- The mark around a text that has none. -/
def literalMark : Char :=
  '\x27'

/-- Whether a character may stand as it is in a comment or in a text of one line. -/
def isPlain (c : Char) : Bool :=
  c == '\t' || (32 ≤ c.toNat && c.toNat != 127)

/-- The text after the blanks of its line. -/
def skipBlanks : List Char → List Char
  | ' ' :: cs => skipBlanks cs
  | '\t' :: cs => skipBlanks cs
  | cs => cs

/-- The text after blanks, line breaks and comments. -/
def skipLines (inComment : Bool) : List Char → Option (List Char)
  | [] => some []
  | '\n' :: cs => skipLines false cs
  | '\r' :: '\n' :: cs => skipLines false cs
  | c :: cs =>
    if inComment then if isPlain c then skipLines true cs else none
    else if c = '#' then skipLines true cs
    else if c = ' ' ∨ c = '\t' then skipLines false cs
    else some (c :: cs)

/-- Whether nothing but a comment stands on the rest of the line, and the text from the line break on. -/
def endLine (inComment : Bool) : List Char → Option (List Char)
  | [] => some []
  | '\n' :: cs => some ('\n' :: cs)
  | '\r' :: '\n' :: cs => some ('\n' :: cs)
  | c :: cs =>
    if inComment then if isPlain c then endLine true cs else none
    else if c = '#' then endLine true cs
    else if c = ' ' ∨ c = '\t' then endLine false cs
    else none

/-- Characters that are escaped by a letter. -/
def escapeLetters : List (Char × Char) :=
  [('b', '\x08'), ('t', '\t'), ('n', '\n'), ('f', '\x0c'), ('r', '\r'), ('"', '"'), ('\\', '\\')]

/-- Whether only blanks are left of the line. -/
def isLineEnd (cs : List Char) : Bool :=
  match skipBlanks cs with
  | '\n' :: _ => true
  | '\r' :: '\n' :: _ => true
  | _ => false

/-- The marks that belong to the text before its closing marks, and what follows those, if the text closes here. -/
def closing? (mark : Char) (multiline : Bool) (cs : List Char) : Option (List Char × List Char) :=
  let marks := (cs.takeWhile (· == mark)).length
  if multiline then
    if marks < 3 then none
    else
      let extra := min (marks - 3) 2
      some (List.replicate extra mark, cs.drop (extra + 3))
  else if marks = 0 then none
  else some ([], cs.drop 1)

/-- A text up to its closing marks, and what follows them. While `skipping`, blanks and line breaks are passed over, as
they are after a backslash that ends a line. -/
def readText (mark : Char) (multiline skipping : Bool) : List Char → Option (List Char × List Char)
  | [] => none
  | c :: cs =>
    let more (front : List Char) (read : Option (List Char × List Char)) : Option (List Char × List Char) :=
      read.map fun (text, rest) => (front ++ text, rest)
    if skipping && (c == ' ' || c == '\t' || c == '\n' || (c == '\r' && cs.head? == some '\n')) then
      readText mark multiline true cs
    else
      match closing? mark multiline (c :: cs) with
      | some closed => some closed
      | none =>
        if c = '\\' ∧ mark = basicMark then
          match cs with
          | 'u' :: d₁ :: d₂ :: d₃ :: d₄ :: cs => do
            let c ← Text.charOfHex? [d₁, d₂, d₃, d₄]
            more [c] (readText mark multiline false cs)
          | 'U' :: d₁ :: d₂ :: d₃ :: d₄ :: d₅ :: d₆ :: d₇ :: d₈ :: cs => do
            let c ← Text.charOfHex? [d₁, d₂, d₃, d₄, d₅, d₆, d₇, d₈]
            more [c] (readText mark multiline false cs)
          | [] => none
          | letter :: rest =>
            match escapeLetters.lookup letter with
            | some c => more [c] (readText mark multiline false rest)
            | none =>
              if multiline && isLineEnd (letter :: rest) then readText mark multiline true rest else none
        else if isPlain c then more [c] (readText mark multiline false cs)
        else if multiline && c == '\n' then more ['\n'] (readText mark multiline false cs)
        else if multiline && c == '\r' && cs.head? == some '\n' then readText mark multiline false cs
        else none

/-- A text of one line after its opening mark. -/
def readLineText (mark : Char) (cs : List Char) : Option (String × List Char) :=
  (readText mark false false cs).map fun (text, rest) => (String.ofList text, rest)

/-- A text after its opening mark, which may be the first of three. A line break right after three marks is dropped. -/
def readAnyText (mark : Char) (cs : List Char) : Option (String × List Char) :=
  if [mark, mark].isPrefixOf cs then
    let cs := match cs.drop 2 with
      | '\n' :: cs => cs
      | '\r' :: '\n' :: cs => cs
      | cs => cs
    (readText mark true false cs).map fun (text, rest) => (String.ofList text, rest)
  else readLineText mark cs

/-- What may stand in a key without marks. -/
def isBareKey (c : Char) : Bool :=
  c.isAlphanum || c == '_' || c == '-'

/-- One key, and the text after it. -/
def readKey (cs : List Char) : Option (String × List Char) :=
  match cs with
  | [] => none
  | c :: rest =>
    if c = basicMark ∨ c = literalMark then readLineText c rest
    else
      let (key, rest) := cs.span isBareKey
      if key.isEmpty then none else some (String.ofList key, rest)

/-- How many arrays and tables may stand in one another, and how many parts a key may have. -/
def depthLimit : Nat :=
  79

/-- A dotted key of at most `limit` parts, and the text after it and its blanks. -/
def readParts : Nat → List Char → Option (List String × List Char)
  | 0, _ => none
  | limit + 1, cs => do
    let (key, rest) ← readKey (skipBlanks cs)
    match skipBlanks rest with
    | '.' :: rest => do
      let (keys, rest) ← readParts limit rest
      return (key :: keys, rest)
    | rest => return ([key], rest)

/-- A dotted key, and the text after it and its blanks. -/
def readKeys (cs : List Char) : Option (List String × List Char) :=
  readParts depthLimit cs

/-- What may stand in a scalar. -/
def isScalarChar (c : Char) : Bool :=
  isBareKey c || c == '+' || c == '.' || c == ':'

/-- A scalar, and the text after it. A date and a time may have a blank between them. -/
def readScalar (cs : List Char) : Option (Value × List Char) :=
  let (run, rest) := cs.span isScalarChar
  let (run, rest) := match rest with
    | ' ' :: c :: rest' =>
      if isDate run && c.isDigit then
        let (time, rest') := (c :: rest').span isScalarChar
        (run ++ ' ' :: time, rest')
      else (run, rest)
    | _ => (run, rest)
  if isScalar run then some (.scalar, rest) else none

mutual

/-- A value, in which `room` arrays and tables may stand in one another, and the text after it. -/
def readValue : Nat → Nat → List Char → Option (Value × List Char)
  | 0, _, _ => none
  | _, _, [] => none
  | bound + 1, room, c :: cs =>
    if c = '[' then
      if room = 0 then none
      else (readItems bound (room - 1) cs).map fun (items, rest) => (.array items, rest)
    else if c = '{' then
      if room = 0 then none
      else
        match skipBlanks cs with
        | '}' :: rest => some (.inline [], rest)
        | cs => (readFields bound (room - 1) [] cs).map fun (fields, rest) => (.inline fields, rest)
    else if c = basicMark ∨ c = literalMark then
      (readAnyText c cs).map fun (text, rest) => (.text text, rest)
    else readScalar (c :: cs)

/-- The rest of an array after its bracket or a comma, and the text after it. -/
def readItems : Nat → Nat → List Char → Option (List Value × List Char)
  | 0, _, _ => none
  | bound + 1, room, cs => do
    match ← skipLines false cs with
    | ']' :: rest => return ([], rest)
    | cs =>
      let (item, rest) ← readValue bound room cs
      match ← skipLines false rest with
      | ']' :: rest => return ([item], rest)
      | ',' :: rest =>
        let (items, rest) ← readItems bound room rest
        return (item :: items, rest)
      | _ => none

/-- The rest of a table in line, whose fields so far are `fields`, and the text after it. -/
def readFields : Nat → Nat → Table → List Char → Option (Table × List Char)
  | 0, _, _, _ => none
  | bound + 1, room, fields, cs => do
    let (keys, '=' :: rest) ← readKeys cs | none
    let (value, rest) ← readValue bound room (skipBlanks rest)
    let fields ← fields.define keys value
    match skipBlanks rest with
    | '}' :: rest => return (fields, rest)
    | ',' :: rest => readFields bound room fields rest
    | _ => none

end

/-- A document under construction: all of it, and the table that the last header opened. -/
structure Draft where
  document : Table := []
  current : List String := []

namespace Draft

/-- The draft after a key with its value. -/
def define (draft : Draft) (keys : List String) (value : Value) : Option Draft := do
  let document ← draft.document.editAt false (·.define keys value) draft.current
  return { draft with document }

/-- The draft after the header of a table. -/
def openHeader (draft : Draft) (keys : List String) : Option Draft := do
  return { document := ← draft.document.openHeader keys, current := keys }

/-- The draft after the header of a table in an array of tables. -/
def appendHeader (draft : Draft) (keys : List String) : Option Draft := do
  return { document := ← draft.document.appendHeader keys, current := keys }

/-- The draft after one line that says something, and the text from its end on; a value is read in at most `bound` steps.
-/
def readLine (bound : Nat) (draft : Draft) (cs : List Char) : Option (Draft × List Char) :=
  match cs with
  | '[' :: '[' :: cs => do
    let (keys, ']' :: ']' :: rest) ← readKeys cs | none
    return (← draft.appendHeader keys, rest)
  | '[' :: cs => do
    let (keys, ']' :: rest) ← readKeys cs | none
    return (← draft.openHeader keys, rest)
  | cs => do
    let (keys, '=' :: rest) ← readKeys cs | none
    let (value, rest) ← readValue bound depthLimit (skipBlanks rest)
    return (← draft.define keys value, rest)

/-- The document of a draft and of at most `bound` lines after it. -/
def readLines : Nat → Draft → List Char → Option Table
  | 0, _, _ => none
  | bound + 1, draft, cs => do
    match ← skipLines false cs with
    | [] => return draft.document
    | cs =>
      let (draft, rest) ← draft.readLine (cs.length + 1) cs
      readLines bound draft (← endLine false rest)

end Draft

/-- The document that a text holds, if it is well formed. -/
def read? (text : String) : Option Table :=
  let cs := match text.toList with
    | '\ufeff' :: cs => cs
    | cs => cs
  Draft.readLines (cs.length + 1) {} cs

end RouterPlan.Toml
