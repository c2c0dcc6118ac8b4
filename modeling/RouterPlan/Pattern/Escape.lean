import RouterPlan.Pattern.Flags

/-!
# Escapes in patterns

What a backslash and the characters after it stand for: a character, a set of characters or an assertion.
-/

namespace RouterPlan.Pattern

/-- What a backslash and the characters after it mean. -/
inductive Escape where
  | literal (c : Char)
  | set (s : CharSet)
  | assertion (a : Assertion)
deriving DecidableEq, Repr

namespace Escape

/-- Control characters that are written by a letter. -/
def controlLetters : List (Char × Char) :=
  [('n', '\n'), ('t', '\t'), ('r', '\r'), ('a', '\x07'), ('f', '\x0c'), ('v', '\x0b')]

/-- Sets that are written by a letter. -/
def setLetters (flags : Flags) : List (Char × CharSet) :=
  [('d', flags.decimal), ('D', .complement flags.decimal), ('w', flags.word), ('W', .complement flags.word),
    ('s', flags.blank), ('S', .complement flags.blank)]

/-- Assertions that are written by a letter or an angle bracket. -/
def assertionLetters (flags : Flags) : List (Char × Assertion) :=
  [('A', .startOfText), ('z', .endOfText), ('b', .border .either flags.word), ('B', .border .neither flags.word),
    ('<', .border .start flags.word), ('>', .border .stop flags.word)]

/-- Borders that are written by a name. -/
def borderNames : List (String × WordBorder) :=
  [("start", .start), ("end", .stop), ("start-half", .notAfterWord), ("end-half", .notBeforeWord)]

/-- How many hexadecimal digits a letter takes. -/
def hexWidths : List (Char × Nat) :=
  [('x', 2), ('u', 4), ('U', 8)]

/-- A count of hexadecimal digits, and the text after them. -/
def readDigits (flags : Flags) : Nat → List Char → Option (List Char × List Char)
  | 0, cs => some ([], cs)
  | n + 1, cs =>
    match flags.skip cs with
    | [] => none
    | digit :: rest => do
      let (digits, rest) ← readDigits flags n rest
      return (digit :: digits, rest)

/-- A character written by its number, which has `width` digits or stands in braces. -/
def readHex (flags : Flags) (width : Nat) (cs : List Char) : Option (Escape × List Char) := do
  let (digits, rest) ←
    match flags.skip cs with
    | '{' :: cs =>
      match cs.span (· != '}') with
      | (digits, _ :: rest) => some (if flags.spaced then digits.filter (!Text.isBlank ·) else digits, rest)
      | (_, []) => none
    | cs => readDigits flags width cs
  if digits.isEmpty then none else return (.literal (← Text.charOfHex? digits), rest)

/-- The name of a border in braces, if there is one, and the text after it. Braces with anything but a letter or a hyphen
in front are no name. -/
def readBorder (flags : Flags) (cs : List Char) : Option (WordBorder × List Char) :=
  let isNameChar (c : Char) : Bool := c.isAlpha || c == '-'
  match cs with
  | '{' :: inside =>
    let inside := flags.skip inside
    let name := inside.takeWhile isNameChar
    if name.isEmpty then some (.either, cs)
    else
      match flags.skip (inside.dropWhile isNameChar) with
      | '}' :: rest => (borderNames.lookup (String.ofList name)).map (·, rest)
      | _ => none
  | _ => some (.either, cs)

/-- Reads what follows a backslash. ASCII letters and digits without a meaning of their own cannot be escaped, and neither
can characters beyond ASCII. -/
def read (flags : Flags) : List Char → Option (Escape × List Char)
  | [] => none
  | c :: cs =>
    match hexWidths.lookup c, controlLetters.lookup c, (setLetters flags).lookup c, (assertionLetters flags).lookup c with
    | some width, _, _, _ => readHex flags width cs
    | _, some control, _, _ => some (.literal control, cs)
    | _, _, some chars, _ => (flags.admit? chars).map fun chars => (.set chars, cs)
    | _, _, _, some a =>
      if c = 'b' then (readBorder flags cs).map fun (kind, rest) => (.assertion (.border kind flags.word), rest)
      else some (.assertion a, cs)
    | _, _, _, _ => if c.isAlphanum || 0x80 ≤ c.toNat then none else some (.literal c, cs)

end Escape

end RouterPlan.Pattern
