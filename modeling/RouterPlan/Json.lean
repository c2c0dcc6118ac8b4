/-!
# JSON texts

Documents of strings, numbers, lists and records, and their printed form: one element a line, indented by two spaces for
each level. Fields are printed in the order in which a record gives them. Only control characters, double quotes and
backslashes are escaped.
-/

namespace RouterPlan

/-- What a JSON text holds. -/
inductive Json where
  | string (text : String)
  | number (n : Nat)
  | list (items : List Json)
  | record (fields : List (String × Json))

namespace Json

/-- A control character by its number, in four digits. -/
def escapeNumber (c : Char) : List Char :=
  let digits := Nat.toDigits 16 c.toNat
  ['\\', 'u'] ++ List.replicate (4 - digits.length) '0' ++ digits

/-- A character as it stands in a string. -/
def escape (c : Char) : List Char :=
  match c with
  | '"' => ['\\', '"']
  | '\\' => ['\\', '\\']
  | '\x08' => ['\\', 'b']
  | '\x0c' => ['\\', 'f']
  | '\n' => ['\\', 'n']
  | '\r' => ['\\', 'r']
  | '\t' => ['\\', 't']
  | c => if c.toNat < 32 then escapeNumber c else [c]

/-- A string between its double quotes. -/
def stringText (text : String) : String :=
  String.ofList ('"' :: text.toList.flatMap escape ++ ['"'])

/-- A line break and the indent of a level. -/
def lineBreak (level : Nat) : String :=
  String.ofList ('\n' :: List.replicate (2 * level) ' ')

/-- Printed elements between brackets, each on a line of its own one level further in. -/
def bracketed (level : Nat) (opening closing : String) (texts : List String) : String :=
  if texts.isEmpty then opening ++ closing
  else opening ++ ",".intercalate (texts.map (lineBreak (level + 1) ++ ·)) ++ lineBreak level ++ closing

mutual

/-- The printed form of a document whose first character stands on a line of a level. -/
def textAt (level : Nat) : Json → String
  | string text => stringText text
  | number n => toString n
  | list items => bracketed level "[" "]" (itemTexts (level + 1) items)
  | record fields => bracketed level "\x7b" "\x7d" (fieldTexts (level + 1) fields)

/-- The printed items of a list on a level. -/
def itemTexts (level : Nat) : List Json → List String
  | [] => []
  | item :: items => textAt level item :: itemTexts level items

/-- The printed fields of a record on a level. -/
def fieldTexts (level : Nat) : List (String × Json) → List String
  | [] => []
  | (key, value) :: fields => (stringText key ++ ": " ++ textAt level value) :: fieldTexts level fields

end

/-- The printed form of a document. -/
def prettyText (document : Json) : String :=
  textAt 0 document

end Json

end RouterPlan
