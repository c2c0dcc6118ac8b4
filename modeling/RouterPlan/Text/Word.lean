import RouterPlan.Text.Blank

/-!
# Words, quotes and pairs

The words of a command line. Blanks and semicolons separate them; a double quote opens or closes quoted text, also in the
middle of a word. Outside quotes a backslash takes the next character as it is; inside quotes it does so only before a
double quote or a backslash. `quote` writes a value so that it is read back as one word, and `splitPair` cuts a word at
its first equals sign.
-/

namespace RouterPlan

/-- Why a line cannot be cut into words. -/
inductive LexError where
  /-- A double quote was opened and never closed. -/
  | unterminatedQuote
  /-- The line ends with a backslash that escapes nothing. -/
  | danglingEscape
deriving DecidableEq, Repr

/-- The wording of the error. -/
def LexError.message : LexError → String
  | unterminatedQuote => "unterminated quoted string"
  | danglingEscape => "dangling escape character at end of line"

/-- One word of a line. -/
structure Word where
  /-- The word without its quotes and escapes. -/
  text : String
  /-- How many bytes of the line stand before the word, in UTF-8. -/
  offset : Nat
deriving DecidableEq, Repr

namespace Word

/-- The empty word that starts at `offset`. -/
def startingAt (offset : Nat) : Word :=
  ⟨"", offset⟩

/-- The word with one more character. -/
def push (word : Word) (c : Char) : Word :=
  { word with text := word.text.push c }

end Word

namespace Text

/-- What separates words outside quotes. -/
def isSeparator (c : Char) : Bool :=
  isBlank c || c == ';'

/-- Where a scan for words stands: between two words, in a word, or inside the quotes of a word. -/
inductive Scan where
  | between
  | inside (word : Word)
  | quoted (word : Word)
deriving DecidableEq, Repr

/-- The word that a character at `pos` belongs to. -/
def Scan.word (pos : Nat) : Scan → Word
  | between => .startingAt pos
  | inside word => word
  | quoted word => word

/-- The word that ends here, if one is open. -/
def Scan.finished : Scan → List Word
  | between => []
  | inside word => [word]
  | quoted word => [word]

/-- The words from `pos` on, the open one included. -/
def scanWords (pos : Nat) : Scan → List Char → Except LexError (List Word)
  | .quoted _, [] => .error .unterminatedQuote
  | .quoted word, '"' :: cs => scanWords (pos + 1) (.inside word) cs
  | .quoted word, '\\' :: '"' :: cs => scanWords (pos + 2) (.quoted (word.push '"')) cs
  | .quoted word, '\\' :: '\\' :: cs => scanWords (pos + 2) (.quoted (word.push '\\')) cs
  | .quoted word, c :: cs => scanWords (pos + c.utf8Size) (.quoted (word.push c)) cs
  | scan, [] => .ok scan.finished
  | scan, '"' :: cs => scanWords (pos + 1) (.quoted (scan.word pos)) cs
  | _, ['\\'] => .error .danglingEscape
  | scan, '\\' :: c :: cs => scanWords (pos + 1 + c.utf8Size) (.inside ((scan.word pos).push c)) cs
  | scan, c :: cs =>
    if isSeparator c then do
      let rest ← scanWords (pos + c.utf8Size) .between cs
      return scan.finished ++ rest
    else scanWords (pos + c.utf8Size) (.inside ((scan.word pos).push c)) cs

/-- The words of a line, each with the byte offset where it starts. -/
def splitWords (cs : List Char) : Except LexError (List Word) :=
  scanWords 0 .between cs

/-- The text after the first `n` bytes of UTF-8. A character that the cut would split is left out. -/
def dropBytes : Nat → List Char → List Char
  | _, [] => []
  | 0, cs => cs
  | n + 1, c :: cs => dropBytes (n + 1 - c.utf8Size) cs

/-- Whether a value is read back as one word only between quotes. -/
def needsQuotes (value : String) : Bool :=
  value.isEmpty || value.toList.any (fun c => isSeparator c || c == '"' || c == '\\')

/-- A character as it stands between quotes. -/
def escapeQuoted (c : Char) : List Char :=
  if c = '"' ∨ c = '\\' then ['\\', c] else [c]

/-- The value as one word, between quotes where it has to be. -/
def quote (value : String) : String :=
  if needsQuotes value then String.ofList ('"' :: value.toList.flatMap escapeQuoted ++ ['"']) else value

/-- The key and the value of a word, cut at its first equals sign. The key is not empty; the value is trimmed and may
hold further equals signs. -/
def splitPair (word : String) : Option (String × String) :=
  match word.toList.span (· != '=') with
  | (key, '=' :: value) => if key.isEmpty then none else some (String.ofList key, String.ofList (trim value))
  | _ => none

end Text

end RouterPlan
