import RouterPlan.Text.Blank
import RouterPlan.Text.Digit
import RouterPlan.Text.WordChar

/-!
# The version in an export header

The comment at the head of an export names the system and its version, as in `by RouterOS 7.12.1`. The first such mention
in a comment counts: the name, blanks, perhaps a `v`, and a version, which starts with a digit.
-/

namespace RouterPlan.Version

/-- The name of the system, as headers spell it. -/
def systemName : String :=
  "RouterOS"

/-- What a version may hold after its first digit. -/
def isVersionChar (c : Char) : Bool :=
  Text.isWordChar c || c == '.' || c == '-'

/-- The version at the start of a text, after its optional `v`. -/
def leading? (cs : List Char) : Option (List Char) :=
  match if cs.head? = some 'v' then cs.drop 1 else cs with
  | [] => none
  | c :: cs => if Text.isDecimal c then some (c :: cs.takeWhile isVersionChar) else none

/-- The version of a mention that starts the text. -/
def mentioned? (cs : List Char) : Option (List Char) :=
  let name := systemName.toList
  let rest := cs.drop name.length
  if name.isPrefixOf cs && (rest.head?.any Text.isBlank) then leading? (Text.trimStart rest) else none

/-- The version of the first mention in a text. -/
def search : List Char → Option (List Char)
  | [] => none
  | c :: cs => (mentioned? (c :: cs)).or (search cs)

/-- The version that a comment gives, if it gives one. -/
def inComment? (comment : String) : Option String :=
  (search comment.toList).map String.ofList

end RouterPlan.Version
