/-!
# Text without control sequences

A terminal obeys control characters and the sequences that an escape character starts. `withoutControls` keeps what it
would show: printable ASCII, white space and everything beyond ASCII, outside such sequences.
-/

namespace RouterPlan.Text

/-- Where in a control sequence a text stands. -/
inductive ControlPlace where
  /-- In no sequence. -/
  | outside
  /-- After the escape character. -/
  | escape
  /-- After the escape character and characters that say which set the next one is of. -/
  | designation
  /-- Among the parameters of a control sequence. -/
  | parameters
  /-- At the start of a device control string. -/
  | device
  | deviceParameters
  | deviceDesignation
  /-- In a string that the escape character or its cancelling ends. -/
  | string
  /-- In a command to the operating system, which a bell may end as well. -/
  | command
deriving DecidableEq, Repr

namespace ControlPlace

/-- Whether the code point lies in the bounds. -/
def within (low high : Nat) (c : Char) : Bool :=
  low ≤ c.toNat && c.toNat ≤ high

/-- Where the character after the escape character leads. -/
def afterEscape (c : Char) : ControlPlace :=
  if c = '[' then parameters
  else if c = ']' then command
  else if c = 'P' then device
  else if c = 'X' ∨ c = '^' ∨ c = '_' then string
  else if within 0x20 0x2F c then designation
  else if within 0x30 0x7E c then outside
  else escape

/-- Whether a byte after the first of a character beyond ASCII is the one that ends strings. -/
def endsString (c : Char) : Bool :=
  (String.utf8EncodeChar c).any (· == 0x9C)

/-- Where a character leads. The escape character starts a sequence anywhere, and two controls cancel any sequence. -/
def next (place : ControlPlace) (c : Char) : ControlPlace :=
  if c = '\x1b' then escape
  else if c = '\x18' ∨ c = '\x1a' then outside
  else
    match place with
    | outside => outside
    | escape => afterEscape c
    | designation => if within 0x30 0x7E c then outside else designation
    | parameters => if within 0x40 0x7E c then outside else parameters
    | device =>
      if within 0x20 0x2F c then deviceDesignation
      else if within 0x30 0x3F c then deviceParameters
      else if within 0x40 0x7E c then string
      else device
    | deviceParameters =>
      if within 0x20 0x2F c then deviceDesignation
      else if within 0x3C 0x7E c then string
      else deviceParameters
    | deviceDesignation => if within 0x30 0x7E c then string else deviceDesignation
    | string => if endsString c then outside else string
    | command => if c = '\x07' then outside else command

/-- Whether a character is shown at a place: white space also within a sequence that has not come to a string. -/
def shows (place : ControlPlace) (c : Char) : Bool :=
  let isSpace := c == '\t' || c == '\n' || c == '\r' || c == '\x0c'
  match place with
  | outside => isSpace || within 0x20 0x7E c || 0x80 ≤ c.toNat
  | escape => isSpace
  | designation => isSpace
  | parameters => isSpace
  | _ => false

end ControlPlace

/-- What is shown of a text that starts at `place`. While characters are `running`, one after another, each is looked at
as if it stood in no sequence. -/
def shownRuns (place : ControlPlace) (running : Bool) : List Char → List Char
  | [] => []
  | c :: cs =>
    if (if running then .outside else place : ControlPlace).shows c then
      c :: shownRuns (if 0x80 ≤ c.toNat then .outside else place) true cs
    else shownRuns (place.next c) false cs

/-- The text without its control characters and control sequences. -/
def withoutControls (text : String) : String :=
  String.ofList (shownRuns .outside false text.toList)

end RouterPlan.Text
