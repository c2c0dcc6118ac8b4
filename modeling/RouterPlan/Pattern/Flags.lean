import RouterPlan.Pattern.Basic

/-!
# Flags of written patterns

Flags say what the parts of a written pattern mean: whether letters stand for both their cases, where lines end, and
whether classes go beyond ASCII. A pattern sets them by letters in a group (`Flags.read`).
-/

namespace RouterPlan.Pattern

/-- How the parts of a pattern are read. -/
structure Flags where
  /-- Letters stand for both their cases. -/
  bothCases : Bool := false
  /-- `^` and `$` hold where lines start and end. -/
  lines : Bool := false
  /-- `.` stands for line breaks too. -/
  dotBreaks : Bool := false
  /-- Carriage returns end lines too. -/
  pairs : Bool := false
  /-- Classes and words have characters beyond ASCII. -/
  wide : Bool := true
  /-- Blanks and comments between the parts mean nothing. -/
  spaced : Bool := false
deriving DecidableEq, Repr

namespace Flags

/-- The flags with one switched on or off by its letter. How eager repetitions are changes no answer. -/
def set? (flags : Flags) (on : Bool) : Char → Option Flags
  | 'i' => some { flags with bothCases := on }
  | 'm' => some { flags with lines := on }
  | 's' => some { flags with dotBreaks := on }
  | 'R' => some { flags with pairs := on }
  | 'u' => some { flags with wide := on }
  | 'x' => some { flags with spaced := on }
  | 'U' => some flags
  | _ => none

/-- Reads letters that switch flags, up to a colon or a closing parenthesis, which is left. Letters after a hyphen switch
off; none may be repeated, and the hyphen needs one after it. -/
def read (flags : Flags) (on : Bool) (seen : List Char) : List Char → Option (Flags × List Char)
  | [] => none
  | c :: cs =>
    if c = ':' ∨ c = ')' then if seen.head? = some '-' then none else some (flags, c :: cs)
    else if seen.contains c then none
    else if c = '-' then flags.read false (c :: seen) cs
    else do (← flags.set? on c).read on (c :: seen) cs

/-- The text after blanks and comments; a comment goes from a hash to the end of its line. -/
def skipSpace (inComment : Bool) : List Char → List Char
  | [] => []
  | c :: cs =>
    if inComment then skipSpace (c != '\n') cs
    else if Text.isBlank c then skipSpace false cs
    else if c = '#' then skipSpace true cs
    else c :: cs

/-- The text from the next character on that means something. -/
def skip (flags : Flags) (cs : List Char) : List Char :=
  if flags.spaced then skipSpace false cs else cs

/-- The decimal digits. -/
def decimal (flags : Flags) : CharSet :=
  if flags.wide then .decimal else .range '0' '9'

/-- The white space. -/
def blank (flags : Flags) : CharSet :=
  if flags.wide then .blank else .ofRanges [('\t', '\r'), (' ', ' ')]

/-- The characters of words. -/
def word (flags : Flags) : CharSet :=
  if flags.wide then .word else .ofRanges [('0', '9'), ('A', 'Z'), ('_', '_'), ('a', 'z')]

/-- The set, unless it has a whole complement beyond ASCII and classes have nothing there. -/
def admit? (flags : Flags) (set : CharSet) : Option CharSet :=
  if flags.wide || !set.contains '\x80' then some set else none

/-- Whether a class may name a character. -/
def admitsChar (flags : Flags) (c : Char) : Bool :=
  flags.wide || c.toNat < 0x80

/-- The set, with both cases of its letters where the flags say so. -/
def fold (flags : Flags) (set : CharSet) : CharSet :=
  if !flags.bothCases then set
  else if flags.wide then .bothCases set
  else .inter (.bothCases set) (.range '\x00' '\x7f')

/-- What a character that stands for itself matches. -/
def literal? (flags : Flags) (c : Char) : Option CharSet :=
  if flags.bothCases && !flags.admitsChar c then none else some (flags.fold (.single c))

/-- What `.` stands for. -/
def dot (flags : Flags) : CharSet :=
  if flags.dotBreaks then .any
  else if flags.pairs then .complement (.ofRanges [('\n', '\n'), ('\r', '\r')])
  else .anyInLine

/-- What `^` asserts. -/
def caret (flags : Flags) : Assertion :=
  if flags.lines then .startOfLine flags.pairs else .startOfText

/-- What `$` asserts. -/
def dollar (flags : Flags) : Assertion :=
  if flags.lines then .endOfLine flags.pairs else .endOfText

end Flags

end RouterPlan.Pattern
