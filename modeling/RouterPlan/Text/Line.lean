import RouterPlan.Text.Blank

/-!
# Physical and logical lines

A text is cut into lines at line feeds; a carriage return right before a line feed belongs to the line break. An export
wraps long lines: a line that ends in a backslash goes on in the next one if that one starts with four spaces.
`logicalLines` undoes the wrapping and numbers each line by its first physical line, from 1.
-/

namespace RouterPlan.Text

/-- The physical lines of a text. A line feed at the very end starts no further line. -/
def lines : List Char → List (List Char)
  | [] => []
  | '\r' :: '\n' :: cs => [] :: lines cs
  | '\n' :: cs => [] :: lines cs
  | c :: cs =>
    match lines cs with
    | [] => [[c]]
    | line :: rest => (c :: line) :: rest

/-- The blanks that a wrapped line starts with where it goes on. -/
def continuationIndent : List Char :=
  [' ', ' ', ' ', ' ']

/-- The line that `line` and the physical line after it make together, if `line` goes on there. -/
def continued? (line next : List Char) : Option (List Char) :=
  if line.getLast? = some '\\' ∧ continuationIndent.isPrefixOf next then
    some (line.dropLast ++ next.drop continuationIndent.length)
  else none

/-- The logical lines of `line`, which started at physical line `first`, and of the physical lines after it, the next of
which is number `next`. A joined line is tested again, so it may go on over any number of lines. -/
def joinWrapped (first : Nat) (line : List Char) (next : Nat) : List (List Char) → List (Nat × List Char)
  | [] => [(first, line)]
  | physical :: rest =>
    match continued? line physical with
    | some joined => joinWrapped first joined (next + 1) rest
    | none => (first, line) :: joinWrapped next physical (next + 1) rest

/-- The logical lines of a text, each with the number of its first physical line. -/
def logicalLines (cs : List Char) : List (Nat × List Char) :=
  match lines cs with
  | [] => []
  | line :: rest => joinWrapped 1 line 2 rest

end RouterPlan.Text
