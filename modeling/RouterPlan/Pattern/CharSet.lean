import RouterPlan.Text.Blank
import RouterPlan.Text.Digit
import RouterPlan.Text.LetterCase
import RouterPlan.Text.WordChar

/-!
# Sets of characters

The sets that patterns are made of. `CharSet.contains` says what is in a set, one character at a time; `CharSet.runs`
lists the same as runs of code points.
-/

namespace RouterPlan

/-- A set of characters. -/
inductive CharSet where
  | none
  | range (low high : Char)
  | decimal
  | word
  | blank
  | union (a b : CharSet)
  | inter (a b : CharSet)
  | complement (a : CharSet)
  /-- The characters of a set, and those that differ from one of them only in case. -/
  | bothCases (a : CharSet)
deriving DecidableEq, Repr

namespace CharSet

/-- The set of one character. -/
def single (c : Char) : CharSet :=
  range c c

/-- The set of a list of characters and ranges of characters. -/
def ofRanges (ranges : List (Char × Char)) : CharSet :=
  match ranges with
  | [] => none
  | (low, high) :: ranges => ranges.foldl (fun set (low, high) => union set (range low high)) (range low high)

/-- Every character. -/
def any : CharSet :=
  complement none

/-- Every character but the line feed. -/
def anyInLine : CharSet :=
  complement (single '\n')

/-- What is in the first set and not in the second. -/
def difference (a b : CharSet) : CharSet :=
  inter a (complement b)

/-- What is in one of the sets and not in the other. -/
def symmetricDifference (a b : CharSet) : CharSet :=
  union (difference a b) (difference b a)

/-- Whether a character is in the set. -/
def contains (c : Char) : CharSet → Bool
  | none => false
  | range low high => low ≤ c && c ≤ high
  | decimal => Text.isDecimal c
  | word => Text.isWordChar c
  | blank => Text.isBlank c
  | union a b => a.contains c || b.contains c
  | inter a b => a.contains c && b.contains c
  | complement a => !a.contains c
  | bothCases a => (Text.caseVariants c.toNat).any fun n => a.contains (Char.ofNat n)

/-- The code points of the set, in ascending runs. -/
def runs : CharSet → List (Nat × Nat)
  | none => []
  | range low high => if low ≤ high then [(low.toNat, high.toNat)] else []
  | decimal => Text.decimalRanges
  | word => Text.wordRanges
  | blank => Text.blankRanges
  | union a b => Text.uniteRanges a.runs b.runs
  | inter a b => Text.otherRanges (Text.uniteRanges (Text.otherRanges a.runs) (Text.otherRanges b.runs))
  | complement a => Text.otherRanges a.runs
  | bothCases a =>
    let runs := a.runs
    let cased := Text.casedCodePoints.filter fun n => (Text.caseVariants n).any (Text.inRanges · runs)
    Text.uniteRanges runs (cased.map fun n => (n, n))

end CharSet

end RouterPlan
