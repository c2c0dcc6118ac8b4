import RouterPlan.Pattern.CharSet

/-!
# Patterns

A pattern describes a set of texts, in the manner of regular expressions: sets of characters, assertions about a place
in the text, sequences, alternatives and bounded or unbounded repetition.
-/

namespace RouterPlan

/-- Where words start and end, as seen from between two characters. -/
inductive WordBorder where
  /-- A word starts or ends. -/
  | either
  /-- No word starts or ends. -/
  | neither
  | start
  | stop
  /-- No word goes on from before. -/
  | notAfterWord
  /-- No word goes on from here. -/
  | notBeforeWord
deriving DecidableEq, Repr

namespace WordBorder

/-- Whether the border is there, given whether the characters before and after belong to words. -/
def holds (before after : Bool) : WordBorder → Bool
  | either => before != after
  | neither => before == after
  | start => !before && after
  | stop => before && !after
  | notAfterWord => !before
  | notBeforeWord => !after

end WordBorder

/-- A statement about a place in a text, which takes up no character. -/
inductive Assertion where
  | startOfText
  | endOfText
  /-- A line starts; `pairs` says that a carriage return ends a line too, unless a line feed follows it. -/
  | startOfLine (pairs : Bool)
  /-- A line ends, in the same sense. -/
  | endOfLine (pairs : Bool)
  /-- There is a border of words, which are words in the sense of the set. -/
  | border (kind : WordBorder) (words : CharSet)
deriving DecidableEq, Repr

namespace Assertion

/-- Whether the statement holds between two characters; a missing one is an end of the text. -/
def holds (before after : Option Char) : Assertion → Bool
  | startOfText => before.isNone
  | endOfText => after.isNone
  | startOfLine pairs =>
    before.isNone || before == some '\n' || (pairs && before == some '\r' && after != some '\n')
  | endOfLine pairs =>
    after.isNone || (pairs && after == some '\r') || (after == some '\n' && !(pairs && before == some '\r'))
  | border kind words => kind.holds (before.any words.contains) (after.any words.contains)

end Assertion

/-- A description of texts. -/
inductive Pattern where
  | empty
  | assert (assertion : Assertion)
  | one (set : CharSet)
  | seq (first second : Pattern)
  | alt (left right : Pattern)
  /-- At least `low` and at most `high` times in a row, if there is an upper bound. -/
  | rep (body : Pattern) (low : Nat) (high : Option Nat)
  /-- The same texts as the body; `captures` says that the place of the group is remembered. -/
  | group (captures : Bool) (body : Pattern)
deriving DecidableEq, Repr

end RouterPlan
