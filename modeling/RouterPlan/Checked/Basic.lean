import RouterPlan.Text.Digit

/-!
# Steps that may stop

Some steps are not possible everywhere. A text is cut between two characters or not at all, a list has the positions up to its length
and no others, and a number of a machine is neither below zero nor of more than 64 bits. Here such steps say when they stop.

The programs of this folder take them in the places where the library does the same with lists of characters and unbounded numbers.
That they give what the library gives, and so never stop, is a matter of proof.
-/

namespace RouterPlan

/-- Why a program stops. -/
inductive Stop where
  /-- A text is cut within a character or past its end. -/
  | cut
  /-- A list has no such position. -/
  | position
  /-- A number gets below zero. -/
  | underflow
  /-- A number gets too large for a word of the machine. -/
  | overflow
  /-- A list is longer than what memory holds. -/
  | memory
deriving DecidableEq, Repr

/-- What a program gives unless it stops. -/
abbrev Checked (α : Type) :=
  Except Stop α

namespace Checked

variable {α : Type}

/-- The text before a byte offset in UTF-8, and the text from there on. -/
def cut : Nat → List Char → Checked (List Char × List Char)
  | 0, cs => .ok ([], cs)
  | _ + 1, [] => .error .cut
  | offset + 1, c :: cs =>
    if c.utf8Size ≤ offset + 1 then do
      let (before, rest) ← cut (offset + 1 - c.utf8Size) cs
      return (c :: before, rest)
    else .error .cut

/-- One number less another. -/
def subtract (n m : Nat) : Checked Nat :=
  if m ≤ n then .ok (n - m) else .error .underflow

/-- The next number. -/
def increment (n : Nat) : Checked Nat :=
  if n + 1 < Text.indexBound then .ok (n + 1) else .error .overflow

/-- No memory holds a list as long as this, 2 ^ 63. -/
def lengthBound : Nat :=
  0x8000000000000000

/-- The length of a list. -/
def length (l : List α) : Checked Nat :=
  if l.length < lengthBound then .ok l.length else .error .memory

/-- The entry of a list at a position. -/
def entryAt (l : List α) (index : Nat) : Checked α :=
  match l[index]? with
  | some a => .ok a
  | none => .error .position

/-- The list with an entry put in before a position, which may be the end. -/
def insertAt (l : List α) (index : Nat) (a : α) : Checked (List α) :=
  if index ≤ l.length then .ok (l.insertIdx index a) else .error .position

/-- The list without the entry at a position. -/
def removeAt (l : List α) (index : Nat) : Checked (List α) :=
  if index < l.length then .ok (l.eraseIdx index) else .error .position

end Checked

end RouterPlan
