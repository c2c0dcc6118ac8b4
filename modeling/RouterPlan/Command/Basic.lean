import RouterPlan.Identifier
import RouterPlan.IntegrityError

/-!
# Edit commands

The four edits of a section, and what they do to the numbers by which a device knows the items of a list.
-/

namespace RouterPlan

/-- The word that a command starts with. -/
inductive Keyword where
  | add
  | remove
  | move
  | set
deriving DecidableEq, Repr

namespace Keyword

/-- The keyword as it is written. -/
def text : Keyword → String
  | add => "add"
  | remove => "remove"
  | move => "move"
  | set => "set"

/-- Every keyword. -/
def all : List Keyword :=
  [add, remove, move, set]

/-- The keyword that a word writes. -/
def ofText? (word : String) : Option Keyword :=
  all.find? (·.text == word)

/-- Writing a keyword and reading it gives it back. -/
theorem ofText?_text (keyword : Keyword) : ofText? keyword.text = some keyword := by
  cases keyword <;> decide

end Keyword

/-- One edit of a section. Positions count from zero in the list of items as it stands when the command runs. -/
inductive Command where
  /-- Put in an item, before the one at a position or at the end. -/
  | add (values : Values) (before : Option Nat)
  /-- Take out the item at a position. -/
  | remove (index : Nat)
  /-- Take the item at a position to before the one that stood at another, or to the end. -/
  | move (index : Nat) (before : Option Nat)
  /-- Set values of what the identifier names. -/
  | set (target : Identifier) (values : Values)
deriving DecidableEq

namespace Command

/-- The keyword of the command. -/
def keyword : Command → Keyword
  | add .. => .add
  | remove .. => .remove
  | move .. => .move
  | set .. => .set

/-- Whether the command names an item by its current position. -/
def requiresFreshIndices : Command → Bool
  | add _ before => before.isSome
  | remove _ => true
  | move .. => true
  | set target _ => target.isNumber

/-- Whether the command changes the positions of items that were there before it. -/
def invalidatesIndices : Command → Bool
  | add _ before => before.isSome
  | remove _ => true
  | move .. => true
  | set .. => false

/-- Refuses a positional command that the mode of its section does not allow. -/
def checkAllowed (command : Command) (path : Path) (mode : OrderMode) : Except IntegrityError Unit :=
  match command with
  | add _ (some _) => if mode.allowsPlacement then .ok () else .error (.placementNotAllowed path mode)
  | move .. => if mode.isOrdered then .ok () else .error (.moveNotAllowed path)
  | _ => .ok ()

/-- The command as it is written. -/
def text : Command → String
  | add values none => s!"add {values.text}"
  | add values (some before) => s!"add {values.text} place-before={before}"
  | remove index => s!"remove {index}"
  | move index none => s!"move {index}"
  | move index (some before) => s!"move {index} {before}"
  | set .itself values => s!"set {values.text}"
  | set target values => s!"set {target.text} {values.text}"

end Command

end RouterPlan
