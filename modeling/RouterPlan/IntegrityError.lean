import RouterPlan.Order
import RouterPlan.Values

/-!
# Edits that do not fit

An edit is refused when it does not fit the section it is meant for: the section is not what the edit was made for, or
the edit is not allowed in a section of that mode.
-/

namespace RouterPlan

/-- Why a section refused an edit. -/
inductive IntegrityError where
  /-- The item to put in is in the section already. -/
  | duplicateItem (path : Path) (item : Item)
  /-- The item to take out or to move is not in the section. -/
  | missingItem (path : Path) (item : Item)
  /-- No item has the index. -/
  | indexOutOfRange (path : Path) (index length : Nat)
  /-- The destination lies beyond the end of the list. -/
  | destinationOutOfRange (path : Path) (destination length : Nat)
  /-- A section of this mode puts new items at the end only. -/
  | placementNotAllowed (path : Path) (mode : OrderMode)
  /-- The order of the section's items means nothing. -/
  | moveNotAllowed (path : Path)
  /-- A list cannot be put into the order of one that has another length. -/
  | itemCountMismatch (path : Path) (length expected : Nat)
deriving DecidableEq

/-- The wording of the error. -/
def IntegrityError.message : IntegrityError → String
  | duplicateItem path item => s!"{path.text}: item already present: {item.text}"
  | missingItem path item => s!"{path.text}: item not found: {item.text}"
  | indexOutOfRange path index length => s!"{path.text}: index {index} out of range ({length} items)"
  | destinationOutOfRange path destination length =>
    s!"{path.text}: destination {destination} out of range ({length} items)"
  | placementNotAllowed path mode => s!"{path.text}: place-before is not allowed in an {mode.text} section"
  | moveNotAllowed path => s!"{path.text}: move is not allowed in an unordered section"
  | itemCountMismatch path length expected => s!"{path.text}: cannot reorder {length} item(s) into {expected}"

end RouterPlan
