import RouterPlan.Listing
import RouterPlan.Register

/-!
# Walking a register

The sections of a register in document order, as the links lead to them. A walk keeps the numbers that are still to be passed on a
stack and starts with the root. Numbers and links could be such that it never ends or passes a section twice; that it does not is a
matter of proof. So a walk is counted in turns, and gives its numbers only if it ends within them.
-/

namespace RouterPlan.Register

/-- The numbers passed when the stack is empty at last, if it is after so many turns. In a turn the number on top is passed, and the
numbers below it in the register take its place, the first one uppermost. -/
def walk (r : Register) : Nat → List Nat → List Nat → Option (List Nat)
  | _, passed, [] => some passed
  | 0, _, _ :: _ => none
  | turns + 1, passed, id :: stack => r.walk turns (passed ++ [id]) ((r.place id).children ++ stack)

/-- A walk with an empty stack is at its end. -/
theorem walk_nil (r : Register) (turns : Nat) (passed : List Nat) : r.walk turns passed [] = some passed := by
  rw [walk]

/-- A walk passes the number on top of the stack. -/
theorem walk_cons (r : Register) (turns : Nat) (passed : List Nat) (id : Nat) (stack : List Nat) :
    r.walk (turns + 1) passed (id :: stack) = r.walk turns (passed ++ [id]) ((r.place id).children ++ stack) := by
  rw [walk]

/-- The numbers of the sections in document order. No number is passed twice, so there are turns enough if each number has one. -/
def traverse (r : Register) : Option (List Nat) :=
  r.walk r.size [] [0]

/-- The sections in document order. -/
def sections? (r : Register) : Option (List Section) :=
  r.traverse.map (·.map fun id => (r.place id).held)

/-- The rows of all sections, or of those at a path and below it if there is a section at the path. -/
def rows? (r : Register) : Option Path → Option (List Row)
  | none => do
    let sections ← r.sections?
    return sections.map (·.row)
  | some path => do
    let _ ← r.find? path
    let sections ← r.sections?
    return (sections.filter (·.isUnder path)).map (·.row)

end RouterPlan.Register
