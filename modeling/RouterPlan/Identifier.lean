import RouterPlan.Text.Digit
import RouterPlan.Text.Word

/-!
# What a setting is about

A setting belongs to the section itself, to a position, to a named entry, or to whatever a locator in brackets finds.
Locators are kept as they are written and never looked up.
-/

namespace RouterPlan

/-- The target of a `set` command. -/
inductive Identifier where
  /-- The section itself. -/
  | itself
  /-- A position in the list of items, which lasts only until the next edit. -/
  | number (index : Nat)
  /-- A named entry, such as an interface. -/
  | name (text : String)
  /-- A locator in brackets, as written. -/
  | locator (text : String)
deriving DecidableEq, Repr

namespace Identifier

/-- A word of digits is a position if it fits in an index; any other word is a name. -/
def ofWord (word : String) : Identifier :=
  match Text.readIndex word with
  | some index => number index
  | none => name word

/-- Whether the identifier is a position. -/
def isNumber : Identifier → Bool
  | number _ => true
  | _ => false

/-- The identifier as it stands after `set`; nothing for the section itself. -/
def text : Identifier → String
  | itself => ""
  | number index => toString index
  | name text => Text.quote text
  | locator text => text

/-- The place of the identifier's kind in the order of identifiers. -/
def rank : Identifier → Nat
  | itself => 0
  | number _ => 1
  | name _ => 2
  | locator _ => 3

/-- The position, or zero. -/
def index : Identifier → Nat
  | number index => index
  | _ => 0

/-- The written name or locator, or nothing. -/
def label : Identifier → String
  | name text => text
  | locator text => text
  | _ => ""

/-- By kind first, then by number or by text. -/
instance : Ord Identifier where
  compare := compareLex (compareOn rank) (compareLex (compareOn index) (compareOn label))

instance : Std.TransOrd Identifier :=
  inferInstanceAs (Std.TransCmp (compareLex (compareOn rank) (compareLex (compareOn index) (compareOn label))))

/-- Kind, number and text determine an identifier. -/
theorem eq_of_parts {a b : Identifier} (hr : a.rank = b.rank) (hi : a.index = b.index) (hl : a.label = b.label) :
    a = b := by
  cases a <;> cases b <;> simp_all [rank, index, label]

instance : Std.LawfulEqOrd Identifier where
  eq_of_compare {a b} h := by
    change compareLex (compareOn rank) (compareLex (compareOn index) (compareOn label)) a b = .eq at h
    simp only [compareLex, compareOn, Ordering.then_eq_eq] at h
    exact eq_of_parts (Std.LawfulEqOrd.eq_of_compare h.1) (Std.LawfulEqOrd.eq_of_compare h.2.1)
      (Std.LawfulEqOrd.eq_of_compare h.2.2)

end Identifier

end RouterPlan
