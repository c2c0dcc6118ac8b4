import RouterPlan.Assoc
import RouterPlan.Text.Word

/-!
# Values and items

The keys and values that an item or a setting holds. Keys are kept in order, so key order never tells two items apart
and every printed line is determined by what it says.
-/

namespace RouterPlan

/-- A map from keys to values. -/
abbrev Values := Assoc String String

/-- One entry of a section's list, such as a firewall rule. It is identified by its values alone. -/
abbrev Item := Values

namespace Values

/-- A pair as it stands on a command line. -/
def pairText (entry : String × String) : String :=
  entry.1 ++ "=" ++ Text.quote entry.2

/-- The pairs in key order, with a space between them. -/
def text (values : Values) : String :=
  " ".intercalate (values.entries.map pairText)

end Values

/-- Whether an item may stand before another one in a sorted list. -/
def Item.precedes (a b : Item) : Bool :=
  compare a b != .gt

end RouterPlan
