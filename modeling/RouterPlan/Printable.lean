import RouterPlan.Configuration
import RouterPlan.Script.Basic
import RouterPlan.Statement
import RouterPlan.Version

/-!
# What reads back as it was

Texts are written with little quoting: the values of pairs and the names of entries can hold nearly anything, keys and path
segments cannot. A script is printable when all that it writes stays within what reading tells apart, and so is a configuration.
-/

namespace RouterPlan

namespace Text

/-- A text that stands for itself as a word: it is not empty, and no character of it is blank or in a list. -/
def WritesPlain (excluded : List Char) (text : String) : Prop :=
  text.toList ≠ [] ∧ ∀ c ∈ text.toList, isBlank c = false ∧ c ∉ excluded

instance (excluded : List Char) (text : String) : Decidable (WritesPlain excluded text) :=
  have : Decidable (∀ c ∈ text.toList, isBlank c = false ∧ c ∉ excluded) := List.decidableBAll _ _
  inferInstanceAs (Decidable (_ ∧ _))

/-- A key has no blanks and no characters that end it, and it does not look like a locator. -/
def PrintableKey (key : String) : Prop :=
  WritesPlain ['=', ';', '"', '\\'] key ∧ key.toList.head? ≠ some '['

instance (key : String) : Decidable (PrintableKey key) :=
  inferInstanceAs (Decidable (_ ∧ _))

/-- A value stays on its line, and has no blanks at its ends. -/
def PrintableValue (value : String) : Prop :=
  '\n' ∉ value.toList ∧ trim value.toList = value.toList

instance (value : String) : Decidable (PrintableValue value) :=
  inferInstanceAs (Decidable (_ ∧ _))

end Text

/-- Every key and every value is printable. -/
def Values.Printable (values : Values) : Prop :=
  ∀ entry ∈ values.entries, Text.PrintableKey entry.1 ∧ Text.PrintableValue entry.2

instance (values : Values) : Decidable values.Printable :=
  inferInstanceAs (Decidable (∀ _ ∈ _, _))

/-- An index fits in 64 bits; a name is written like no index, pair or locator; the first bracket of a locator closes at its
end. -/
def Identifier.Printable : Identifier → Prop
  | itself => True
  | number index => index < Text.indexBound
  | name text => '=' ∉ text.toList ∧ '\n' ∉ text.toList ∧ (Text.quote text).toList.head? ≠ some '[' ∧
      Text.readIndex text = none
  | locator text => '\n' ∉ text.toList ∧ text.toList.head? = some '[' ∧
      Command.splitLocator 0 false text.toList = some (text.toList, [])

instance : (target : Identifier) → Decidable target.Printable
  | .itself => inferInstanceAs (Decidable True)
  | .number _ => inferInstanceAs (Decidable (_ < _))
  | .name _ => inferInstanceAs (Decidable (_ ∧ _))
  | .locator _ => inferInstanceAs (Decidable (_ ∧ _))

/-- What puts in or sets values has some, no item has the key that stands for a position, and positions are indices. -/
def Command.Printable : Command → Prop
  | add values before => values.isEmpty = false ∧ values.Printable ∧ values.get? placementKey = none ∧
      ∀ position ∈ before, position < Text.indexBound
  | remove index => index < Text.indexBound
  | move index before => index < Text.indexBound ∧ ∀ position ∈ before, position < Text.indexBound
  | set target values => values.isEmpty = false ∧ values.Printable ∧ target.Printable

instance : (command : Command) → Decidable command.Printable
  | .add _ _ => inferInstanceAs (Decidable (_ ∧ _))
  | .remove _ => inferInstanceAs (Decidable (_ < _))
  | .move _ _ => inferInstanceAs (Decidable (_ ∧ _))
  | .set _ _ => inferInstanceAs (Decidable (_ ∧ _))

/-- No segment has blanks or characters that end it, and none is a verb. -/
def Path.Printable (path : Path) : Prop :=
  ∀ segment ∈ path.segments, Text.WritesPlain ['/', ';', '"', '\\'] segment ∧ segment ∉ Statement.verbs

instance (path : Path) : Decidable path.Printable :=
  inferInstanceAs (Decidable (∀ _ ∈ _, _))

/-- An item has values, and no key that stands for a position. -/
def Item.Printable (item : Item) : Prop :=
  item.isEmpty = false ∧ Values.Printable item ∧ item.get? Command.placementKey = none

instance (item : Item) : Decidable (Item.Printable item) :=
  inferInstanceAs (Decidable (_ ∧ _))

/-- The path, the items and the settings of a section are printable. -/
def Section.Printable (s : Section) : Prop :=
  s.path.Printable ∧ (∀ item ∈ s.items, Item.Printable item) ∧
    ∀ entry ∈ s.settings.entries, entry.1.Printable ∧ entry.2.Printable

instance (s : Section) : Decidable s.Printable :=
  inferInstanceAs (Decidable (_ ∧ _ ∧ _))

/-- A version that the comment in the header of an export gives back. -/
def Version.Printable (version : String) : Prop :=
  inComment? ("by RouterOS " ++ version) = some version

instance (version : String) : Decidable (Version.Printable version) :=
  inferInstanceAs (Decidable (_ = _))

/-- The sections that hold something are printable, and so is the version. -/
def Configuration.Printable (c : Configuration) : Prop :=
  (∀ s ∈ c.sections, s.hasContent = true → s.Printable) ∧ ∀ version ∈ c.version, Version.Printable version

instance (c : Configuration) : Decidable c.Printable :=
  inferInstanceAs (Decidable (_ ∧ _))

/-- No section has more items than there are indices, as no list that is held in memory has. -/
def Configuration.Indexable (c : Configuration) : Prop :=
  ∀ s ∈ c.sections, s.items.length ≤ Text.indexBound

instance (c : Configuration) : Decidable c.Indexable :=
  inferInstanceAs (Decidable (∀ _ ∈ _, _))

/-- The sections with commands, and their commands, are printable. -/
def Script.Printable (script : Script) : Prop :=
  ∀ batch ∈ script.workingBatches, batch.path.Printable ∧ ∀ command ∈ batch.commands, command.Printable

instance (script : Script) : Decidable script.Printable :=
  inferInstanceAs (Decidable (∀ _ ∈ _, _))

end RouterPlan
