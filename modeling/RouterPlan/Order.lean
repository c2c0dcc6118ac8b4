import RouterPlan.Path
import RouterPlan.Regex

/-!
# Which sections are ordered

In some sections the position of an item means something, in others it is incidental. An order table gives each path its
mode: the rules are tried in order, the first whose pattern is found in the written path decides, and a path without a
rule is unordered. Rules are anchored: a pattern is a regular expression, and is compiled between `^(?:` and `)$`.
-/

namespace RouterPlan

/-- What position means in a section, and which positional commands are allowed there. -/
inductive OrderMode where
  /-- Position is incidental: items are only appended and never moved. -/
  | unordered
  /-- Items may be placed and moved. -/
  | ordered
  /-- Items are only appended, but may be moved. -/
  | orderedAppend
deriving DecidableEq, Repr

namespace OrderMode

instance : Inhabited OrderMode :=
  ⟨unordered⟩

/-- Whether position means something, so that items may be moved. -/
def isOrdered : OrderMode → Bool
  | unordered => false
  | ordered => true
  | orderedAppend => true

/-- Whether an item may be added before another one. -/
def allowsPlacement : OrderMode → Bool
  | ordered => true
  | _ => false

/-- The mode as it is written. -/
def text : OrderMode → String
  | unordered => "unordered"
  | ordered => "ordered"
  | orderedAppend => "ordered-append"

/-- The mode that a text writes. -/
def ofText? (text : String) : Option OrderMode :=
  [unordered, ordered, orderedAppend].find? (·.text == text)

/-- Writing a mode and reading it gives it back. -/
theorem ofText?_text (mode : OrderMode) : ofText? mode.text = some mode := by
  cases mode <;> decide

end OrderMode

/-- A rule as it is written: sections whose path the pattern describes have the mode. -/
structure OrderRule where
  pattern : String
  mode : OrderMode
deriving DecidableEq, Repr

/-- A rule was refused because its pattern does not compile. -/
structure InvalidPattern where
  /-- The pattern as the rule gave it. -/
  pattern : String
deriving DecidableEq, Repr

/-- The pattern of the rule, anchored at both ends of the path. -/
def OrderRule.anchored (rule : OrderRule) : String :=
  "^(?:" ++ rule.pattern ++ ")$"

/-- The rule, with its pattern compiled. -/
def OrderRule.compile [RegexEngine] (rule : OrderRule) : Except InvalidPattern (Regex × OrderMode) :=
  match RegexEngine.compile? rule.anchored with
  | some regex => .ok (regex, rule.mode)
  | none => .error ⟨rule.pattern⟩

/-- Rules in the order in which they are tried. -/
structure OrderTable where
  rules : List (Regex × OrderMode)

namespace OrderTable

/-- The table of a list of rules; the first one with a bad pattern is reported. -/
def ofRules [RegexEngine] (rules : List OrderRule) : Except InvalidPattern OrderTable := do
  return ⟨← rules.mapM OrderRule.compile⟩

/-- The table with further rules tried before its own. -/
def withOverrides [RegexEngine] (table : OrderTable) (rules : List OrderRule) : Except InvalidPattern OrderTable := do
  let overrides ← ofRules rules
  return ⟨overrides.rules ++ table.rules⟩

/-- How many rules the table has. -/
def size (table : OrderTable) : Nat :=
  table.rules.length

/-- The mode of the section at a path. -/
def modeFor (table : OrderTable) (path : Path) : OrderMode :=
  match table.rules.find? (fun rule => rule.1.isMatch path.text) with
  | some rule => rule.2
  | none => .unordered

/-- The rules that hold without a profile: packet filters, bridge filters and simple queues are ordered. -/
def builtinRules : List OrderRule :=
  [⟨"/ip(v6)? firewall (filter|nat|mangle|raw)", .ordered⟩, ⟨"/interface bridge (filter|nat)", .ordered⟩,
    ⟨"/queue simple", .ordered⟩]

/-- The table that holds without a profile. -/
def builtin [RegexEngine] : OrderTable :=
  match ofRules builtinRules with
  | .ok table => table
  | .error _ => ⟨[]⟩

instance [RegexEngine] : Inhabited OrderTable :=
  ⟨builtin⟩

end OrderTable

end RouterPlan
