import RouterPlan.Order
import RouterPlan.Pattern.Engine
import RouterPlan.Text.Escaped
import RouterPlan.Toml.Reader

/-!
# Profiles

A profile is a TOML document that gives order rules of a site, each in an entry of the array `section` with the texts
`pattern` and `mode`; whatever else it holds is ignored. Its rules are tried before the built-in ones. Without a profile
of its own, a site has the default one.
-/

namespace RouterPlan

/-- Why a profile cannot be used; all name its file. -/
inductive ProfileError where
  /-- The file cannot be read. -/
  | unreadable (file cause : String)
  /-- The file is no TOML, or an entry of it is no rule. -/
  | malformed (file : String)
  /-- A rule has a pattern that cannot be read. -/
  | badRule (file : String) (cause : InvalidPattern)
deriving DecidableEq, Repr

/-- The wording of the error. -/
def ProfileError.message : ProfileError → String
  | unreadable file cause => s!"failed to read profile {file}: {cause}"
  | malformed file => s!"failed to parse profile {file}: not a list of order rules in TOML"
  | badRule file cause => s!"invalid rule in profile {file}: invalid section pattern {Text.shown cause.pattern}"

namespace Profile

/-- The text of a field. -/
def textField? (fields : Toml.Table) (key : String) : Option String :=
  match fields.lookup key with
  | some (.text s) => some s
  | _ => none

/-- The mode that a value names: by its text, or by the key of something empty in a table. A table in line has that key
alone; otherwise the first one counts. -/
def mode? : Toml.Value → Option OrderMode
  | .text name => OrderMode.ofText? name
  | .inline [(name, value)] => if value.isHollow then OrderMode.ofText? name else none
  | .table _ _ ((name, value) :: _) => if value.isHollow then OrderMode.ofText? name else none
  | _ => none

/-- The rule that an entry gives. -/
def rule? (fields : Toml.Table) : Option OrderRule := do
  let pattern ← textField? fields "pattern"
  let mode ← mode? (← fields.lookup "mode")
  return { pattern, mode }

/-- The rule of an entry that is written in line: as a table, or as an array of the pattern and the mode. -/
def inlineRule? : Toml.Value → Option OrderRule
  | .inline fields => rule? fields
  | .array (.text pattern :: mode :: _) => do return { pattern, mode := ← mode? mode }
  | _ => none

/-- The rules that a profile text gives, if it is well formed. -/
def rules? (text : String) : Option (List OrderRule) := do
  match (← Toml.read? text).lookup "section" with
  | none => return []
  | some (.tables entries) => entries.mapM rule?
  | some (.array entries) => entries.mapM inlineRule?
  | some _ => none

/-- The order table of a profile text; `file` is where it was read. -/
def table [RegexEngine] (file text : String) : Except ProfileError OrderTable :=
  match rules? text with
  | none => .error (.malformed file)
  | some rules => (OrderTable.builtin.withOverrides rules).mapError (.badRule file)

/-- The rules of the default profile. -/
def defaultRules : List OrderRule :=
  [⟨"/ip proxy access", .ordered⟩, ⟨"/ip hotspot walled-garden( ip)?", .ordered⟩, ⟨"/routing filter rule", .ordered⟩]

/-- The order table of the default profile. -/
def defaultTable [RegexEngine] : OrderTable :=
  match OrderTable.builtin.withOverrides defaultRules with
  | .ok table => table
  | .error _ => .builtin

/-- When a program runs, the patterns of the built-in rules and of the default profile compile. -/
theorem isOk_defaultRules :
    (OrderTable.ofRules OrderTable.builtinRules).isOk = true ∧ (OrderTable.builtin.withOverrides defaultRules).isOk = true := by
  decide +kernel

end Profile

end RouterPlan
