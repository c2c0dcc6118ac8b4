import RouterPlan.Configuration
import RouterPlan.Script.Render

/-!
# What is logged

Operations keep a journal. What they write there is determined by what they did, so it is given here as functions of
configurations and scripts; a reader of the journal picks the entries that are severe enough (`Journal.atLeast`).
-/

namespace RouterPlan

/-- How severe an entry is, the most severe first. -/
inductive Level where
  | error
  | warn
  | info
  | debug
  | trace
deriving DecidableEq, Repr

namespace Level

/-- The place among the levels; less is more severe. -/
def rank : Level → Nat
  | error => 0
  | warn => 1
  | info => 2
  | debug => 3
  | trace => 4

/-- The level as it is written. -/
def text : Level → String
  | error => "ERROR"
  | warn => "WARN"
  | info => "INFO"
  | debug => "DEBUG"
  | trace => "TRACE"

end Level

/-- The part of the program that writes an entry. -/
inductive Origin where
  | commandLine
  | reading
  | merging
  | convergence
  | session
deriving DecidableEq, Repr

/-- The origin as log lines name it. -/
def Origin.text : Origin → String
  | commandLine => "routeros_reconcile"
  | reading => "routeros_diff_core::parser"
  | merging => "routeros_diff_core::diff::engine"
  | convergence => "routeros_diff_core::convergence"
  | session => "routeros_diff_core::session"

/-- One entry of a journal. -/
structure Entry where
  level : Level
  origin : Origin
  message : String
deriving DecidableEq, Repr

/-- What was logged, in order. -/
abbrev Journal := List Entry

/-- The entries that are at least as severe as a level. -/
def Journal.atLeast (journal : Journal) (level : Level) : Journal :=
  journal.filter (·.level.rank ≤ level.rank)

namespace Configuration

/-- What reading the configuration logs: how many commands made how many sections. -/
def readingJournal (c : Configuration) : Journal :=
  let commands := (c.sections.flatMap (·.log)).length
  let sections := c.sections.length
  [⟨.debug, .reading, s!"parsed {commands} command(s) into {sections} section(s)"⟩]

end Configuration

/-- What finding the commands of a batch logs: each command, then how many there are of each kind. -/
def Batch.mergingJournal (batch : Batch) : Journal :=
  let path := batch.path.text
  let count (keyword : Keyword) := batch.commands.countP (·.keyword == keyword)
  let removed := count .remove
  let added := count .add
  let moved := count .move
  batch.commands.map (fun command => ⟨.trace, .merging, path ++ " " ++ command.text⟩) ++
    [⟨.debug, .merging,
      s!"{path}: {batch.commands.length} command(s), removed={removed} added={added} moved={moved}"⟩]

namespace Script

/-- What finding the script logs. -/
def mergingJournal (script : Script) : Journal :=
  script.batches.flatMap (·.mergingJournal)

/-- What finding the script that is left logs when there should be none. -/
def convergenceJournal (residual : Script) : Journal :=
  residual.mergingJournal ++
    if residual.isEmpty then []
    else [⟨.warn, .convergence, s!"configuration did not converge, {residual.size} command(s) outstanding"⟩]

end Script

end RouterPlan
