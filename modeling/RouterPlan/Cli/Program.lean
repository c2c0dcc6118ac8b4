import RouterPlan.Cli.Arguments
import RouterPlan.Cli.Complaint
import RouterPlan.Cli.Files
import RouterPlan.Export
import RouterPlan.Listing
import RouterPlan.Profile
import RouterPlan.Report
import RouterPlan.Run
import RouterPlan.Script.Document

/-!
# The program

What each task does with its files, and what a whole run of the program prints. Tasks are runs over any access to files.
Before a task writes its output, it makes sure that this is none of the files it has read (`refuseOverwrite`).
-/

namespace RouterPlan.Cli

/-- What a task prints, and what it complains of after that. -/
structure Printed where
  text : String
  complaint : Option Complaint := none

variable {m : Type → Type} [Monad m]

/-- Work on files whose failure is told by `complain`. -/
def useFiles {α : Type} (work : m (Except FileError α)) (complain : String → Complaint) : Run m Complaint α := do
  Run.ofExcept ((← Run.perform work).mapError fun cause => complain cause.message)

/-- The result of the library with its failure told below a headline. -/
def explain {ε α : Type} (headline : String) (message : ε → String) (result : Except ε α) : Run m Complaint α :=
  Run.ofExcept (result.mapError fun cause => ⟨headline, [message cause]⟩)

/-- The configuration in a file. -/
def load (files : Files m) (order : OrderTable) (file : String) : Run m Complaint Configuration := do
  let headline := "failed to parse " ++ file
  let text ← useFiles (files.read file) fun cause => ⟨headline, [s!"failed to read {file}: {cause}", cause]⟩
  Run.mapError (fun failure => ⟨headline, [failure.message]⟩) (Run.read order text)

/-- The order table of a profile file, or of the default profile if there is none or it cannot be used. -/
def resolveProfile [RegexEngine] (files : Files m) (profile : Option String) : Run m Complaint OrderTable := do
  match profile with
  | none => return Profile.defaultTable
  | some file =>
    let table := match ← Run.perform (files.read file) with
      | .ok text => Profile.table file text
      | .error cause => .error (.unreadable file cause.message)
    match table with
    | .ok table => return table
    | .error problem =>
      Run.note [⟨.warn, .commandLine, problem.message ++ "; using the default profile"⟩]
      return Profile.defaultTable

/-- Fails when the output is one of the input files. Its directory has to exist, the file itself need not. -/
def refuseOverwrite (files : Files m) (output : String) (inputs : List String) : Run m Complaint Unit := do
  match Location.fileName? output with
  | none => Run.ofExcept (.error ⟨s!"output {output} does not name a file", []⟩)
  | some name =>
    let directory := Location.directory output
    let place ← useFiles (files.resolve directory) fun cause =>
      ⟨s!"output directory {directory} is not usable", [cause]⟩
    let joined := if place.endsWith "/" then place ++ name else place ++ "/" ++ name
    let resolved := match ← Run.perform (files.resolve joined) with
      | .ok place => place
      | .error _ => joined
    for input in inputs do
      match ← Run.perform (files.resolve input) with
      | .ok place =>
        if place == resolved then
          Run.ofExcept (.error ⟨s!"refusing to overwrite input {input} with output {output}", []⟩)
      | .error _ => pure ()

/-- Lines with a line feed after each. -/
def linesText (lines : List String) : String :=
  String.join (lines.map (· ++ "\n"))

/-- The script in the format that was asked for. -/
def formatted (colored : Bool) (script : Script) : Format → String
  | .pretty => (if script.isEmpty then "no changes" else Report.scriptText colored script) ++ "\n"
  | .wire => linesText script.wireLines
  | .json => script.jsonText ++ "\n"

/-- Finds a script, writes its lines if there is an output, and prints it. -/
def runDiff (files : Files m) (colored : Bool) (order : OrderTable) (base target : String) (format : Format)
    (summary : Bool) (output : Option String) : Run m Complaint Printed := do
  let before ← load files order base
  let after ← load files order target
  let script ← Run.mapError (fun failure => ⟨"failed to compute edit script", [failure.message]⟩)
    (Run.diff before after)
  if let some output := output then
    refuseOverwrite files output [base, target]
    useFiles (files.write output (linesText script.wireLines)) fun cause =>
      ⟨"failed to write script " ++ output, [cause]⟩
    Run.note [⟨.info, .commandLine, s!"wrote {script.size} command(s) to {output}"⟩]
  return { text := if summary then Report.summaryText colored script ++ "\n" else formatted colored script format }

/-- Carries out a script, and writes or prints the export of the result. -/
def runApply (files : Files m) (order : OrderTable) (base script : String) (output : Option String) :
    Run m Complaint Printed := do
  let before ← load files order base
  let text ← useFiles (files.read script) fun cause => ⟨"failed to read " ++ script, [cause]⟩
  let edits ← explain ("failed to parse script " ++ script) ParseError.message (Script.read order text)
  let result ← explain ("failed to apply " ++ script) IntegrityError.message (before.apply edits)
  match output with
  | none => return { text := result.exportText }
  | some output =>
    refuseOverwrite files output [base, script]
    useFiles (files.write output result.exportText) fun cause =>
      ⟨"failed to write export " ++ output, ["failed to write export file: " ++ cause, cause]⟩
    return { text := "" }

/-- Says whether a configuration has reached another; if not, prints what is left to do and complains. -/
def runCheck (files : Files m) (colored : Bool) (order : OrderTable) (actual expected : String) :
    Run m Complaint Printed := do
  let current ← load files order actual
  let wanted ← load files order expected
  match ← Run.attempt (Run.check current wanted) with
  | .ok () => return { text := "converged\n" }
  | .error (.convergence residual) =>
    return { text := Report.scriptText colored residual ++ "\n",
             complaint := some ⟨(Failure.convergence residual).message, []⟩ }
  | .error failure => Run.ofExcept (.error ⟨"convergence check failed", [failure.message]⟩)

/-- Lists sections. -/
def runInspect (files : Files m) (order : OrderTable) (file : String) (under : Option String) (json : Bool) :
    Run m Complaint Printed := do
  let c ← load files order file
  let path := under.getD "/"
  match c.rows? (Path.ofText path) with
  | none => Run.ofExcept (.error ⟨s!"section {path} not found in {file}", []⟩)
  | some rows =>
    if json then return { text := Row.jsonText rows ++ "\n" }
    else return { text := linesText (c.version.toList.map ("version=" ++ ·)) ++ Row.linesText rows }

/-- Does what an invocation asks for. -/
def perform [RegexEngine] (files : Files m) (colored : Bool) (invocation : Invocation) : Run m Complaint Printed := do
  let order ← resolveProfile files invocation.profile
  match invocation.task with
  | .diff base target format summary output => runDiff files colored order base target format summary output
  | .apply base script output => runApply files order base script output
  | .check actual expected => runCheck files colored order actual expected
  | .inspect file under json => runInspect files order file under json

/-- The least severe level that is logged. -/
def Invocation.level (invocation : Invocation) : Level :=
  if invocation.quiet then .error
  else
    match invocation.verbosity with
    | 0 => .warn
    | 1 => .info
    | 2 => .debug
    | _ => .trace

/-- What the program leaves behind, apart from files. -/
structure Exit where
  code : Nat
  stdout : String
  stderr : String
deriving DecidableEq, Repr

/-- How to use the program. -/
def usage : String :=
  linesText [
    "Usage: routerplan [--profile FILE] [-v] [-q] TASK",
    "",
    "Tasks:",
    "  diff BASE TARGET [--format pretty|wire|json] [--summary] [--output FILE]",
    "  apply BASE SCRIPT [--output FILE]",
    "  check ACTUAL EXPECTED",
    "  inspect FILE [--section PATH] [--json]"]

/-- The outcome of a task as the program shows it: first what was logged, then what it complains of. -/
def Exit.ofOutcome (colored : Bool) (level : Level) (outcome : Except Complaint Printed × Journal) : Exit :=
  let (result, journal) := outcome
  let log := String.join ((journal.atLeast level).map (Report.entryText colored))
  match result with
  | .error complaint => ⟨1, "", log ++ complaint.text⟩
  | .ok ⟨text, some complaint⟩ => ⟨1, text, log ++ complaint.text⟩
  | .ok ⟨text, none⟩ => ⟨0, text, log⟩

/-- A whole run of the program. -/
def run [RegexEngine] (files : Files m) (colored : Bool) (arguments : List String) : m Exit := do
  match Invocation.ofArguments arguments with
  | .error .help => return ⟨0, usage, ""⟩
  | .error .wrong => return ⟨2, "", usage⟩
  | .ok invocation =>
    return .ofOutcome colored invocation.level (← (perform files colored invocation).outcome)

end RouterPlan.Cli
