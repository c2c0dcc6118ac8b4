/-!
# Command lines

What the program is asked to do, and how its arguments say so. A command line is a task with its files; options may
stand before and after them. The options for profile and verbosity may also stand before the task, but count there only
as far as the task has none of its own. Every argument has to have a meaning, and an option that is not counted may be
given once.

The reader stands in for the package that reads command lines when a program runs. No result depends on how arguments ask for
something: what a task does is said of every invocation.
-/

namespace RouterPlan.Cli

/-- How a script is printed. -/
inductive Format where
  | pretty
  | wire
  | json
deriving DecidableEq, Repr

/-- The format that a word names. -/
def Format.ofText? : String → Option Format
  | "pretty" => some pretty
  | "wire" => some wire
  | "json" => some json
  | _ => none

/-- What the program is asked to do. -/
inductive Task where
  /-- Find the script that takes `base` to `target`. -/
  | diff (base target : String) (format : Format) (summary : Bool) (output : Option String)
  /-- Carry out a script on `base`. -/
  | apply (base script : String) (output : Option String)
  /-- Fail unless `actual` has reached `expected`. -/
  | check (actual expected : String)
  /-- List the sections of a file, or those at and below one path. -/
  | inspect (file : String) (under : Option String) (json : Bool)
deriving DecidableEq, Repr

/-- A whole command line. -/
structure Invocation where
  /-- The file of the order profile. -/
  profile : Option String
  /-- How many times more is to be logged. -/
  verbosity : Nat
  /-- Whether only errors are logged. -/
  quiet : Bool
  task : Task
deriving DecidableEq, Repr

/-- What a command line is if it is no invocation. -/
inductive Misuse where
  /-- It asks how to use the program. -/
  | help
  /-- It has no meaning. -/
  | wrong
deriving DecidableEq, Repr

/-- Options by name. -/
inductive OptionName where
  | profile
  | verbose
  | quiet
  | help
  | format
  | summary
  | output
  | under
  | json
deriving DecidableEq, Repr

namespace OptionName

/-- The name after two hyphens. -/
def name : OptionName → String
  | profile => "profile"
  | verbose => "verbose"
  | quiet => "quiet"
  | help => "help"
  | format => "format"
  | summary => "summary"
  | output => "output"
  | under => "section"
  | json => "json"

/-- The letter after one hyphen. -/
def letter? : OptionName → Option Char
  | verbose => some 'v'
  | quiet => some 'q'
  | help => some 'h'
  | _ => none

/-- Whether a value follows. -/
def takesValue : OptionName → Bool
  | profile => true
  | format => true
  | output => true
  | under => true
  | _ => false

/-- The options that may stand before and after the name of a task. -/
def general : List OptionName :=
  [profile, verbose, quiet, help]

end OptionName

/-- The kinds of tasks. -/
inductive TaskName where
  | diff
  | apply
  | check
  | inspect
deriving DecidableEq, Repr

namespace TaskName

/-- The task that a word names. -/
def ofText? : String → Option TaskName
  | "diff" => some diff
  | "apply" => some apply
  | "check" => some check
  | "inspect" => some inspect
  | _ => none

/-- The options of the task alone. -/
def options : TaskName → List OptionName
  | diff => [.format, .summary, .output]
  | apply => [.output]
  | check => []
  | inspect => [.under, .json]

/-- How many files the task is given. -/
def fileCount : TaskName → Nat
  | inspect => 1
  | _ => 2

end TaskName

/-- Arguments that were read so far: options, each with its value, and files. -/
structure Given where
  options : List (OptionName × String) := []
  files : List String := []
deriving DecidableEq, Repr

namespace Given

/-- How many times an option was given. -/
def count (given : Given) (option : OptionName) : Nat :=
  given.options.countP (·.1 == option)

/-- The value of an option. -/
def value? (given : Given) (option : OptionName) : Option String :=
  given.options.lookup option

/-- One more option; only how much is logged may be given again. -/
def addOption (given : Given) (option : OptionName) (value : String) : Except Misuse Given :=
  if option = .help then .error .help
  else if option ≠ .verbose ∧ given.count option ≠ 0 then .error .wrong
  else if (option = .profile ∨ option = .output) ∧ value.isEmpty then .error .wrong
  else if option = .format ∧ (Format.ofText? value).isNone then .error .wrong
  else .ok { given with options := given.options ++ [(option, value)] }

/-- One more file, of at most `limit`. -/
def addFile (given : Given) (limit : Nat) (file : String) : Except Misuse Given :=
  if file.isEmpty || limit ≤ given.files.length then .error .wrong
  else .ok { given with files := given.files ++ [file] }

/-- Options by letter, after one hyphen. -/
def addLetters (given : Given) (known : List OptionName) : List Char → Except Misuse Given
  | [] => .ok given
  | letter :: letters =>
    match known.find? (·.letter? == some letter) with
    | none => .error .wrong
    | some option => do (← given.addOption option "").addLetters known letters

end Given

/-- Whether an argument is an option, or the mark that ends the options. -/
def isOption (argument : String) : Bool :=
  argument.startsWith "-" && argument != "-"

/-- What an option argument starts: an option with its value, one that waits for its value, or letters. -/
inductive Start where
  | complete (option : OptionName) (value : String)
  | waiting (option : OptionName)
  | letters (letters : List Char)
  | unknown
deriving DecidableEq, Repr

/-- Reads an option argument. -/
def readOption (known : List OptionName) (argument : String) : Start :=
  match argument.toList with
  | '-' :: '-' :: cs =>
    let (name, rest) := cs.span (· != '=')
    match known.find? (·.name == String.ofList name), rest with
    | none, _ => .unknown
    | some option, [] => if option.takesValue then .waiting option else .complete option ""
    | some option, _ :: value => if option.takesValue then .complete option (String.ofList value) else .unknown
  | '-' :: letters => .letters letters
  | _ => .unknown

/-- Reads arguments up to the first file, if `stopAtFile`, or all of them, where the option `waiting` has no value yet.
Gives what is left. -/
def readArguments (known : List OptionName) (limit : Nat) (stopAtFile : Bool) (waiting : Option OptionName)
    (given : Given) : List String → Except Misuse (Given × List String)
  | [] => if waiting.isSome then .error .wrong else .ok (given, [])
  | argument :: rest =>
    match waiting with
    | some option =>
      if isOption argument then .error .wrong
      else do readArguments known limit stopAtFile none (← given.addOption option argument) rest
    | none =>
      if argument = "--" then
        if stopAtFile then .error .wrong
        else do return (← rest.foldlM (fun (given : Given) file => given.addFile limit file) given, [])
      else if isOption argument then
        match readOption known argument with
        | .complete option value => do
          readArguments known limit stopAtFile none (← given.addOption option value) rest
        | .letters letters => do
          readArguments known limit stopAtFile none (← given.addLetters known letters) rest
        | .waiting option => readArguments known limit stopAtFile (some option) given rest
        | .unknown => .error .wrong
      else if stopAtFile then .ok (given, argument :: rest)
      else do readArguments known limit stopAtFile none (← given.addFile limit argument) rest

/-- The task with its files and options. -/
def TaskName.task? (name : TaskName) (given : Given) : Option Task :=
  match name, given.files with
  | diff, [base, target] =>
    let format := ((given.value? .format).bind Format.ofText?).getD .pretty
    some (.diff base target format (given.count .summary != 0) (given.value? .output))
  | apply, [base, script] => some (.apply base script (given.value? .output))
  | check, [actual, expected] => some (.check actual expected)
  | inspect, [file] => some (.inspect file (given.value? .under) (given.count .json != 0))
  | _, _ => none

/-- Whether words ask for help on a subject: on the program if there is none, or on one task, or on help itself. -/
def isHelpSubject : List String → Bool
  | [] => true
  | [word] => word == "help" || (TaskName.ofText? word).isSome
  | _ => false

/-- The invocation that arguments write. -/
def Invocation.ofArguments (arguments : List String) : Except Misuse Invocation := do
  let (first, rest) ← readArguments OptionName.general 0 true none {} arguments
  match rest with
  | [] => .error .wrong
  | word :: rest =>
    match TaskName.ofText? word with
    | none => .error (if word = "help" ∧ isHelpSubject rest then .help else .wrong)
    | some name =>
      let (given, _) ← readArguments (name.options ++ OptionName.general) name.fileCount false none {} rest
      match name.task? given with
      | none => .error .wrong
      | some task =>
        let verbosity := given.count .verbose
        return {
          profile := (given.value? .profile).or (first.value? .profile)
          verbosity := if verbosity = 0 then first.count .verbose else verbosity
          quiet := given.count .quiet != 0 || first.count .quiet != 0
          task }

end RouterPlan.Cli
