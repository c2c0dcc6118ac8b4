import RouterPlan.Cli.Program

/-!
# The command line

The program on the files of the system it runs on.
-/

namespace RouterPlan.Main

/-- The number of a system error, which some calls report with the opposite sign. -/
def errorNumber (code : UInt32) : UInt32 :=
  min code (0 - code)

/-- The error that the system reports, with its number where it has no name here. -/
def fileError : IO.Error → FileError
  | .noFileOrDirectory .. => .notFound
  | .inappropriateType _ code _ => if errorNumber code = 20 then .notADirectory else .isADirectory
  | .invalidArgument _ code details =>
    if errorNumber code = 36 then .nameTooLong else .other s!"{details} (os error {errorNumber code})"
  | .permissionDenied _ code _ => .other s!"Permission denied (os error {errorNumber code})"
  | error => .other (toString error)

/-- Work of the system with its error as a value. -/
def attempt {α : Type} (work : IO α) : IO (Except FileError α) := do
  try
    return .ok (← work)
  catch error =>
    return .error (fileError error)

/-- The text of a file. -/
def read (location : String) : IO (Except FileError String) := do
  match ← attempt (IO.FS.readBinFile location) with
  | .error cause => return .error cause
  | .ok bytes =>
    match String.fromUTF8? bytes with
    | some text => return .ok text
    | none => return .error .notText

/-- The place of a file that is there. -/
def resolve (location : String) : IO (Except FileError String) :=
  attempt do
    let place ← IO.FS.realPath location
    return place.toString

/-- Access to the files of the system. -/
def files : Files IO where
  read := read
  write location text := attempt (IO.FS.writeFile location text)
  resolve := resolve

/-- Whether an environment variable is set to something other than zero. -/
def isOn (name : String) : IO (Option Bool) := do
  return (← IO.getEnv name).map (· != "0")

/-- Whether colours are wanted: they can be forced or refused, and otherwise go to terminals only. -/
def wantsColor : IO Bool := do
  if (← isOn "CLICOLOR_FORCE") = some true then return true
  if (← isOn "NO_COLOR") = some true then return false
  if (← isOn "CLICOLOR") = some false then return false
  (← IO.getStdout).isTty

end RouterPlan.Main

/-- Runs the program on its arguments. -/
def main (arguments : List String) : IO UInt32 := do
  let result ← RouterPlan.Cli.run RouterPlan.Main.files (← RouterPlan.Main.wantsColor) arguments
  IO.eprint result.stderr
  IO.print result.stdout
  return result.code.toUInt32
