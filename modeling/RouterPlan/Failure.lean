import RouterPlan.Script.Render
import RouterPlan.Statement

/-!
# Failures of whole operations

Everything that can end an operation on configurations, scripts and devices.
-/

namespace RouterPlan

/-- Why an operation failed. -/
inductive Failure where
  /-- A text cannot be read. -/
  | parse (cause : ParseError)
  /-- A section refused an edit. -/
  | integrity (cause : IntegrityError)
  /-- A configuration is not what it should be; the script would still have to be carried out. -/
  | convergence (residual : Script)
  /-- A device refused a line. -/
  | device (line message : String)
deriving DecidableEq

/-- The wording of the failure. -/
def Failure.message : Failure → String
  | parse cause => cause.message
  | integrity cause => cause.message
  | convergence residual => s!"configuration did not converge: {residual.size} residual command(s)"
  | device line message => s!"device rejected {Text.shown line}: {message}"

end RouterPlan
