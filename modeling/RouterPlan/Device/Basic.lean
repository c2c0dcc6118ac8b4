import RouterPlan.Run

/-!
# Driving a device

A device takes command lines and gives its configuration as an export text; either may fail. Sending a script stops at
the first line that the device refuses (`execute`). Reconciling brings a device to a target (`reconcile`): the script is
checked against the target before anything is sent, and the device is exported again to see that it did what the script
says.
-/

namespace RouterPlan

/-- A connection to a device in the world of `m`. Failures are told by the device's message. -/
structure Device (m : Type → Type) where
  /-- Runs one command line and gives the response. -/
  send : String → m (Except String String)
  /-- The export text of the current configuration. -/
  exportText : m (Except String String)

/-- What a successful reconciliation did. -/
structure Outcome where
  /-- What was sent. -/
  script : Script
  /-- How many lines were sent. -/
  linesSent : Nat
  /-- The configuration of the device afterwards. -/
  result : Configuration

namespace Device

variable {m : Type → Type} [Monad m]

/-- The line that stands for an export in failures. -/
def exportLine : String :=
  "/export"

/-- The journal of a response; an empty one is not worth an entry. -/
def responseJournal (response : String) : Journal :=
  if response.isEmpty then []
  else [⟨.debug, .session, "< " ++ String.ofList (Text.trimEnd response.toList)⟩]

/-- Sends lines up to the first that is refused. -/
def sendAll (device : Device m) : List String → Run m Failure Unit
  | [] => pure ()
  | line :: lines => do
    Run.note [⟨.debug, .session, "> " ++ line⟩]
    let response ← Run.ofExcept ((← Run.perform (device.send line)).mapError (.device line))
    Run.note (responseJournal response)
    sendAll device lines

/-- Sends the lines of a script, and says how many there were. -/
def execute (device : Device m) (script : Script) : Run m Failure Nat := do
  device.sendAll script.wireLines
  return script.wireLines.length

/-- The configuration of the device, read with an order table. -/
def fetch (device : Device m) (order : OrderTable) : Run m Failure Configuration := do
  let text ← Run.ofExcept ((← Run.perform device.exportText).mapError (.device exportLine))
  Run.read order text

/-- Brings the device to a target. -/
def reconcile (device : Device m) (target : Configuration) : Run m Failure Outcome := do
  let base ← device.fetch target.order
  let script ← Run.diff base target
  if script.isEmpty then
    Run.note [⟨.info, .session, "device already matches target"⟩]
    return { script, linesSent := 0, result := base }
  else
    let predicted ← Run.ofExcept ((base.apply script).mapError .integrity)
    Run.check predicted target
    Run.note [⟨.info, .session, s!"sending {script.size} command(s)"⟩]
    let linesSent ← device.execute script
    let result ← device.fetch target.order
    Run.check result predicted
    return { script, linesSent, result }

end Device

end RouterPlan
