import RouterPlan.Device.Basic
import RouterPlan.Export

/-!
# A simulated router

A router that keeps a configuration, carries out what it is sent and exports what it has. It counts what is asked of it,
and it can be told to misbehave: to fail or ignore lines, to lose the connection, or to export something else.
-/

namespace RouterPlan

/-- How a simulated router departs from doing what it is told. -/
structure Disturbance where
  /-- Lines that hold this text fail. -/
  failOn : Option String := none
  /-- Lines that hold this text do nothing. -/
  ignoring : Option String := none
  /-- What the router answers to every line it does not fail. -/
  reply : String := ""
  /-- The number of the export, from one, that fails. -/
  failExport : Option Nat := none
  /-- Texts to export instead of the configuration, for the first exports. -/
  exports : List (Option String) := []

/-- A router and what it was asked so far. -/
structure SimulatedRouter where
  configuration : Configuration
  sent : List String := []
  exportCount : Nat := 0

namespace SimulatedRouter

/-- Carries out a command line, or says why not. -/
def obey (router : SimulatedRouter) (line : String) : Except String Unit × SimulatedRouter :=
  match Script.read router.configuration.order line with
  | .error cause => (.error ("syntax error: " ++ cause.message), router)
  | .ok script =>
    let (done, configuration) := router.configuration.replay script
    (done.mapError (·.message), { router with configuration })

/-- The router's answer to a line, and the router after it. -/
def send (disturbance : Disturbance) (line : String) (router : SimulatedRouter) :
    Except String String × SimulatedRouter :=
  let router := { router with sent := router.sent ++ [line] }
  let holds (part : String) : Bool := Text.occursIn part.toList line.toList
  if disturbance.failOn.any holds then (.error "failure: no such item", router)
  else if disturbance.ignoring.any holds then (.ok disturbance.reply, router)
  else
    let (done, router) := router.obey line
    (done.map fun () => disturbance.reply, router)

/-- The router's export, and the router after it. -/
def exportText (disturbance : Disturbance) (router : SimulatedRouter) : Except String String × SimulatedRouter :=
  let router := { router with exportCount := router.exportCount + 1 }
  if disturbance.failExport = some router.exportCount then (.error "connection lost", router)
  else
    let text := (disturbance.exports[router.exportCount - 1]?).join
    (.ok (text.getD router.configuration.exportText), router)

/-- The connection to a simulated router. -/
def device (disturbance : Disturbance) : Device (StateM SimulatedRouter) where
  send line := modifyGet (send disturbance line)
  exportText := modifyGet (exportText disturbance)

end SimulatedRouter

end RouterPlan
