import RouterPlan.Device.Basic

/-!
# Devices that answer by what they were asked

Nothing is known of a device but that it answers. What it answers may depend on everything that it was asked before, so a device
is any function from what it was asked so far, the request in question last, to an answer (`Device.answering`).
-/

namespace RouterPlan

/-- What a device is asked. -/
inductive Request where
  /-- Run a command line. -/
  | send (line : String)
  /-- Give the export. -/
  | exportText
deriving DecidableEq, Repr

/-- The device that answers each request by all requests so far. The requests are kept in order. -/
def Device.answering (answers : List Request → Except String String) : Device (StateM (List Request)) where
  send line := modifyGet fun asked => (answers (asked ++ [.send line]), asked ++ [.send line])
  exportText := modifyGet fun asked => (answers (asked ++ [.exportText]), asked ++ [.exportText])

end RouterPlan
