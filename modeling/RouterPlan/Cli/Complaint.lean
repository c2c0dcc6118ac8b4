import RouterPlan.Text.Blank

/-!
# Complaints

What the program tells its user when a task fails: what it was doing, and the chain of causes below that.
-/

namespace RouterPlan

/-- A failed task: what failed, and why, each cause with the cause of it after it. -/
structure Complaint where
  headline : String
  causes : List String := []
deriving DecidableEq, Repr

namespace Complaint

/-- A cause indented on all its lines: by four blanks, and further where `label` stands in front. -/
def indented (label cause : String) : String :=
  let indent := String.ofList (List.replicate (4 + label.length) ' ')
  let lines := (Text.pieces (· == '\n') cause.toList).map String.ofList
  "    " ++ label ++ ("\n" ++ indent).intercalate lines

/-- The causes, one after another; they are numbered if there are several. -/
def causeTexts (causes : List String) : List String :=
  match causes with
  | [cause] => [indented "" cause]
  | causes => causes.zipIdx.map fun (cause, n) => indented (toString n ++ ": ") cause

/-- The complaint as it is printed. -/
def text (complaint : Complaint) : String :=
  let causes := complaint.causes
  let below := if causes.isEmpty then "" else "\n\nCaused by:\n" ++ "\n".intercalate (causeTexts causes)
  "Error: " ++ complaint.headline ++ below ++ "\n"

end Complaint

end RouterPlan
