import RouterPlan.Device.Menu
import RouterPlan.Device.Simulated
import RouterPlan.Main
import RouterPlan.Proofs.Convergence
import RouterPlan.Proofs.Courses
import RouterPlan.Proofs.Exporting
import RouterPlan.Proofs.Grouping
import RouterPlan.Proofs.Headers
import RouterPlan.Proofs.Histories
import RouterPlan.Proofs.Lemmas.Contents
import RouterPlan.Proofs.Lemmas.Places
import RouterPlan.Proofs.Lemmas.PrintableMerges
import RouterPlan.Proofs.Lemmas.RegisterOutlines
import RouterPlan.Proofs.Lemmas.RegisterSteps
import RouterPlan.Proofs.Lemmas.Registers
import RouterPlan.Proofs.Lemmas.SingleLines
import RouterPlan.Proofs.Lemmas.Statements
import RouterPlan.Proofs.Merging
import RouterPlan.Proofs.Numbering
import RouterPlan.Proofs.Overwriting
import RouterPlan.Proofs.Plans
import RouterPlan.Proofs.Positions
import RouterPlan.Proofs.Reconciling
import RouterPlan.Proofs.Refreshing
import RouterPlan.Proofs.Replaying
import RouterPlan.Proofs.Representation
import RouterPlan.Proofs.Rereading
import RouterPlan.Proofs.ScriptText
import RouterPlan.Proofs.Stopping
import RouterPlan.Register
import RouterPlan.Proofs.Lemmas.PhysicalLines
import RouterPlan.Proofs.Lemmas.StatementLines
import RouterPlan.Proofs.Wrapping
import RouterPlan.Proofs.Faults
import RouterPlan.Proofs.Modes
import RouterPlan.Proofs.Anchoring
import RouterPlan.Proofs.Quoting
import RouterPlan.Proofs.Cutting
import RouterPlan.Traversal
import RouterPlan.Proofs.Traversing
import RouterPlan.Checked.Editing
import RouterPlan.Proofs.Bounds
