import RouterPlan.Failure
import RouterPlan.Journal
import RouterPlan.Merge
import RouterPlan.Reading
import RouterPlan.Replay

/-!
# Operations that fail and log

A run does its work in some world, may fail, and keeps its journal either way. The operations on configurations are given
here as runs; `Configuration.checkConvergence` is the question whether one configuration has reached another.
-/

namespace RouterPlan

/-- Work in the world of `m` that may fail with an `ε` and keeps a journal. -/
abbrev Run (m : Type → Type) (ε α : Type) := ExceptT ε (StateT Journal m) α

/-- Fails when the script that takes `actual` to `expected` has a command. Only the sections of `expected` are compared.
-/
def Configuration.checkConvergence (actual expected : Configuration) : Except Failure Unit :=
  match actual.diff expected with
  | .error cause => .error (.integrity cause)
  | .ok residual => if residual.isEmpty then .ok () else .error (.convergence residual)

namespace Run

variable {m : Type → Type} [Monad m] {ε α : Type}

/-- Writes entries into the journal. -/
def note (entries : Journal) : Run m ε Unit :=
  modifyThe Journal (· ++ entries)

/-- The result of work in the world. -/
def perform (work : m α) : Run m ε α :=
  ExceptT.lift (StateT.lift work)

/-- A result that is already known. -/
def ofExcept (result : Except ε α) : Run m ε α :=
  ExceptT.mk (pure result)

/-- The same work with its failures told otherwise. -/
def mapError {ε' : Type} (f : ε → ε') (run : Run m ε α) : Run m ε' α :=
  ExceptT.adapt f run

/-- The outcome of a run as the result of one that does not fail. -/
def attempt {ε' : Type} (run : Run m ε α) : Run m ε' (Except ε α) :=
  ExceptT.mk (Except.ok <$> ExceptT.run run)

/-- The outcome of a run and the journal that it kept. -/
def outcome (run : Run m ε α) : m (Except ε α × Journal) :=
  StateT.run (ExceptT.run run) []

/-- Reads a configuration. -/
def read (order : OrderTable) (text : String) : Run m Failure Configuration := do
  let c ← ofExcept ((Configuration.read order text).mapError .parse)
  note c.readingJournal
  return c

/-- Takes a configuration to a target. -/
def merge (c target : Configuration) : Run m Failure (Script × Configuration) := do
  let (script, c) ← ofExcept ((c.merge target).mapError .integrity)
  note script.mergingJournal
  return (script, c)

/-- The script that takes a configuration to a target. -/
def diff (base target : Configuration) : Run m Failure Script := do
  return (← merge base target).1

/-- Fails when a configuration has not reached another. -/
def check (actual expected : Configuration) : Run m Failure Unit := do
  match actual.diff expected with
  | .ok residual => note residual.convergenceJournal
  | .error _ => pure ()
  ofExcept (actual.checkConvergence expected)

end Run

end RouterPlan
