import RouterPlan.Configuration
import RouterPlan.Script.Basic

/-!
# Carrying out scripts

A script is carried out command by command. The first command that a section refuses ends the run, and what was done
before it stays (`Configuration.replay`); who needs all or nothing keeps the configuration of before
(`Configuration.apply`).
-/

namespace RouterPlan.Configuration

/-- Loads commands at their paths up to the first that is refused. -/
def loadAll : List (Path × Command) → Configuration → Except IntegrityError Unit × Configuration
  | [], c => (.ok (), c)
  | (path, command) :: edits, c =>
    match c.load path command with
    | (.ok (), c) => loadAll edits c
    | (.error cause, c) => (.error cause, c)

/-- Carries out a script in place: whether it went through, and the configuration after it. -/
def replay (c : Configuration) (script : Script) : Except IntegrityError Unit × Configuration :=
  loadAll script.edits c

/-- The configuration after a script, if all of it can be carried out. -/
def apply (c : Configuration) (script : Script) : Except IntegrityError Configuration :=
  match c.replay script with
  | (.ok (), c) => .ok c
  | (.error cause, _) => .error cause

end RouterPlan.Configuration
