import RouterPlan.Pattern.Engine
import RouterPlan.Proofs.Lemmas.InPlace

/-!
# Scripts that are refused

Main statement: a script that is refused in place stops between two of its commands (`run_stops`). The commands before the refused
one, as a script of their own (`Script.take`), go through and give the same items, settings and logs at every path; the section of
the refused command is as it was before that command, and applying the script to the original is refused for the same reason.
-/

namespace RouterPlan

/-! ## The first commands of a script -/

/-- The commands of batches with their paths, in the order in which they are carried out. -/
def Batch.editsOf (batches : List Batch) : List (Path × Command) :=
  batches.flatMap fun batch => batch.commands.map (batch.path, ·)

/-- The same batches with the first commands only. -/
def Forest.takeCommands (count : Nat) : Forest Batch → Forest Batch
  | nil => nil
  | cons batch below rest =>
    cons { batch with commands := batch.commands.take count } (below.takeCommands (count - batch.commands.length))
      (rest.takeCommands (count - batch.commands.length - (Batch.editsOf below.entries).length))

/-- The first commands are the first of all edits. -/
theorem Forest.editsOf_takeCommands (count : Nat) (row : Forest Batch) :
    Batch.editsOf (row.takeCommands count).entries = (Batch.editsOf row.entries).take count := by
  induction row generalizing count with
  | nil => simp [takeCommands, Batch.editsOf, entries]
  | cons batch below rest ihBelow ihRest =>
    have hcons : ∀ (batch : Batch) (below rest : Forest Batch), Batch.editsOf (cons batch below rest).entries =
        batch.commands.map (batch.path, ·) ++ (Batch.editsOf below.entries ++ Batch.editsOf rest.entries) := by
      intro batch below rest
      rw [Batch.editsOf, entries, List.flatMap_cons, List.flatMap_append]
      rfl
    rw [takeCommands, hcons, hcons, ihBelow, ihRest, List.take_append, List.take_append, List.map_take, List.length_map]

/-- The same sections with the first commands only, counted in the order in which they are carried out. -/
def Script.take (script : Script) (count : Nat) : Script :=
  let root := script.outline.root
  ⟨⟨{ root with commands := root.commands.take count }, script.outline.below.takeCommands (count - root.commands.length)⟩⟩

/-- The script of the first commands has the first of all edits. -/
theorem Script.edits_take (script : Script) (count : Nat) : (script.take count).edits = script.edits.take count := by
  have hedits : ∀ script : Script, script.edits =
      script.outline.root.commands.map (script.outline.root.path, ·) ++ Batch.editsOf script.outline.below.entries :=
    fun _ => List.flatMap_cons
  rw [hedits script, hedits, take, List.take_append, Forest.editsOf_takeCommands, List.map_take, List.length_map]

namespace Configuration

variable {c after : Configuration} {cause : IntegrityError}

/-! ## The command that is refused -/

/-- A list of edits that is refused is refused at one of them, and those before it go through. -/
theorem exists_refused {edits : List (Path × Command)} (h : loadAll edits c = (.error cause, after)) :
    ∃ k path command before, edits[k]? = some (path, command) ∧ loadAll (edits.take k) c = (.ok (), before) ∧
      before.load path command = (.error cause, after) := by
  induction edits generalizing c with
  | nil => cases h
  | cons edit edits ih =>
    obtain ⟨path, command⟩ := edit
    rw [loadAll] at h
    cases hload : c.load path command with
    | mk result next =>
      rw [hload] at h
      cases result with
      | error cause' =>
        cases h
        exact ⟨0, path, command, c, rfl, rfl, hload⟩
      | ok =>
        obtain ⟨k, path', command', before, hk, hbefore, hrefused⟩ := ih h
        exact ⟨k + 1, path', command', before, hk, by rw [List.take_succ_cons, loadAll, hload]; exact hbefore, hrefused⟩

/-- A command that is refused changes no section, although it may make one. -/
theorem sectionAt_of_refused {path : Path} {command : Command} (h : c.load path command = (.error cause, after)) :
    (c.sectionAt path).load command = .error cause ∧ ∀ other, after.sectionAt other = c.sectionAt other := by
  have hfst := fst_load c path command
  rw [h] at hfst
  cases hload : (c.sectionAt path).load command with
  | ok s =>
    rw [hload] at hfst
    cases hfst
  | error cause' =>
    rw [hload] at hfst
    cases hfst
    refine ⟨rfl, fun other => ?_⟩
    have hat := sectionAt_editAt (path_attempt_load command) c path other
    rw [attempt_load, hload] at hat
    rw [show after = (c.load path command).2 by rw [h], load, hat]
    split
    · rename_i heq
      exact congrArg c.sectionAt heq.symm
    · rfl

/-- A script was refused at one of its commands, when `before` was reached. -/
structure StopsAt (c : Configuration) (script : Script) (cause : IntegrityError) (after : Configuration) (k : Nat) (path : Path)
    (command : Command) (before : Configuration) : Prop where
  /-- The command is the one after the first `k`. -/
  turn : script.edits[k]? = some (path, command)
  /-- The first `k` commands are a script of their own. -/
  edits_take : (script.take k).edits = script.edits.take k
  /-- They go through, on the original and in place, and lead to `before`. -/
  apply_take : c.apply (script.take k) = .ok before
  run_take : c.run (script.take k) = (.ok (), before)
  /-- The command is refused there. -/
  refused : (before.sectionAt path).load command = .error cause
  /-- The section of the command is as it was, -/
  sectionAt : after.sectionAt path = before.sectionAt path
  /-- and so is what is at any path. -/
  same : ∀ other, after.itemsAt other = before.itemsAt other ∧ after.settingsAt other = before.settingsAt other ∧
    after.logAt other = before.logAt other
  /-- With all changes of a command made at once, the run is the same. -/
  replay : c.replay script = (.error cause, after)
  /-- Applied to the original, the script is refused for the same reason. -/
  apply : c.apply script = .error cause

/-- A script that is refused in place, on a reachable configuration, stops between two commands. -/
theorem run_stops (h : c.Reachable) {script : Script} (hrun : c.run script = (.error cause, after)) :
    ∃ k path command before, c.StopsAt script cause after k path command before := by
  have hc := h.wellFormed
  have hreplay : c.replay script = (.error cause, after) := by rw [← hc.run_eq, hrun]
  obtain ⟨k, path, command, before, hk, htake, hload⟩ := exists_refused hreplay
  obtain ⟨hrefused, hsame⟩ := sectionAt_of_refused hload
  have hbefore : before.WellFormed := by
    have := hc.loadAll (script.edits.take k)
    rwa [htake] at this
  have hafter : after.WellFormed := by
    have := hbefore.load path command
    rwa [hload] at this
  have hreplayed : c.replay (script.take k) = (.ok (), before) := by rw [replay, Script.edits_take, htake]
  refine ⟨k, path, command, before, hk, script.edits_take k, ?_, ?_, hrefused, hsame path, fun other => ⟨?_, ?_, ?_⟩,
    hreplay, ?_⟩
  · rw [apply, hreplayed]
  · rw [hc.run_eq, hreplayed]
  · rw [hafter.itemsAt_eq, hbefore.itemsAt_eq, hsame]
  · rw [hafter.settingsAt_eq, hbefore.settingsAt_eq, hsame]
  · rw [hafter.logAt_eq, hbefore.logAt_eq, hsame]
  · rw [apply, hreplay]

/-- A rule is taken out, and then one is moved that is not there; there are commands for sections before and after. -/
def refusedScript : Script :=
  [(⟨["ip", "address"]⟩, .add (rule "x") none), (filterPath, .remove 0), (filterPath, .move 5 (some 0)),
    (⟨["ip", "route"]⟩, .add (rule "y") none)].foldl (fun script (path, command) => script.push .builtin path command) .empty

/-- The removal stays, and nothing is done after it. -/
theorem run_stops_refusedScript :
    (withRules .builtin filterPath ["a", "b"]).Reachable ∧
      ∃ after, (withRules .builtin filterPath ["a", "b"]).run refusedScript = (.error (.indexOutOfRange filterPath 5 1), after) ∧
        after.itemsAt filterPath = [rule "b"] ∧
        ∃ k path command before, (withRules .builtin filterPath ["a", "b"]).StopsAt refusedScript
          (.indexOutOfRange filterPath 5 1) after k path command before ∧ before.itemsAt filterPath = [rule "b"] := by
  have hreach := reachable_withRules .builtin filterPath ["a", "b"]
  have hcomputed : ((withRules .builtin filterPath ["a", "b"]).run refusedScript).1 = .error (.indexOutOfRange filterPath 5 1) ∧
      ((withRules .builtin filterPath ["a", "b"]).run refusedScript).2.itemsAt filterPath = [rule "b"] := by
    decide +kernel
  rcases hrun : (withRules .builtin filterPath ["a", "b"]).run refusedScript with ⟨result, after⟩
  rw [hrun] at hcomputed
  obtain ⟨rfl, hitems⟩ := hcomputed
  obtain ⟨k, path, command, before, hstop⟩ := run_stops hreach hrun
  exact ⟨hreach, after, rfl, hitems, k, path, command, before, hstop, (hstop.same filterPath).1.symm.trans hitems⟩

end Configuration

end RouterPlan
