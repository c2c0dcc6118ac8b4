import RouterPlan.Device.Menu
import RouterPlan.Device.Simulated
import RouterPlan.Proofs.Lemmas.Alike
import RouterPlan.Proofs.Lemmas.Runs
import RouterPlan.Proofs.Lemmas.ScriptTree

/-!
# Lines carried out one by one

A device gets a script line by line, and reads each line by itself, as a text of one line. Such a text is a script with the one
command of the line, or with none where the line asks for new numbers (`MenuStep.exists_read`). So a simulated router that is
left undisturbed accepts all lines of a script that its configuration can carry out, and then has the configuration that the script
as a whole makes (`SimulatedRouter.accepts_wireLines`).
-/

namespace RouterPlan

/-! ## Scripts of one command -/

/-- One command for a bare root, or for what is made below it, is all that there is to carry out. -/
theorem Outline.commands_pushAt {order : OrderTable} (names : List String) (root : Batch) (hnone : root.commands = [])
    (command : Command) :
    ((⟨root, .nil⟩ : Outline Batch).pushAt order (names, command)).entries.flatMap
      (fun batch => batch.commands.map (batch.path, ·)) = [(root.path.extend names, command)] := by
  induction names generalizing root with
  | nil => simp [pushAt, Outline.editAt, Outline.entries, Forest.entries, hnone]
  | cons name names ih =>
    have hchild := ih ((Batch.growth order).child root name) rfl
    have hentries : ∀ child, ((⟨root, .nil⟩ : Outline Batch).putChild (Batch.growth order) name child).entries =
        root :: child.entries := by
      intro child
      simp [Outline.entries, putChild, Forest.putFirst, Forest.entries]
    have hpush : (⟨root, .nil⟩ : Outline Batch).pushAt order (name :: names, command) =
        putChild (Batch.growth order) name ⟨root, .nil⟩
          ((⟨(Batch.growth order).child root name, .nil⟩ : Outline Batch).pushAt order (names, command)) := by
      rw [pushAt, editAt_cons]
      rfl
    rw [hpush, hentries, List.flatMap_cons, hnone, hchild, (Batch.tracks order).path_child, Path.extend_child]
    rfl

/-- The script of one command has nothing else to carry out. -/
theorem Script.edits_push_empty (order : OrderTable) (path : Path) (command : Command) :
    (empty.push order path command).edits = [(path, command)] :=
  Outline.commands_pushAt path.segments _ rfl command

/-- A line that is read by itself says what it says among others. -/
theorem Script.read_of_reads {order : OrderTable} {line : String} (hline : Text.IsLine line.toList) (hne : line ≠ "")
    {current : Path} {script : Script} (h : Statement.Reads (follow order) .root empty [line.toList] current script) :
    read order line = .ok script := by
  have hsingle : "\n".intercalate [line] = line := rfl
  rw [← hsingle]
  refine Statement.foldlM_intercalate (List.forall_mem_singleton.2 hline) (fun hlast => hne ?_) h
  exact Option.some.inj hlast

/-! ## Lines for a device -/

namespace MenuStep

/-- The commands of a line. -/
def edits (path : Path) : MenuStep → List (Path × Command)
  | print => []
  | edit command => [(path, command)]

/-- All of a line is printable, and its command fits its section. -/
def Fits (order : OrderTable) (path : Path) (step : MenuStep) : Prop :=
  path.Printable ∧ ∀ command, step = edit command →
    command.Printable ∧ command.checkAllowed path (order.modeFor path) = .ok ()

/-- A line is read by itself as a script of its commands. -/
theorem exists_read {order : OrderTable} {path : Path} {step : MenuStep} (h : step.Fits order path) :
    ∃ script, Script.read order (step.line path) = .ok script ∧ script.edits = step.edits path := by
  obtain ⟨hpath, hcommand⟩ := h
  cases step with
  | print =>
    obtain ⟨hline, hne⟩ := Path.isLine_refresh hpath
    exact ⟨.empty, Script.read_of_reads hline (fun heq => hne (heq ▸ rfl)) (Script.reads_refresh .root .empty hpath), rfl⟩
  | edit command =>
    obtain ⟨hprintable, hallowed⟩ := hcommand command rfl
    obtain ⟨hline, hne⟩ := Path.isLine_command hpath hprintable
    exact ⟨Script.empty.push order path command, Script.read_of_reads hline (fun heq => hne (heq ▸ rfl))
      (Script.reads_withCommand .root .empty hpath hprintable hallowed), Script.edits_push_empty order path command⟩

end MenuStep

/-- The lines of a batch have its commands, in order. -/
theorem Batch.edits_menuSteps (path : Path) (stale : Bool) (commands : List Command) :
    (menuSteps stale commands).flatMap (·.edits path) = commands.map (path, ·) := by
  induction commands generalizing stale with
  | nil => rfl
  | cons command commands ih =>
    rw [menuSteps, List.flatMap_append, List.flatMap_cons, ih]
    cases stale && command.requiresFreshIndices <;> rfl

/-- A line of a batch that fits its section fits it too. -/
theorem Batch.fits_menuSteps {order : OrderTable} {batch : Batch} (h : batch.Fits order) :
    ∀ step ∈ menuSteps false batch.commands, step.Fits order batch.path := by
  intro step hstep
  refine ⟨h.1, fun command heq => h.2 command ?_⟩
  have hedit : (batch.path, command) ∈ (menuSteps false batch.commands).flatMap (·.edits batch.path) :=
    List.mem_flatMap.2 ⟨step, hstep, heq ▸ List.mem_singleton.2 rfl⟩
  rw [edits_menuSteps] at hedit
  obtain ⟨other, hother, hpair⟩ := List.mem_map.1 hedit
  cases hpair
  exact hother

/-- The lines of a script have its commands, in the order in which they are carried out. -/
theorem Script.edits_menuSteps (script : Script) : (script.menuSteps.flatMap fun (path, step) => step.edits path) = script.edits := by
  rw [menuSteps, List.flatMap_assoc]
  simp only [List.flatMap_map, Batch.edits_menuSteps]
  exact Batch.flatMap_filter (fun batch hnone => by rw [hnone, List.map_nil]) script.batches

/-! ## A router that does what it is told -/

namespace SimulatedRouter

variable {router : SimulatedRouter} {c : Configuration}

/-- The commands of a line are carried out when it is sent. -/
theorem send_line {path : Path} {step : MenuStep} (h : step.Fits router.configuration.order path)
    (hok : Configuration.loadAll (step.edits path) router.configuration = (.ok (), c)) :
    ((device {}).send (step.line path)).run router =
      (.ok "", { router with configuration := c, sent := router.sent ++ [step.line path] }) := by
  obtain ⟨script, hread, hedits⟩ := step.exists_read h
  have hobey : obey { router with sent := router.sent ++ [step.line path] } (step.line path) =
      (.ok (), { router with configuration := c, sent := router.sent ++ [step.line path] }) := by
    rw [obey, hread]
    simp only [Configuration.replay, hedits, hok]
    rfl
  exact (congrArg (fun result : Except String Unit × SimulatedRouter => (result.1.map fun () => "", result.2)) hobey :)

/-- Lines whose commands go through one after the other are all accepted, and leave what the commands make. -/
theorem accepts_steps {steps : List (Path × MenuStep)} (h : ∀ line ∈ steps, line.2.Fits router.configuration.order line.1)
    (hok : Configuration.loadAll (steps.flatMap fun (path, step) => step.edits path) router.configuration = (.ok (), c)) :
    (device {}).Accepts router (steps.map fun (path, step) => step.line path)
      { router with configuration := c, sent := router.sent ++ steps.map fun (path, step) => step.line path } := by
  induction steps generalizing router with
  | nil =>
    cases hok
    rw [List.map_nil, List.append_nil]
    exact .nil router
  | cons line steps ih =>
    obtain ⟨hline, hsteps⟩ := List.forall_mem_cons.1 h
    rw [List.flatMap_cons] at hok
    obtain ⟨next, hfirst, hrest⟩ := Configuration.exists_of_loadAll_append hok
    have horder : next.order = router.configuration.order := by
      have hframe := (Configuration.frame_loadAll (line.2.edits line.1) router.configuration).1
      rwa [hfirst] at hframe
    have hall := @ih { router with configuration := next, sent := router.sent ++ [line.2.line line.1] } (by rwa [horder]) hrest
    rw [List.append_assoc] at hall
    exact .cons (send_line hline hfirst) hall

/-- A router accepts the lines of a script that its configuration can carry out, one by one, and then has the configuration that
the script makes. -/
theorem accepts_wireLines {script : Script} (h : ∀ batch ∈ script.workingBatches, batch.Fits router.configuration.order)
    (hok : router.configuration.apply script = .ok c) :
    (device {}).Accepts router script.wireLines
      { router with configuration := c, sent := router.sent ++ script.wireLines } := by
  rw [Configuration.apply_eq_ok_iff, ← script.edits_menuSteps] at hok
  rw [script.wireLines_eq]
  refine accepts_steps (fun line hline => ?_) hok
  obtain ⟨batch, hbatch, hstep⟩ := List.mem_flatMap.1 hline
  obtain ⟨step, hmem, rfl⟩ := List.mem_map.1 hstep
  exact Batch.fits_menuSteps (h batch hbatch) step hmem

end SimulatedRouter

end RouterPlan
