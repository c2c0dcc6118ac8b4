import RouterPlan.Proofs.Lemmas.WrittenLines
import RouterPlan.Reading

/-!
# Reading back the lines of a script

What some lines make of a script is `Statement.Reads` with the following of scripts. Main statements: reading either form of a
script pushes its commands in the order in which they are carried out (`Script.read_prettyText`, `Script.read_wireLines`).
-/

namespace RouterPlan

/-- All of a batch is printable, and its commands fit its section. -/
def Batch.Fits (order : OrderTable) (batch : Batch) : Prop :=
  batch.path.Printable ∧ ∀ command ∈ batch.commands,
    command.Printable ∧ command.checkAllowed batch.path (order.modeFor batch.path) = .ok ()

/-! ## What lines make of a script -/

namespace Script

variable {order : OrderTable}

open Statement

/-- A command that fits its section is pushed. -/
theorem follow_edit {script : Script} {path : Path} {command : Command}
    (hallowed : command.checkAllowed path (order.modeFor path) = .ok ()) (number : Nat) (text : String) :
    follow order script ⟨number, text, path, .ok (.edit command)⟩ = .ok (script.push order path command) := by
  simp only [follow, hallowed]

/-- A command with a path is for that section. -/
theorem reads_withCommand (current : Path) (script : Script) {path : Path} (hpath : path.Printable) {command : Command}
    (h : command.Printable) (hallowed : command.checkAllowed path (order.modeFor path) = .ok ()) :
    Reads (follow order) current script [(path.withCommand command.text).toList] current (script.push order path command) := by
  obtain ⟨hline, hne⟩ := Path.isLine_command hpath h
  exact reads_singleton hline hne (Statement.ofLine_withCommand_text current hpath h) (if_neg (by simp))
    (follow_edit hallowed)

/-- A line that asks for new numbers edits nothing. -/
theorem reads_refresh (current : Path) (script : Script) {path : Path} (hpath : path.Printable) :
    Reads (follow order) current script [(path.withCommand refreshWord).toList] current script := by
  obtain ⟨hline, hne⟩ := Path.isLine_refresh hpath
  exact reads_singleton hline hne (Statement.ofLine_withCommand_refreshWord current hpath) (if_neg (by simp)) fun _ _ => rfl

/-! ## Both forms of a script -/

/-- The script with more commands for the section at a path. -/
def pushAll (script : Script) (order : OrderTable) (path : Path) (commands : List Command) : Script :=
  commands.foldl (fun script command => script.push order path command) script

/-- The script with the commands of some batches. -/
def pushBatches (script : Script) (order : OrderTable) (batches : List Batch) : Script :=
  batches.foldl (fun script batch => script.pushAll order batch.path batch.commands) script

/-- Bare commands are for the current section. -/
theorem reads_commands (current : Path) (script : Script) {commands : List Command}
    (h : ∀ command ∈ commands, command.Printable ∧ command.checkAllowed current (order.modeFor current) = .ok ()) :
    Reads (follow order) current script (commands.map (·.text.toList)) current (script.pushAll order current commands) := by
  induction commands generalizing script with
  | nil => exact .nil current script
  | cons command commands ih =>
    obtain ⟨⟨hprintable, hallowed⟩, hrest⟩ := List.forall_mem_cons.1 h
    exact (reads_command current hprintable (follow_edit hallowed)).cons (ih _ hrest)

/-- A batch is read with its header. -/
theorem reads_batch (current : Path) (script : Script) {batch : Batch} (h : batch.Fits order) :
    Reads (follow order) current script (batch.prettyLines.map (·.toList)) batch.path
      (script.pushAll order batch.path batch.commands) := by
  rw [Batch.prettyLines, List.map_cons, List.map_map]
  exact (reads_header current h.1 fun _ _ => rfl).cons (reads_commands batch.path script h.2)

/-- Batches are read with an empty line between two of them. -/
theorem reads_batches (current : Path) (script : Script) {batches : List Batch} (h : ∀ batch ∈ batches, batch.Fits order) :
    ∃ current', Reads (follow order) current script (([""].intercalate (batches.map (·.prettyLines))).map (·.toList)) current'
      (script.pushBatches order batches) := by
  induction batches generalizing current script with
  | nil => exact ⟨current, .nil current script⟩
  | cons batch batches ih =>
    obtain ⟨hbatch, hbatches⟩ := List.forall_mem_cons.1 h
    have hfirst := reads_batch current script hbatch
    cases batches with
    | nil =>
      rw [List.map_cons, List.map_nil, List.intercalate_singleton]
      exact ⟨_, hfirst⟩
    | cons next batches =>
      obtain ⟨current', hrest⟩ := ih batch.path (script.pushAll order batch.path batch.commands) hbatches
      rw [List.map_cons, List.map_cons, List.intercalate_cons_cons, ← List.map_cons, List.append_assoc, List.map_append,
        List.map_append]
      exact ⟨current', hfirst.append ((reads_nil _ _).cons hrest)⟩

/-- Commands with their paths are read whatever the current section is; what asks for new numbers is passed over. -/
theorem reads_wireCommands (current : Path) (script : Script) {path : Path} (hpath : path.Printable) (stale : Bool)
    {commands : List Command}
    (h : ∀ command ∈ commands, command.Printable ∧ command.checkAllowed path (order.modeFor path) = .ok ()) :
    Reads (follow order) current script ((Batch.wireCommands path stale commands).map (·.toList)) current
      (script.pushAll order path commands) := by
  induction commands generalizing script stale with
  | nil => exact .nil current script
  | cons command commands ih =>
    obtain ⟨⟨hprintable, hallowed⟩, hrest⟩ := List.forall_mem_cons.1 h
    have hcommand := reads_withCommand current script hpath hprintable hallowed
    rw [Batch.wireCommands, List.map_append, List.map_cons]
    refine Statement.Reads.append ?_ (hcommand.cons (ih _ _ hrest))
    split
    · exact reads_refresh current script hpath
    · exact .nil current script

/-- The lines for a device are read batch by batch. -/
theorem reads_wireBatches (current : Path) (script : Script) {batches : List Batch}
    (h : ∀ batch ∈ batches, batch.Fits order) :
    Reads (follow order) current script ((batches.flatMap (·.wireLines)).map (·.toList)) current
      (script.pushBatches order batches) := by
  induction batches generalizing script with
  | nil => exact .nil current script
  | cons batch batches ih =>
    obtain ⟨hbatch, hbatches⟩ := List.forall_mem_cons.1 h
    rw [List.flatMap_cons, List.map_append]
    exact (reads_wireCommands current script hbatch.1 false hbatch.2).append (ih _ hbatches)

/-- The lines of a batch are lines, and none is empty. -/
theorem isLine_batch {batch : Batch} (h : batch.Fits order) : ∀ l ∈ batch.prettyLines, Text.IsLine l.toList ∧ l ≠ "" := by
  intro l hl
  rcases List.mem_cons.1 hl with rfl | hl
  · refine ⟨Path.isLine_text h.1, fun heq => ?_⟩
    have hslash := Statement.head?_text batch.path
    rw [heq] at hslash
    cases hslash
  · obtain ⟨command, hcommand, rfl⟩ := List.mem_map.1 hl
    have hprintable := (h.2 command hcommand).1
    exact ⟨Command.isLine_text hprintable, fun heq => (Command.ends_text hprintable).ne_nil (heq ▸ rfl)⟩

/-- The lines of batches for reading are lines, and the last one is not empty. -/
theorem isLine_batches {batches : List Batch} (h : ∀ batch ∈ batches, batch.Fits order) :
    (∀ l ∈ [""].intercalate (batches.map (·.prettyLines)), Text.IsLine l.toList) ∧
      (batches ≠ [] → ∃ l, ([""].intercalate (batches.map (·.prettyLines))).getLast? = some l ∧ l ≠ "") := by
  induction batches with
  | nil => exact ⟨fun l hl => absurd hl List.not_mem_nil, fun hne => absurd rfl hne⟩
  | cons batch batches ih =>
    obtain ⟨hbatch, hbatches⟩ := List.forall_mem_cons.1 h
    have hfirst := isLine_batch hbatch
    cases batches with
    | nil =>
      rw [List.map_cons, List.map_nil, List.intercalate_singleton]
      refine ⟨fun l hl => (hfirst l hl).1, fun _ => ?_⟩
      obtain ⟨l, hl⟩ := Option.isSome_iff_exists.1 (List.getLast?_isSome.2 (List.cons_ne_nil _ _ : batch.prettyLines ≠ []))
      exact ⟨l, hl, (hfirst l (List.mem_of_getLast? hl)).2⟩
    | cons next batches =>
      obtain ⟨hlines, hlast⟩ := ih hbatches
      rw [List.map_cons, List.map_cons, List.intercalate_cons_cons, ← List.map_cons, List.append_assoc]
      refine ⟨fun l hl => ?_, fun _ => ?_⟩
      · rcases List.mem_append.1 hl with hl | hl
        · exact (hfirst l hl).1
        · rcases List.mem_cons.1 hl with rfl | hl
          · exact Text.isLine_nil
          · exact hlines l hl
      · obtain ⟨l, hl, hne⟩ := hlast (List.cons_ne_nil _ _)
        exact ⟨l, by rw [List.getLast?_append, List.getLast?_append, hl, Option.some_or, Option.some_or], hne⟩

/-- The lines of a batch for a device are lines, and none is empty. -/
theorem isLine_wireCommands {path : Path} (hpath : path.Printable) {commands : List Command}
    (h : ∀ command ∈ commands, command.Printable) (stale : Bool) :
    ∀ l ∈ Batch.wireCommands path stale commands, Text.IsLine l.toList ∧ l ≠ "" := by
  induction commands generalizing stale with
  | nil => exact fun l hl => absurd hl List.not_mem_nil
  | cons command commands ih =>
    obtain ⟨hcommand, hcommands⟩ := List.forall_mem_cons.1 h
    intro l hl
    rw [Batch.wireCommands] at hl
    rcases List.mem_append.1 hl with hl | hl
    · split at hl
      · obtain ⟨hline, hne⟩ := Path.isLine_refresh hpath
        rw [List.mem_singleton.1 hl]
        exact ⟨hline, fun heq => hne (heq ▸ rfl)⟩
      · cases hl
    · rcases List.mem_cons.1 hl with rfl | hl
      · obtain ⟨hline, hne⟩ := Path.isLine_command hpath hcommand
        exact ⟨hline, fun heq => hne (heq ▸ rfl)⟩
      · exact ih hcommands _ l hl

/-- Reading the text for reading pushes the commands of the sections again, in order. -/
theorem read_prettyText {script : Script} (h : ∀ batch ∈ script.workingBatches, batch.Fits order) :
    read order script.prettyText = .ok (empty.pushBatches order script.workingBatches) := by
  obtain ⟨hlines, hlast⟩ := isLine_batches h
  obtain ⟨current, hreads⟩ := reads_batches .root empty h
  refine foldlM_intercalate hlines (fun heq => ?_) hreads
  cases hbatches : script.workingBatches with
  | nil =>
    rw [hbatches] at heq
    cases heq
  | cons batch batches =>
    obtain ⟨l, hl, hne⟩ := hlast (by rw [hbatches]; exact List.cons_ne_nil _ _)
    cases hl.symm.trans heq
    exact hne rfl

/-- Reading the lines for a device does so too. -/
theorem read_wireLines {script : Script} (h : ∀ batch ∈ script.workingBatches, batch.Fits order) :
    read order ("\n".intercalate script.wireLines) = .ok (empty.pushBatches order script.workingBatches) := by
  have hlines : ∀ l ∈ script.wireLines, Text.IsLine l.toList ∧ l ≠ "" := by
    intro l hl
    obtain ⟨batch, hbatch, hl⟩ := List.mem_flatMap.1 hl
    exact isLine_wireCommands (h batch hbatch).1 (fun command hcommand => ((h batch hbatch).2 command hcommand).1) false l hl
  refine foldlM_intercalate (fun l hl => (hlines l hl).1) (fun heq => ?_) (reads_wireBatches .root empty h)
  exact (hlines "" (List.mem_of_getLast? heq)).2 rfl

end Script

end RouterPlan
