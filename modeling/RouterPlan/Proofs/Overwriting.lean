import Mathlib.Data.List.Basic
import RouterPlan.Proofs.Lemmas.DiskRuns

/-!
# What a task writes over

A task with an output looks at files until it has all it needs, makes sure that the output is none of its inputs, and then writes the
output. Main statement: such a run fails and leaves the disk as it was, or it puts its text at the place of the output, where none of
its inputs is; the profile does not count as one, and where it is found at that place it is written over (`run_output`).
-/

namespace RouterPlan.Cli

/-! ## Files of a task -/

/-- The files that a task is given to read, apart from the profile. -/
def Task.inputs : Task → List String
  | .diff base target _ _ _ => [base, target]
  | .apply base script _ => [base, script]
  | .check actual expected => [actual, expected]
  | .inspect file _ _ => [file]

/-- The file that a task is asked to write. -/
def Task.output? : Task → Option String
  | .diff _ _ _ _ output => output
  | .apply _ _ output => output
  | _ => none

variable {disk disk' : Disk} {output : String} {inputs : List String}

/-! ## Steps before the write -/

theorem ends_useFiles {α : Type} {work : StateM Disk (Except FileError α)} {result : Except FileError α}
    (h : work.run disk = (result, disk')) (complain : String → Complaint) :
    (useFiles work complain).Ends disk (result.mapError fun cause => complain cause.message) disk' :=
  (Run.ends_perform h).bind (Run.ends_ofExcept _ disk')

/-- A text is read from a file that is there. -/
theorem looks_read (disk : Disk) (file : String) (complain : String → Complaint) :
    (useFiles (Disk.files.read file) complain).Looks disk fun _ => ∃ place node, disk.find file = .ok (place, node) := by
  refine (ends_useFiles (Disk.run_read disk file) complain).looks.imp fun text htext => ?_
  obtain ⟨place, hfind⟩ := Disk.find_of_read (mapError_eq_ok_iff.1 htext)
  exact ⟨place, _, hfind⟩

/-- A configuration is loaded from a file that is there. -/
theorem looks_load (disk : Disk) (order : OrderTable) (file : String) :
    (load Disk.files order file).Looks disk fun _ => ∃ place node, disk.find file = .ok (place, node) := by
  rw [load]
  refine (looks_read disk file _).bind fun text hfound => ?_
  exact ((Run.ends_read order text disk).mapError _).looks.imp fun _ _ => hfound

/-- A profile that cannot be used does not stop the run. -/
theorem looks_resolveProfile [RegexEngine] (disk : Disk) (profile : Option String) :
    (resolveProfile Disk.files profile).Looks disk fun _ => True := by
  unfold resolveProfile
  split
  · exact .pure trivial disk
  · refine (Run.ends_perform (Disk.run_read disk _)).looks.bind fun answer _ => ?_
    dsimp only
    split
    · exact .pure trivial disk
    · exact (Run.ends_note _ disk).looks.bind fun _ _ => .pure trivial disk

/-- If the output is not refused, it leads to the place of no input. -/
theorem looks_refuseOverwrite (hhome : ∀ name ∈ disk.home, IsName name) (output : String) (inputs : List String) :
    (refuseOverwrite Disk.files output inputs).Looks disk fun _ =>
      ∀ input ∈ inputs, ∀ place node, disk.find input = .ok (place, node) → disk.locate output ≠ .ok place := by
  rw [refuseOverwrite]
  split
  · exact (Run.ends_ofExcept _ disk).looks.imp fun _ herror => by cases herror
  · rename_i name hname
    refine (ends_useFiles (Disk.run_resolve disk _) _).looks.bind fun text htext => ?_
    obtain ⟨directory, _, hfound, rfl⟩ := Disk.exists_of_resolve (mapError_eq_ok_iff.1 htext)
    obtain ⟨hdirectory, -⟩ := Disk.find_eq_ok_iff.1 hfound
    have hnames := Disk.isName_of_locate hhome hdirectory
    refine (Run.ends_perform (Disk.run_resolve disk _)).looks.bind fun answer hanswer => ?_
    rw [ite_placeText hnames] at hanswer ⊢
    refine (Run.looks_forIn (Q := fun input => ∀ place node, disk.find input = .ok (place, node) →
      disk.locate output ≠ .ok place) fun input _ => ?_).bind fun _ hapart => .pure hapart disk
    refine (Run.ends_perform (Disk.run_resolve disk input)).looks.bind fun found hfound => ?_
    cases hfound
    cases hresolve : disk.resolve input with
    | error cause =>
      refine .pure ⟨rfl, fun place node hfind => ?_⟩ disk
      rw [Disk.resolve_of_find hfind] at hresolve
      cases hresolve
    | ok text =>
      refine .ite (fun _ => .bind (Run.ends_ofExcept (.error _) disk).looks fun _ herror => by cases herror) fun hne => ?_
      refine .pure ⟨rfl, fun place node hfind hlocate => hne ?_⟩ disk
      cases hresolve.symm.trans (Disk.resolve_of_find hfind)
      have hplace : place = directory ++ [name] := Disk.place_of_locate hname hdirectory hlocate
      have hnames' : ∀ name ∈ place, IsName name := Disk.isName_of_locate hhome hlocate
      rw [← hplace] at hanswer ⊢
      rw [beq_iff_eq]
      cases answer with
      | error cause => rfl
      | ok text => exact (Disk.eq_of_resolve_placeText hnames' (Except.ok.inj hanswer)).symm

/-! ## The write -/

/-- How a task with an output ends on a disk: it fails and leaves the disk as it was, or it has printed and put its text at the place of
the output, and every input is at another place. -/
inductive Saves (disk : Disk) (output : String) (inputs : List String) : Except Complaint Printed → Disk → Prop where
  | failed (complaint : Complaint) : Saves disk output inputs (.error complaint) disk
  | saved {place : List String} (printed text : String) (hplace : disk.locate output = .ok place)
      (hnode : disk.node? place ≠ some .directory)
      (hinputs : ∀ input ∈ inputs, ∃ other node, other ≠ place ∧ disk.find input = .ok (other, node)) :
      Saves disk output inputs (.ok { text := printed }) (disk.put place (.file (some text)))

/-- The run ends as a task with this output ends. -/
def EndsSaving (run : Run (StateM Disk) Complaint Printed) (disk : Disk) (output : String) (inputs : List String) : Prop :=
  ∃ result disk', run.Ends disk result disk' ∧ Saves disk output inputs result disk'

/-- Looking does not change how the rest ends. -/
theorem EndsSaving.bind {α : Type} {P : α → Prop} {run : Run (StateM Disk) Complaint α} {f : α → Run (StateM Disk) Complaint Printed}
    (h : run.Looks disk P) (h' : ∀ a, P a → EndsSaving (f a) disk output inputs) : EndsSaving (run >>= f) disk output inputs := by
  rcases h with ⟨complaint, hends⟩ | ⟨a, ha, hends⟩
  · exact ⟨_, disk, hends.bind_error, .failed complaint⟩
  · obtain ⟨result, disk', hrest, hsaves⟩ := h' a ha
    exact ⟨result, disk', hends.bind hrest, hsaves⟩

/-- The output is written when it has been made sure that it is none of the inputs. -/
theorem endsSaving_write (hhome : ∀ name ∈ disk.home, IsName name)
    (hinputs : ∀ input ∈ inputs, ∃ place node, disk.find input = .ok (place, node)) (text : String)
    (complain : String → Complaint) {rest : Run (StateM Disk) Complaint Printed}
    (hrest : ∃ printed, ∀ disk', rest.Ends disk' (.ok { text := printed }) disk') :
    EndsSaving (do
      refuseOverwrite Disk.files output inputs
      useFiles (Disk.files.write output text) complain
      rest) disk output inputs := by
  obtain ⟨printed, hrest⟩ := hrest
  refine .bind (looks_refuseOverwrite hhome output inputs) fun _ hapart => ?_
  rcases disk.write_cases output text with ⟨cause, hwrite⟩ | ⟨place, hplace, hnode, hwrite⟩
  · exact ⟨_, disk, (ends_useFiles ((disk.run_write output text).trans hwrite) complain).bind_error, .failed _⟩
  · refine ⟨_, _, (ends_useFiles ((disk.run_write output text).trans hwrite) complain).bind (hrest _), ?_⟩
    refine .saved printed text hplace hnode fun input hinput => ?_
    obtain ⟨other, node, hfind⟩ := hinputs input hinput
    exact ⟨other, node, fun heq => hapart input hinput other node hfind (heq ▸ hplace), hfind⟩

/-! ## Tasks -/

theorem endsSaving_runDiff (hhome : ∀ name ∈ disk.home, IsName name) (colored : Bool) (order : OrderTable) (base target : String)
    (format : Format) (summary : Bool) :
    EndsSaving (runDiff Disk.files colored order base target format summary (some output)) disk output [base, target] := by
  rw [runDiff]
  refine .bind (looks_load disk order base) fun before hbase => ?_
  refine .bind (looks_load disk order target) fun after htarget => ?_
  refine .bind ((Run.ends_diff before after disk).mapError _).looks fun script _ => ?_
  have hinputs : ∀ input ∈ [base, target], ∃ place node, disk.find input = .ok (place, node) := by
    simpa using ⟨hbase, htarget⟩
  exact endsSaving_write hhome hinputs _ _ ⟨_, fun disk' => (Run.ends_note _ disk').bind (.pure _ disk')⟩

theorem endsSaving_runApply (hhome : ∀ name ∈ disk.home, IsName name) (order : OrderTable) (base script : String) :
    EndsSaving (runApply Disk.files order base script (some output)) disk output [base, script] := by
  rw [runApply]
  refine .bind (looks_load disk order base) fun before hbase => ?_
  refine .bind (looks_read disk script _) fun text hscript => ?_
  refine .bind (Run.ends_ofExcept _ disk).looks fun edits _ => ?_
  refine .bind (Run.ends_ofExcept _ disk).looks fun result _ => ?_
  have hinputs : ∀ input ∈ [base, script], ∃ place node, disk.find input = .ok (place, node) := by
    simpa using ⟨hbase, hscript⟩
  exact endsSaving_write hhome hinputs _ _ ⟨_, fun disk' => .pure _ disk'⟩

/-- A task with an output ends as such a task does, whatever the profile is. -/
theorem endsSaving_perform [RegexEngine] (hhome : ∀ name ∈ disk.home, IsName name) (colored : Bool) {invocation : Invocation}
    (houtput : invocation.task.output? = some output) :
    EndsSaving (perform Disk.files colored invocation) disk output invocation.task.inputs := by
  rw [perform]
  refine .bind (looks_resolveProfile disk invocation.profile) fun order _ => ?_
  cases htask : invocation.task with
  | diff base target format summary output' =>
    rw [htask] at houtput
    cases houtput
    exact endsSaving_runDiff hhome colored order base target format summary
  | apply base script output' =>
    rw [htask] at houtput
    cases houtput
    exact endsSaving_runApply hhome order base script
  | check actual expected =>
    rw [htask] at houtput
    cases houtput
  | inspect file under json =>
    rw [htask] at houtput
    cases houtput

/-- A whole run ends as its task does, and its exit code says whether the output was written. -/
theorem saves_run [RegexEngine] (hhome : ∀ name ∈ disk.home, IsName name) (colored : Bool) {arguments : List String}
    {invocation : Invocation} (h : Invocation.ofArguments arguments = .ok invocation) (houtput : invocation.task.output? = some output) :
    ∃ result journal disk', Saves disk output invocation.task.inputs result disk' ∧
      (run Disk.files colored arguments).run disk = (.ofOutcome colored invocation.level (result, journal), disk') := by
  obtain ⟨result, disk', hends, hsaves⟩ := endsSaving_perform hhome colored houtput
  obtain ⟨journal, houtcome⟩ := hends.outcome
  refine ⟨result, journal, disk', hsaves, ?_⟩
  rw [run, h]
  dsimp only
  rw [StateT.run_bind, houtcome]
  rfl

/-- A run of a task with an output leaves its inputs as they are. If it fails it leaves everything as it is; otherwise the output is
written, at a place where no input is. What is found at any other place stays, and what is found at the place of the output, be it the
profile that the run has read, is written over. -/
theorem run_output [RegexEngine] (hhome : ∀ name ∈ disk.home, IsName name) (colored : Bool) {arguments : List String}
    {invocation : Invocation} (h : Invocation.ofArguments arguments = .ok invocation)
    (houtput : invocation.task.output? = some output) {exit : Exit}
    (hrun : (run Disk.files colored arguments).run disk = (exit, disk')) :
    (∀ input ∈ invocation.task.inputs, disk'.find input = disk.find input) ∧ (exit.code ≠ 0 → disk' = disk) ∧
      (exit.code = 0 → ∃ place text, disk.locate output = .ok place ∧ disk'.find output = .ok (place, .file (some text)) ∧
        (∀ input ∈ invocation.task.inputs, ∃ other node, other ≠ place ∧ disk.find input = .ok (other, node)) ∧
        ∀ file other node, disk.find file = .ok (other, node) →
          disk'.find file = .ok (other, if other = place then .file (some text) else node)) := by
  obtain ⟨result, journal, _, hsaves, hended⟩ := saves_run hhome colored h houtput
  cases hrun.symm.trans hended
  cases hsaves with
  | failed complaint => exact ⟨fun _ _ => rfl, fun _ => rfl, fun hcode => by cases hcode⟩
  | saved printed text hplace hnode hinputs =>
    rename_i place
    refine ⟨fun input hinput => ?_, fun hcode => absurd rfl hcode, fun _ => ⟨place, text, hplace, ?_, hinputs, ?_⟩⟩
    · obtain ⟨other, node, hne, hfind⟩ := hinputs input hinput
      rw [Disk.find_put hnode _ hfind, if_neg hne, hfind]
    · rw [Disk.find_eq_ok_iff, Disk.locate_put hnode, Disk.node?_put hnode]
      exact ⟨hplace, if_pos rfl⟩
    · exact fun file other node => Disk.find_put hnode _

/-- A disk with two configurations and an empty profile. -/
def profiledDisk : Disk where
  nodes := [(["work", "p.toml"], .file (some "")), (["work", "a.rsc"], .file (some "/ip address\nadd address=a\n")),
    (["work", "b.rsc"], .file (some "/ip address\nadd address=b\n"))]
  home := ["work"]

/-- A comparison that is to write its script where its profile is. -/
def profileArguments : List String :=
  ["--profile", "p.toml", "diff", "a.rsc", "b.rsc", "--output", "p.toml"]

/-- The profile that a run has read is written over by the run. -/
theorem run_output_profile :
    (∀ input ∈ ["a.rsc", "b.rsc"],
      ((run Disk.files false profileArguments).run profiledDisk).2.find input = profiledDisk.find input) ∧
    profiledDisk.read "p.toml" = .ok "" ∧
    ((run Disk.files false profileArguments).run profiledDisk).2.read "p.toml" =
      .ok "/ip address remove 0\n/ip address add address=b\n" := by
  have hhome : ∀ name ∈ profiledDisk.home, IsName name := by simp [profiledDisk, IsName]
  have h : Invocation.ofArguments profileArguments =
      .ok ⟨some "p.toml", 0, false, .diff "a.rsc" "b.rsc" .pretty false (some "p.toml")⟩ := by decide +kernel
  have houtput : (Task.diff "a.rsc" "b.rsc" .pretty false (some "p.toml")).output? = some "p.toml" := rfl
  exact ⟨(run_output hhome false h houtput rfl).1, by decide +kernel, by decide +kernel⟩

end RouterPlan.Cli
