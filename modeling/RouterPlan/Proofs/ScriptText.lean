import RouterPlan.Pattern.Engine
import RouterPlan.Proofs.Lemmas.ScriptTree
import RouterPlan.Proofs.Reachable

/-!
# Scripts as texts

A script that a comparison or a reading made can be written in either form and read back, if all that it says is printable. Main
statement: both readings go through and give the same sections with the same commands in the same order, so they do the same to
every configuration (`text_exact`). What carries this is that the batches lie where their paths say and that every command is
allowed where it stands (`Script.WellFormed`).
-/

namespace RouterPlan

/-- An edit that has an effect is allowed in its section. -/
theorem Section.Effect.checkAllowed {s s' : Section} {command : Command} (h : s.Effect command s') (path : Path) :
    command.checkAllowed path s.mode = .ok () := by
  cases h with
  | @add item before hnew hbefore =>
    cases before with
    | none => rfl
    | some position => exact if_pos (hbefore position rfl).1
  | remove hitem => rfl
  | move hmode hitem hbefore => exact if_pos hmode
  | set hne hnew => rfl

/-- Edits that have an effect one after the other are allowed in their section. -/
theorem Section.Effects.checkAllowed {φ : Section → Command → Prop} {s s' : Section} {commands : List Command}
    (h : Effects φ s commands s') (path : Path) : ∀ command ∈ commands, command.checkAllowed path s.mode = .ok () := by
  induction h with
  | refl => exact List.forall_mem_nil _
  | step _ he _ ih =>
    rw [he.frame.2.1] at ih
    exact List.forall_mem_cons.2 ⟨he.checkAllowed path, ih⟩

namespace Script

/-- Every batch lies where its path says, and its commands are allowed there. -/
structure WellFormed (order : OrderTable) (script : Script) : Prop where
  placed : script.Placed
  allowed : ∀ batch ∈ script.batches, ∀ command ∈ batch.commands,
    command.checkAllowed batch.path (order.modeFor batch.path) = .ok ()

theorem wellFormed_empty (order : OrderTable) : empty.WellFormed order where
  placed := ⟨rfl, trivial⟩
  allowed := by
    intro batch hbatch command hcommand
    rw [List.mem_singleton.1 hbatch] at hcommand
    cases hcommand

/-- A command that is allowed at its path can be pushed. -/
theorem WellFormed.push {order : OrderTable} {script : Script} (h : script.WellFormed order) {path : Path} {command : Command}
    (hallowed : command.checkAllowed path (order.modeFor path) = .ok ()) : (script.push order path command).WellFormed order where
  placed := h.placed.editAt (Batch.tracks order) fun _ => rfl
  allowed := by
    refine Outline.Placed.entries_editAt (Batch.tracks order) (fun _ _ _ command hcommand => ?_) h.placed
      (fun batch hpath hbatch => ?_) h.allowed
    · cases hcommand
    · intro other hother
      rcases List.mem_append.1 hother with hother | hother
      · exact hbatch other hother
      · rw [List.mem_singleton.1 hother, hpath]
        exact hallowed

/-- A statement that is followed keeps a script well-formed. -/
theorem WellFormed.follow {order : OrderTable} {script next : Script} (h : script.WellFormed order) {s : Statement}
    (hok : follow order script s = .ok next) : next.WellFormed order := by
  unfold Script.follow at hok
  split at hok
  · cases hok
  · split at hok
    · rename_i hallowed
      cases hok
      exact h.push hallowed
    · cases hok
  · cases hok
    exact h

/-- A script that was read is well-formed. -/
theorem wellFormed_of_read {order : OrderTable} {text : String} {script : Script} (h : read order text = .ok script) :
    script.WellFormed order :=
  foldlM_keeps (fun _ _ _ hscript hok => hscript.follow hok) (wellFormed_empty order) h

/-- A script that a comparison made is well-formed. -/
theorem wellFormed_of_diff {base target : Configuration} {script : Script} (hb : base.WellFormed) (ht : target.WellFormed)
    (h : base.diff target = .ok script) : script.WellFormed base.order := by
  obtain ⟨script', merged, -, hdiff, -, hplaced, hpasses⟩ := Configuration.exists_script_passes hb ht
  cases hdiff.symm.trans h
  refine ⟨hplaced, fun batch hbatch command hcommand => ?_⟩
  have hallowed := (hpasses batch.path).effects.checkAllowed batch.path command
  rw [(hb.sectionAt batch.path).mode, hb.path_sectionAt] at hallowed
  refine hallowed ?_
  have hedit : (batch.path, command) ∈ script.edits :=
    List.mem_flatMap.2 ⟨batch, hbatch, List.mem_map.2 ⟨command, hcommand, rfl⟩⟩
  exact List.mem_map.2 ⟨_, List.mem_filter.2 ⟨hedit, by simp⟩, rfl⟩

/-- The scripts that there are under an order table: those that lead from one configuration to another, and those that were
read. -/
inductive Made (order : OrderTable) : Script → Prop where
  | diff {base target : Configuration} {script : Script} (hb : base.Reachable) (ht : target.Reachable)
      (horder : base.order = order) (h : base.diff target = .ok script) : Made order script
  | read {text : String} {script : Script} (h : read order text = .ok script) : Made order script

theorem Made.wellFormed {order : OrderTable} {script : Script} (h : script.Made order) : script.WellFormed order := by
  cases h with
  | diff hb ht horder h => exact horder ▸ wellFormed_of_diff hb.wellFormed ht.wellFormed h
  | read h => exact wellFormed_of_read h

/-- The sections with commands, in the order in which they are carried out. -/
def sections (script : Script) : List (Path × List Command) :=
  script.workingBatches.map fun batch => (batch.path, batch.commands)

/-- Scripts with the same sections do the same to every configuration. -/
theorem replay_congr {script other : Script} (h : script.sections = other.sections) (c : Configuration) :
    c.replay script = c.replay other := by
  rw [Configuration.replay, Configuration.replay, edits_eq_flatMap_working, edits_eq_flatMap_working]
  exact congrArg (fun sections => Configuration.loadAll (sections.flatMap fun batch => batch.2.map (batch.1, ·)) c) h

/-- A script that was made under an order table and in which everything is printable is written in both forms so that reading
under that table gives it back: both readings go through, with the same sections, each with the same commands, in the same order.
So all three do the same to every configuration: the same commands are carried out, the same one is refused, and the same
configuration is left. -/
theorem text_exact {order : OrderTable} {script : Script} (h : script.Made order) (hp : script.Printable) :
    ∃ pretty wire, read order script.prettyText = .ok pretty ∧ read order ("\n".intercalate script.wireLines) = .ok wire ∧
      pretty.sections = script.sections ∧ wire.sections = script.sections ∧
      ∀ c : Configuration, (c.replay pretty = c.replay script ∧ c.replay wire = c.replay script) ∧
        c.apply pretty = c.apply script ∧ c.apply wire = c.apply script := by
  have hwf := h.wellFormed
  have hfits : ∀ batch ∈ script.workingBatches, batch.Fits order := by
    intro batch hbatch
    obtain ⟨hpath, hcommands⟩ := hp batch hbatch
    exact ⟨hpath, fun command hcommand =>
      ⟨hcommands command hcommand, hwf.allowed batch (List.mem_filter.1 hbatch).1 command hcommand⟩⟩
  have hsections : (empty.pushBatches order script.workingBatches).sections = script.sections :=
    hwf.placed.working_pushBatches
  refine ⟨_, _, read_prettyText hfits, read_wireLines hfits, hsections, hsections, fun c => ?_⟩
  have hreplay := replay_congr hsections c
  simp only [Configuration.apply, hreplay, and_self]

/-- The lines of a sample script: blanks and quotes in a value, equals signs in another one, and a bracket between the quotes of a
locator. -/
def sampleLines : List String :=
  ["/ip firewall filter add comment=\"say \\\"a b\\\"\" place-before=0", "/add a=b=c",
    "/ip firewall filter set [find name=\"x]\"] a=b=c", "/ip firewall filter remove 1"]

/-- The sample script is written with its root first and with a line that asks for new numbers, and is read back. -/
theorem text_exact_sample :
    ∃ script pretty wire, read .builtin ("\n".intercalate sampleLines) = .ok script ∧ script.Printable ∧
      script.wireLines = ["/add a=b=c", "/ip firewall filter add comment=\"say \\\"a b\\\"\" place-before=0",
        "/ip firewall filter set [find name=\"x]\"] a=b=c", "/ip firewall filter print", "/ip firewall filter remove 1"] ∧
      read .builtin script.prettyText = .ok pretty ∧ read .builtin ("\n".intercalate script.wireLines) = .ok wire ∧
      pretty.sections = script.sections ∧ wire.sections = script.sections := by
  have hcomputed : (read .builtin ("\n".intercalate sampleLines)).map
      (fun script => (decide script.Printable, script.wireLines)) = .ok (true, ["/add a=b=c",
        "/ip firewall filter add comment=\"say \\\"a b\\\"\" place-before=0",
        "/ip firewall filter set [find name=\"x]\"] a=b=c", "/ip firewall filter print", "/ip firewall filter remove 1"]) := by
    decide +kernel
  cases hread : read .builtin ("\n".intercalate sampleLines) with
  | error cause =>
    rw [hread] at hcomputed
    cases hcomputed
  | ok script =>
    rw [hread] at hcomputed
    obtain ⟨hprintable, hlines⟩ := Prod.mk.inj (Except.ok.inj hcomputed)
    have hprintable := of_decide_eq_true hprintable
    obtain ⟨pretty, wire, hpretty, hwire, hprettySame, hwireSame, -⟩ := text_exact (.read hread) hprintable
    exact ⟨script, pretty, wire, rfl, hprintable, hlines, hpretty, hwire, hprettySame, hwireSame⟩

end Script

end RouterPlan
