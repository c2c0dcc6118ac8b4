import RouterPlan.Pattern.Engine
import RouterPlan.Proofs.Lemmas.Alike
import RouterPlan.Proofs.Lemmas.Statements
import RouterPlan.Proofs.Reachable

/-!
# Grouping commands by section

A text may go from one section to another and back; a script carries out the commands of one section after those of another. Main
statement: this makes no difference (`grouping_exact`). A script that was read has at each path the commands of the text for that
path, in the order of the text, and carrying it out is loading the text's edits one by one. So a text describes a configuration
exactly when it can be read as a script that can be carried out where nothing is. What carries this is that a list of edits acts on
each path apart from the others (`sectionAt_of_loadAll`, `exists_loadAll`).
-/

namespace RouterPlan

/-- The entries of the outlines within an outline are its entries. -/
theorem Outline.map_root_subOutlines {α : Type} (outline : Outline α) :
    outline.subOutlines.map (·.root) = outline.entries := by
  have hrow : ∀ f : Forest α, f.subOutlines.map (·.root) = f.entries := by
    intro f
    induction f with
    | nil => rfl
    | cons entry below rest ihBelow ihRest =>
      rw [Forest.subOutlines, Forest.entries, List.map_cons, List.map_append, ihBelow, ihRest]
  rw [subOutlines, entries, List.map_cons, hrow]

namespace Script

/-- The commands that a script holds for the section at a path, none if it does not have the section. -/
def commandsAt (script : Script) (path : Path) : List Command :=
  ((script.outlineAt? path).map (·.root.commands)).getD []

/-- The section at a path holds all that the script carries out there. -/
theorem Placed.commandsAt_eq {script : Script} (h : script.Placed) (path : Path) :
    script.commandsAt path = Configuration.atPath path script.edits := by
  have hfind : (script.outlineAt? path).map (·.root) = script.batch? path := by
    rw [outlineAt?, batch?, batches, ← Outline.map_root_subOutlines, List.find?_map]
    rfl
  rw [h.atPath_edits, ← hfind, commandsAt, Option.map_map]
  rfl

/-- A script that was read lies where its paths say, has at each path the commands of the text, and all of them are allowed. -/
theorem atPath_of_read {order : OrderTable} {text : String} {script : Script} (h : read order text = .ok script) :
    script.Placed ∧ ∀ path, Configuration.atPath path script.edits = Configuration.atPath path (Statement.editsOfText text) := by
  obtain ⟨-, -, rfl⟩ := foldlM_follow_eq_ok_iff.1 h
  have hempty : empty.Placed := ⟨rfl, trivial⟩
  exact ⟨hempty.pushEdits order _, fun path => hempty.atPath_pushEdits order _ path⟩

end Script

namespace Configuration

variable {c c' : Configuration} {edits edits' : List (Path × Command)}

/-- Edits that are the same path by path go through both or neither. -/
theorem exists_loadAll_congr (h : ∀ path, atPath path edits = atPath path edits') (hok : loadAll edits c = (.ok (), c')) :
    ∃ after, loadAll edits' c = (.ok (), after) :=
  exists_loadAll fun path => ⟨_, h path ▸ sectionAt_of_loadAll hok path⟩

/-- Edits that are the same path by path leave the same at each path. -/
theorem sectionAt_loadAll_congr {after : Configuration} (h : ∀ path, atPath path edits = atPath path edits')
    (hok : loadAll edits c = (.ok (), c')) (hok' : loadAll edits' c = (.ok (), after)) (path : Path) :
    c'.sectionAt path = after.sectionAt path := by
  have hloads := sectionAt_of_loadAll hok path
  rw [h path, sectionAt_of_loadAll hok' path] at hloads
  exact (Except.ok.inj hloads).symm

/-- What edits that go through leave at each path: the items, the settings and the recorded commands. -/
theorem WellFormed.logAt_loadAll (h : c.WellFormed) (hok : Configuration.loadAll edits c = (.ok (), c'))
    (path : Path) : c'.logAt path = c.logAt path ++ atPath path edits := by
  have hwf := h.loadAll edits
  rw [hok] at hwf
  rw [hwf.logAt_eq, h.logAt_eq]
  exact (Section.checkAllowed_of_loads (h.sectionAt path) (sectionAt_of_loadAll hok path)).2

/-- A text describes a configuration exactly when its lines are readable and its edits can be loaded where nothing is. -/
theorem exists_read_iff {order : OrderTable} {text : String} :
    (∃ c, read order text = .ok c) ↔ (∀ s ∈ Statement.ofText text, s.Readable) ∧
      ∃ c, loadAll (Statement.editsOfText text) (empty order) = (.ok (), c) := by
  constructor
  · rintro ⟨c, hread⟩
    obtain ⟨hreadable, hloads⟩ := sectionAt_of_foldlM_follow hread
    exact ⟨hreadable, exists_loadAll fun path => ⟨_, hloads path⟩⟩
  · rintro ⟨hreadable, c, hloaded⟩
    exact exists_foldlM_follow hreadable fun path => ⟨_, sectionAt_of_loadAll hloaded path⟩

/-- What can be loaded is allowed: a text that describes a configuration can be read as a script. -/
theorem exists_script_of_loadAll {order : OrderTable} {text : String} (hreadable : ∀ s ∈ Statement.ofText text, s.Readable)
    (hok : loadAll (Statement.editsOfText text) (empty order) = (.ok (), c)) : ∃ script, Script.read order text = .ok script := by
  refine ⟨_, Script.foldlM_follow_eq_ok_iff.2 ⟨hreadable, fun edit hedit => ?_, rfl⟩⟩
  have hwf := wellFormed_empty order
  have hloads := Section.checkAllowed_of_loads (hwf.sectionAt edit.1) (sectionAt_of_loadAll hok edit.1)
  rw [hwf.path_sectionAt] at hloads
  exact hloads.1 edit.2 (List.mem_map.2 ⟨edit, List.mem_filter.2 ⟨hedit, decide_eq_true rfl⟩, rfl⟩)

/-! ## Texts as scripts -/

section Read

variable {order : OrderTable} {text : String} {script : Script} {applied loaded : Configuration}

/-- A script that was read can be carried out exactly where the edits of its text can be loaded. -/
theorem exists_apply_iff (h : Script.read order text = .ok script) (c : Configuration) :
    (∃ applied, c.apply script = .ok applied) ↔ ∃ loaded, loadAll (Statement.editsOfText text) c = (.ok (), loaded) := by
  obtain ⟨-, hedits⟩ := Script.atPath_of_read h
  constructor
  · rintro ⟨applied, happly⟩
    exact exists_loadAll_congr hedits (apply_eq_ok_iff.1 happly)
  · rintro ⟨loaded, hloaded⟩
    obtain ⟨applied, happlied⟩ := exists_loadAll_congr (fun path => (hedits path).symm) hloaded
    exact ⟨applied, apply_eq_ok_iff.2 happlied⟩

/-- A script that was read leaves at each path what the edits of its text leave there. -/
theorem sectionAt_of_read_apply (h : Script.read order text = .ok script) (happly : c.apply script = .ok applied)
    (hloaded : loadAll (Statement.editsOfText text) c = (.ok (), loaded)) (path : Path) :
    applied.sectionAt path = loaded.sectionAt path :=
  sectionAt_loadAll_congr (Script.atPath_of_read h).2 (apply_eq_ok_iff.1 happly) hloaded path

/-- A text describes a configuration exactly when it can be read as a script that can be carried out where nothing is. -/
theorem exists_read_iff_apply :
    (∃ c, read order text = .ok c) ↔
      ∃ script applied, Script.read order text = .ok script ∧ (empty order).apply script = .ok applied := by
  rw [exists_read_iff]
  constructor
  · rintro ⟨hreadable, loaded, hloaded⟩
    obtain ⟨script, hscript⟩ := exists_script_of_loadAll hreadable hloaded
    obtain ⟨applied, happly⟩ := (exists_apply_iff hscript (empty order)).2 ⟨loaded, hloaded⟩
    exact ⟨script, applied, hscript, happly⟩
  · rintro ⟨script, applied, hscript, happly⟩
    exact ⟨(Script.foldlM_follow_eq_ok_iff.1 hscript).1, (exists_apply_iff hscript (empty order)).1 ⟨applied, happly⟩⟩

/-- What a text describes is equal to what it leaves, read as a script, where nothing is. -/
theorem beq_of_read_apply (hread : read order text = .ok c) (hscript : Script.read order text = .ok script)
    (happly : (empty order).apply script = .ok applied) : (c == applied) = true := by
  have halike : c.Alike applied := by
    intro path
    have hloads := (sectionAt_of_foldlM_follow hread).2 path
    have happlied := sectionAt_of_loadAll (apply_eq_ok_iff.1 happly) path
    rw [(Script.atPath_of_read hscript).2 path] at happlied
    rw [Except.ok.inj (hloads.symm.trans happlied)]
  exact halike.beq (wellFormed_of_read hread) ((wellFormed_empty order).of_apply happly).1

end Read

/-- A text that can be read as a script, whose statements may go to and fro between sections: at each path the script holds the
commands of the text for it, in the order of the text, and carries out these. Carrying it out in a reachable configuration goes
through exactly when loading the edits of the text one by one does; then both leave the same items in the same order and the same
settings at every path, and have recorded the same commands there after those of before. A text describes a configuration exactly
when it can be read as a script that can be carried out where nothing is, and what that leaves is equal to the configuration. -/
theorem grouping_exact (order : OrderTable) (text : String) :
    (∀ script, Script.read order text = .ok script →
      (∀ path, script.commandsAt path = atPath path (Statement.editsOfText text) ∧
        atPath path script.edits = atPath path (Statement.editsOfText text)) ∧
      ∀ c : Configuration, c.Reachable →
        ((∃ applied, c.apply script = .ok applied) ↔ ∃ loaded, loadAll (Statement.editsOfText text) c = (.ok (), loaded)) ∧
        ∀ applied loaded, c.apply script = .ok applied → loadAll (Statement.editsOfText text) c = (.ok (), loaded) →
          ∀ path, applied.itemsAt path = loaded.itemsAt path ∧ applied.settingsAt path = loaded.settingsAt path ∧
            applied.logAt path = c.logAt path ++ atPath path (Statement.editsOfText text) ∧
            loaded.logAt path = c.logAt path ++ atPath path (Statement.editsOfText text)) ∧
    ((∃ c, read order text = .ok c) ↔
      ∃ script applied, Script.read order text = .ok script ∧ (empty order).apply script = .ok applied) ∧
    ∀ c script applied, read order text = .ok c → Script.read order text = .ok script →
      (empty order).apply script = .ok applied → (c == applied) = true := by
  refine ⟨fun script hscript => ?_, exists_read_iff_apply, fun c script applied => beq_of_read_apply⟩
  obtain ⟨hplaced, hedits⟩ := Script.atPath_of_read hscript
  refine ⟨fun path => ⟨(hplaced.commandsAt_eq path).trans (hedits path), hedits path⟩, fun c hc =>
    ⟨exists_apply_iff hscript c, fun applied loaded happly hloaded path => ?_⟩⟩
  have hwf := hc.wellFormed
  have happlied := hwf.of_apply happly
  have hsame := sectionAt_of_read_apply hscript happly hloaded path
  have hwf' := hwf.loadAll (Statement.editsOfText text)
  rw [hloaded] at hwf'
  have hlog := hwf.logAt_loadAll hloaded path
  rw [happlied.1.itemsAt_eq, hwf'.itemsAt_eq, happlied.1.settingsAt_eq, hwf'.settingsAt_eq, happlied.1.logAt_eq, hsame,
    ← hwf'.logAt_eq]
  exact ⟨rfl, rfl, hlog, hlog⟩

/-- A sample text that goes from the packet filter to the addresses and back. -/
def interleaved : String :=
  "/ip firewall filter\nadd comment=a\n/ip address add address=10.0.0.1/24\nadd comment=b\nmove 1 0\n"

/-- The sample is carried out as a script where a rule is, and describes a configuration. -/
theorem grouping_exact_interleaved :
    ∃ script applied loaded c fromScript, Script.read .builtin interleaved = .ok script ∧
      (withRules .builtin filterPath ["z"]).Reachable ∧
      (withRules .builtin filterPath ["z"]).apply script = .ok applied ∧
      loadAll (Statement.editsOfText interleaved) (withRules .builtin filterPath ["z"]) = (.ok (), loaded) ∧
      script.commandsAt filterPath = [.add (rule "a") none, .add (rule "b") none, .move 1 (some 0)] ∧
      applied.itemsAt filterPath = ["a", "z", "b"].map rule ∧ loaded.itemsAt filterPath = ["a", "z", "b"].map rule ∧
      read .builtin interleaved = .ok c ∧ (empty .builtin).apply script = .ok fromScript ∧ (c == fromScript) = true := by
  obtain ⟨hgrouped, hiff, hequal⟩ := grouping_exact .builtin interleaved
  have hedits : Statement.editsOfText interleaved = [(filterPath, .add (rule "a") none),
      (⟨["ip", "address"]⟩, .add (.ofList [("address", "10.0.0.1/24")]) none), (filterPath, .add (rule "b") none),
      (filterPath, .move 1 (some 0))] := by
    decide +kernel
  have hread : ∃ c, read .builtin interleaved = .ok c := by
    have hok : (read .builtin interleaved).toOption.isSome = true := by decide +kernel
    cases hc : read .builtin interleaved with
    | error cause =>
      rw [hc] at hok
      cases hok
    | ok c => exact ⟨c, rfl⟩
  obtain ⟨c, hc⟩ := hread
  obtain ⟨script, fromScript, hscript, hfrom⟩ := hiff.1 ⟨c, hc⟩
  obtain ⟨hheld, hcarried⟩ := hgrouped script hscript
  have hbase := reachable_withRules .builtin filterPath ["z"]
  obtain ⟨hboth, hsame⟩ := hcarried _ hbase
  have hcomputed : (fun result => (result.1, result.2.itemsAt filterPath))
      (loadAll (Statement.editsOfText interleaved) (withRules .builtin filterPath ["z"])) =
        (.ok (), ["a", "z", "b"].map rule) := by
    rw [hedits]
    decide +kernel
  cases hloaded : loadAll (Statement.editsOfText interleaved) (withRules .builtin filterPath ["z"]) with
  | mk result loaded =>
    rw [hloaded] at hcomputed
    obtain ⟨rfl, hitems⟩ := Prod.mk.inj hcomputed
    obtain ⟨applied, happly⟩ := hboth.2 ⟨loaded, hloaded⟩
    refine ⟨script, applied, loaded, c, fromScript, hscript, hbase, happly, rfl, ?_, ?_, hitems, hc, hfrom,
      hequal c script fromScript hc hscript hfrom⟩
    · rw [(hheld filterPath).1, hedits]
      decide +kernel
    · rw [(hsame applied loaded happly hloaded filterPath).1]
      exact hitems

end Configuration

end RouterPlan
