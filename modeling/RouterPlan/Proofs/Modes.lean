import RouterPlan.Pattern.Engine
import RouterPlan.Proofs.Lemmas.Statements
import RouterPlan.Proofs.Reachable

/-!
# Modes of sections in scripts

Configurations and scripts take the modes of their sections from an order table, and a script is read with one. Main statement: in a
script that was read, every section but the root has the mode that the table gives its path, which is the mode that its commands were
checked against and the mode of that section in every configuration with the same table; the root is unordered whatever the table
says (`Script.read_modes`). So all modes agree exactly if the table leaves the root unordered. A rule for the root path is where they
part: the commands of the root are checked against that rule, but the script shows the root without it.
-/

namespace RouterPlan.Script

/-- The mode that a section of a script has under an order table. -/
def shownMode (order : OrderTable) (path : Path) : OrderMode :=
  if path = .root then .unordered else order.modeFor path

/-- A command that is pushed keeps the modes of the sections, and those that are made for it have the mode of their path. -/
theorem modes_push {order : OrderTable} {script : Script}
    (h : ∀ batch ∈ script.batches, batch.mode = shownMode order batch.path) (path : Path) (command : Command) :
    ∀ batch ∈ (script.push order path command).batches, batch.mode = shownMode order batch.path := by
  refine Outline.entries_editAt ?_ ?_ path.segments script.outline h
  · intro batch hbatch
    exact hbatch
  · intro parent name _
    have hne : parent.path.child name ≠ .root := Path.child_ne_root parent.path name
    exact (if_neg hne).symm

theorem modes_pushEdits {order : OrderTable} {script : Script}
    (h : ∀ batch ∈ script.batches, batch.mode = shownMode order batch.path) (edits : List (Path × Command)) :
    ∀ batch ∈ (script.pushEdits order edits).batches, batch.mode = shownMode order batch.path := by
  induction edits generalizing script with
  | nil => exact h
  | cons edit edits ih => exact ih (modes_push h edit.1 edit.2)

/-- A script that was read under an order table:
* a section has the mode of its path in the table, but for the root, which is unordered;
* so all sections have the mode of the table exactly if that leaves the root unordered;
* a text can be read as a script under the table exactly if its lines are readable and each command is allowed by the mode that the
  table gives its path, also for the root, and the commands of a section are those of the text for its path;
* a section at that path in a configuration with the table, whatever was done to it, has that mode, also the root. -/
theorem read_modes (order : OrderTable) (text : String) :
    ((∃ script, read order text = .ok script) ↔ (∀ s ∈ Statement.ofText text, s.Readable) ∧
      ∀ edit ∈ Statement.editsOfText text, edit.2.checkAllowed edit.1 (order.modeFor edit.1) = .ok ()) ∧
    ∀ script, read order text = .ok script →
      (∀ batch ∈ script.batches, batch.mode = shownMode order batch.path ∧
        batch.commands = Configuration.atPath batch.path (Statement.editsOfText text)) ∧
      ((∀ batch ∈ script.batches, batch.mode = order.modeFor batch.path) ↔ order.modeFor .root = .unordered) ∧
      ∀ c : Configuration, c.Reachable → c.order = order → ∀ batch ∈ script.batches, ∀ s, c.section? batch.path = some s →
        s.mode = order.modeFor batch.path := by
  refine ⟨?_, fun script hread => ?_⟩
  · constructor
    · rintro ⟨script, hread⟩
      obtain ⟨hreadable, hallowed, -⟩ := foldlM_follow_eq_ok_iff.1 hread
      exact ⟨hreadable, hallowed⟩
    · rintro ⟨hreadable, hallowed⟩
      exact ⟨_, foldlM_follow_eq_ok_iff.2 ⟨hreadable, hallowed, rfl⟩⟩
  · obtain ⟨-, -, rfl⟩ := foldlM_follow_eq_ok_iff.1 hread
    have hempty : empty.Placed := ⟨rfl, trivial⟩
    have hplaced := hempty.pushEdits order (Statement.edits (Statement.ofText text))
    have hmodes : ∀ batch ∈ (empty.pushEdits order (Statement.edits (Statement.ofText text))).batches,
        batch.mode = shownMode order batch.path := by
      refine modes_pushEdits (fun batch hbatch => ?_) _
      rw [List.mem_singleton.1 hbatch]
      rfl
    refine ⟨fun batch hbatch => ⟨hmodes batch hbatch, ?_⟩, ?_, fun c hc horder batch _ s hs => ?_⟩
    · have hat := hempty.atPath_pushEdits order (Statement.edits (Statement.ofText text)) batch.path
      rw [hplaced.atPath_edits, hplaced.batch?_eq_some_iff.2 ⟨hbatch, rfl⟩] at hat
      exact hat
    · constructor
      · intro hall
        have hroot := hall _ List.mem_cons_self
        rw [hmodes _ List.mem_cons_self, hplaced.1] at hroot
        exact hroot.symm
      · intro hroot batch hbatch
        rw [hmodes batch hbatch]
        unfold shownMode
        split
        · rename_i hpath
          rw [hpath, hroot]
        · rfl
    · obtain ⟨hmem, hpath⟩ := hc.wellFormed.section?_eq_some_iff.1 hs
      rw [← hpath, ← horder]
      exact (hc.wellFormed.sections s hmem).mode

/-- The table without a profile, with a rule that makes the root an ordered section. -/
def rootRules : OrderTable :=
  match OrderTable.builtin.withOverrides [⟨"/", .ordered⟩] with
  | .ok table => table
  | .error _ => .builtin

/-- Under a rule for the root, a command for a position is accepted there, and the root of the script is unordered all the same; in
configurations it is ordered. -/
theorem read_modes_root :
    (OrderTable.builtin.withOverrides [⟨"/", .ordered⟩]).toOption = some rootRules ∧ rootRules.modeFor .root = .ordered ∧
      ∃ script, read rootRules "/add a=b\n/add c=d place-before=0\n" = .ok script ∧
        (∃ batch ∈ script.batches, batch.path = .root ∧ batch.mode = .unordered ∧
          batch.commands = [.add (.ofList [("a", "b")]) none, .add (.ofList [("c", "d")]) (some 0)]) ∧
        (¬∀ batch ∈ script.batches, batch.mode = rootRules.modeFor batch.path) ∧
        ∀ c : Configuration, c.Reachable → c.order = rootRules → ∀ s, c.section? .root = some s → s.mode = .ordered := by
  have hrules : (OrderTable.builtin.withOverrides [⟨"/", .ordered⟩]).toOption = some rootRules := by
    have hok : (OrderTable.builtin.withOverrides [⟨"/", .ordered⟩]).isOk = true := by decide +kernel
    unfold rootRules
    cases htable : OrderTable.builtin.withOverrides [⟨"/", .ordered⟩] with
    | error bad =>
      rw [htable] at hok
      cases hok
    | ok table => rfl
  have hroot : rootRules.modeFor .root = .ordered := by decide +kernel
  have hcomputed : (read rootRules "/add a=b\n/add c=d place-before=0\n").map (·.outline.root.path) = .ok .root := by
    decide +kernel
  cases hread : read rootRules "/add a=b\n/add c=d place-before=0\n" with
  | error cause =>
    rw [hread] at hcomputed
    cases hcomputed
  | ok script =>
    rw [hread] at hcomputed
    have hpath : script.outline.root.path = .root := Except.ok.inj hcomputed
    obtain ⟨hbatches, hiff, hsections⟩ := (read_modes rootRules "/add a=b\n/add c=d place-before=0\n").2 script hread
    have hmem : script.outline.root ∈ script.batches := List.mem_cons_self
    obtain ⟨hmode, hcommands⟩ := hbatches _ hmem
    rw [hpath] at hmode hcommands
    refine ⟨hrules, hroot, script, rfl, ⟨_, hmem, hpath, hmode, ?_⟩, ?_, ?_⟩
    · rw [hcommands]
      decide +kernel
    · rw [hiff, hroot]
      decide
    · intro c hc horder s hs
      have hsection := hsections c hc horder _ hmem s (hpath ▸ hs)
      rwa [hpath, hroot] at hsection

end RouterPlan.Script
