import Mathlib.Data.List.TakeWhile
import RouterPlan.Printable
import RouterPlan.Proofs.Lemmas.ExportTree
import RouterPlan.Proofs.Lemmas.WrittenLines
import RouterPlan.Reading

/-!
# Reading back the lines of an export

Reading an export loads the commands that it says (`Configuration.WellFormed.read_exportText`), and so gives a configuration that
holds the same (`Configuration.WellFormed.exists_readsBack`). The line of the version is read as a comment that gives the
version, a header makes its section, which the first command after it would make too, and a command is loaded there.
-/

namespace RouterPlan

/-! ## Versions -/

namespace Text

/-- What one table holds another does not hold, if all their runs are apart. -/
theorem inRanges_of_apart {runs others : List (Nat × Nat)}
    (hapart : ∀ run ∈ runs, ∀ other ∈ others, run.2 < other.1 ∨ other.2 < run.1) {n : Nat} (h : inRanges n runs = true) :
    inRanges n others = false := by
  obtain ⟨run, hrun, hlow, hhigh⟩ := exists_mem_of_inRanges h
  refine Bool.eq_false_iff.2 fun hother => ?_
  obtain ⟨other, hother, hlow', hhigh'⟩ := exists_mem_of_inRanges hother
  have := hapart run hrun other hother
  omega

theorem isBlank_of_isDecimal {c : Char} (h : isDecimal c = true) : isBlank c = false :=
  inRanges_of_apart (by decide +kernel) h

theorem isBlank_of_isWordChar {c : Char} (h : isWordChar c = true) : isBlank c = false :=
  inRanges_of_apart (by decide +kernel) h

end Text

namespace Version

/-- Characters of a version are no blanks and no backslashes. -/
theorem isBlank_of_isVersionChar {c : Char} (h : isVersionChar c = true) : Text.isBlank c = false ∧ c ≠ '\\' := by
  refine ⟨?_, ?_⟩
  · rw [isVersionChar, Bool.or_eq_true, Bool.or_eq_true, beq_iff_eq, beq_iff_eq] at h
    rcases h with (hword | rfl) | rfl
    · exact Text.isBlank_of_isWordChar hword
    · decide
    · decide
  · rintro rfl
    revert h
    decide +kernel

/-- A version that is found has characters, none of which is a blank or a backslash. -/
def Solid (version : List Char) : Prop :=
  version ≠ [] ∧ ∀ c ∈ version, Text.isBlank c = false ∧ c ≠ '\\'

theorem solid_of_leading? {cs version : List Char} (h : leading? cs = some version) : Solid version := by
  unfold leading? at h
  split at h
  · cases h
  · rename_i c rest _
    split at h
    · rename_i hdecimal
      cases h
      refine ⟨List.cons_ne_nil _ _, List.forall_mem_cons.2 ⟨⟨Text.isBlank_of_isDecimal hdecimal, ?_⟩, fun d hd => ?_⟩⟩
      · rintro rfl
        revert hdecimal
        decide +kernel
      · exact isBlank_of_isVersionChar (List.mem_takeWhile_imp hd)
    · cases h

theorem solid_of_search {cs version : List Char} (h : search cs = some version) : Solid version := by
  induction cs with
  | nil => cases h
  | cons c cs ih =>
    rw [search, Option.or_eq_some_iff] at h
    rcases h with h | ⟨-, h⟩
    · unfold mentioned? at h
      simp only at h
      split at h
      · exact solid_of_leading? h
      · cases h
    · exact ih h

/-- A version that can be read back from a header is solid. -/
theorem Printable.solid {version : String} (h : Version.Printable version) : Solid version.toList := by
  obtain ⟨cs, hcs, rfl⟩ := Option.map_eq_some_iff.1 h
  rw [String.toList_ofList]
  exact solid_of_search hcs

end Version

/-! ## Lines of an export -/

namespace Configuration

open Statement

variable {c c' : Configuration}

/-- The line of a version as its characters. -/
theorem toList_versionLine (version : String) :
    (s!"# by RouterOS {version}").toList = '#' :: ' ' :: ("by RouterOS " ++ version).toList := by
  rw [String.toList_append, String.toList_append]
  rfl

/-- What the line of a version says stays on the line and ends in something that is kept. -/
theorem ends_mention {version : String} (h : Version.Printable version) :
    '\n' ∉ ("by RouterOS " ++ version).toList ∧ Text.Ends ("by RouterOS " ++ version).toList := by
  obtain ⟨hne, hsolid⟩ := h.solid
  rw [String.toList_append]
  refine ⟨fun hmem => ?_, Text.Ends.append ⟨_, List.getLast?_eq_some_getLast hne, hsolid _ (List.getLast_mem hne)⟩ _⟩
  rcases List.mem_append.1 hmem with hmem | hmem
  · revert hmem
    decide
  · have hblank := (hsolid _ hmem).1
    revert hblank
    decide

/-- The line of a version is a line, and a comment that says it. -/
theorem ofLine_versionLine (current : Path) {version : String} (h : Version.Printable version) :
    Text.IsLine (s!"# by RouterOS {version}").toList ∧
      ofLine current (s!"# by RouterOS {version}").toList = (current, .ok (.comment ("by RouterOS " ++ version))) := by
  obtain ⟨hfeed, hends⟩ := ends_mention h
  rw [toList_versionLine]
  refine ⟨⟨fun hmem => ?_, fun d hd => ?_, .inr (hends.append ['#', ' '])⟩, ?_⟩
  · rcases List.mem_cons.1 hmem with heq | hmem
    · cases heq
    · rcases List.mem_cons.1 hmem with heq | hmem
      · cases heq
      · exact hfeed hmem
  · cases hd
    decide
  · have htrimmed : Text.Trimmed ("by RouterOS " ++ version).toList := by
      refine ⟨fun d hd => ?_, fun d hd => ?_⟩
      · rw [String.toList_append] at hd
        cases hd
        decide
      · obtain ⟨last, hlast, hblank, -⟩ := hends
        cases hlast.symm.trans hd
        exact hblank
    have hstart : Text.trim (' ' :: ("by RouterOS " ++ version).toList) = Text.trim ("by RouterOS " ++ version).toList := rfl
    rw [ofLine, hstart, Text.trim_eq_self htrimmed, String.ofList_toList]

/-- The lines of a version give it. -/
theorem reads_versionLines (c : Configuration) (h : ∀ version ∈ c.version, Version.Printable version) :
    Reads follow .root (empty c.order) (c.versionLines.map (·.toList)) .root (bare c.order c.version) := by
  rw [versionLines]
  cases hversion : c.version with
  | none => exact .nil .root _
  | some version =>
    obtain ⟨hline, hmeans⟩ := ofLine_versionLine .root (h version hversion)
    have hne : (s!"# by RouterOS {version}").toList ≠ [] := by
      rw [toList_versionLine]
      exact List.cons_ne_nil _ _
    refine reads_singleton hline hne hmeans (if_neg (by simp)) fun number text => ?_
    have hgiven : Version.inComment? ("by RouterOS " ++ version) = some version := h version hversion
    simp only [follow, hgiven]
    rfl

/-- Bare commands are loaded into the current section. -/
theorem reads_commands {path : Path} {commands : List Command} (h : ∀ command ∈ commands, command.Printable)
    (hok : loadAll (commands.map (path, ·)) c = (.ok (), c')) :
    Reads follow path c (commands.map (·.text.toList)) path c' := by
  induction commands generalizing c with
  | nil =>
    cases hok
    exact .nil path _
  | cons command commands ih =>
    obtain ⟨hcommand, hcommands⟩ := List.forall_mem_cons.1 h
    rw [List.map_cons, loadAll] at hok
    split at hok
    · rename_i next hload
      refine (reads_command path hcommand fun number text => ?_).cons (ih hcommands hok)
      simp only [follow, hload]
    · cases hok

/-- A header and commands make what the commands make. -/
theorem reads_section (current : Path) {path : Path} {commands : List Command} (hne : commands ≠ []) (hpath : path.Printable)
    (h : ∀ command ∈ commands, command.Printable) (hok : loadAll (commands.map (path, ·)) c = (.ok (), c')) :
    Reads follow current c ((path.text :: commands.map (·.text)).map (·.toList)) path c' := by
  have hensured : loadAll (commands.map (path, ·)) (c.ensure path) = (.ok (), c') := by
    cases commands with
    | nil => exact absurd rfl hne
    | cons command commands => rwa [List.map_cons, loadAll, load_ensure, ← loadAll]
  rw [List.map_cons, List.map_map]
  exact (reads_header current hpath fun _ _ => rfl).cons (reads_commands h hensured)

/-- Sections, each with a header and commands, make what all the commands make. -/
theorem reads_sections (current : Path) {sections : List (Path × List Command)}
    (h : ∀ part ∈ sections, part.2 ≠ [] ∧ part.1.Printable ∧ ∀ command ∈ part.2, command.Printable)
    (hok : loadAll (sections.flatMap fun part => part.2.map (part.1, ·)) c = (.ok (), c')) :
    ∃ current', Reads follow current c
      ((sections.flatMap fun part => part.1.text :: part.2.map (·.text)).map (·.toList)) current' c' := by
  induction sections generalizing current c with
  | nil =>
    cases hok
    exact ⟨current, .nil current _⟩
  | cons part sections ih =>
    obtain ⟨⟨hne, hpath, hcommands⟩, hsections⟩ := List.forall_mem_cons.1 h
    rw [List.flatMap_cons] at hok
    obtain ⟨next, hfirst, hrest⟩ := exists_of_loadAll_append hok
    obtain ⟨current', hreads⟩ := ih part.1 hsections hrest
    rw [List.flatMap_cons, List.map_append]
    exact ⟨current', (reads_section current hne hpath hcommands hfirst).append hreads⟩

/-! ## Exports -/

/-- The commands of an export can be written. -/
theorem WellFormed.printable_exportCommands (h : c.WellFormed) (hp : c.Printable) :
    ∀ part ∈ Batch.working c.exportScript.batches, part.2 ≠ [] ∧ part.1.Printable ∧ ∀ command ∈ part.2, command.Printable := by
  intro part hpart
  rw [working_exportScript, List.mem_map] at hpart
  obtain ⟨s, hs, rfl⟩ := hpart
  obtain ⟨hmem, hcontent⟩ := List.mem_filter.1 hs
  obtain ⟨hpath, hitems, hsettings⟩ := hp.1 s hmem hcontent
  refine ⟨by simpa [Section.hasContent_eq] using hcontent, hpath, fun command hcommand => ?_⟩
  rcases List.mem_append.1 hcommand with hcommand | hcommand
  · obtain ⟨item, hitem, rfl⟩ := List.mem_map.1 hcommand
    obtain ⟨hne, hvalues, hkey⟩ := hitems item hitem
    exact ⟨hne, hvalues, hkey, fun position hposition => nomatch hposition⟩
  · obtain ⟨entry, hentry, rfl⟩ := List.mem_map.1 hcommand
    obtain ⟨htarget, hvalues⟩ := hsettings entry hentry
    exact ⟨(h.sections s hmem).settled entry.1 entry.2 (Assoc.mem_entries_iff.1 hentry), hvalues, htarget⟩

/-- The lines of an export are lines. -/
theorem WellFormed.isLine_exportLines (h : c.WellFormed) (hp : c.Printable) :
    ∀ line ∈ c.exportLines, Text.IsLine line.toList := by
  intro line hline
  rw [exportLines_eq] at hline
  rcases List.mem_append.1 hline with hline | hline
  · obtain ⟨version, hversion, rfl⟩ := List.mem_map.1 hline
    exact (ofLine_versionLine .root (hp.2 version (Option.mem_toList.1 hversion))).1
  · obtain ⟨part, hpart, hline⟩ := List.mem_flatMap.1 hline
    obtain ⟨-, hpath, hcommands⟩ := h.printable_exportCommands hp part hpart
    rcases List.mem_cons.1 hline with rfl | hline
    · exact Path.isLine_text hpath
    · obtain ⟨command, hcommand, rfl⟩ := List.mem_map.1 hline
      exact Command.isLine_text (hcommands command hcommand)

/-- Reading an export loads the commands that it says. -/
theorem WellFormed.read_exportText (h : c.WellFormed) (hp : c.Printable)
    (hok : Configuration.loadAll c.exportScript.edits (bare c.order c.version) = (.ok (), c')) :
    Configuration.read c.order c.exportText = .ok c' := by
  rw [Script.edits_eq_flatMap_working] at hok
  obtain ⟨current, hreads⟩ := reads_sections .root (h.printable_exportCommands hp) hok
  have hall := (reads_versionLines c hp.2).append hreads
  rw [← List.map_append, ← exportLines_eq] at hall
  exact foldlM_join (h.isLine_exportLines hp) hall

/-- What reading the export of a configuration gives: a configuration that is equal to it and holds the same at every path, with the
same modes, of the same version and with the same export. -/
structure ReadsBack (c c' : Configuration) : Prop where
  read : Configuration.read c.order c.exportText = .ok c'
  wellFormed : c'.WellFormed
  order_eq : c'.order = c.order
  version_eq : c'.version = c.version
  alike : c'.Alike c
  beq : (c' == c) = true
  exportText_eq : c'.exportText = c.exportText

/-- The export of a printable configuration reads back. -/
theorem WellFormed.exists_readsBack (h : c.WellFormed) (hp : c.Printable) : ∃ c', c.ReadsBack c' := by
  obtain ⟨c', hok, hwf, horder, hversion, halike, hworking⟩ := h.exists_loadAll_export
  exact ⟨c', h.read_exportText hp hok, hwf, horder, hversion, halike, halike.beq hwf h, exportText_congr hversion hworking⟩

end Configuration

end RouterPlan
