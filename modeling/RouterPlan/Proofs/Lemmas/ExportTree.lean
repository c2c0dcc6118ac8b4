import RouterPlan.Export
import RouterPlan.Proofs.Lemmas.Alike
import RouterPlan.Proofs.Lemmas.Recorded

/-!
# Exports as scripts

An export says the commands that make the configuration again: `Configuration.exportScript`. They go through in an empty
configuration and make one that is alike, with the same sections in the same order as far as they hold something
(`Configuration.WellFormed.exists_loadAll_export`); so its own export is the same (`Configuration.exportText_congr`).
-/

namespace RouterPlan

namespace Section

variable {s : Section}

/-- The commands of an export: an `add` for each item and a `set` for each setting. -/
def exportCommands (s : Section) : List Command :=
  s.items.map (.add · none) ++ s.settings.entries.map fun entry => .set entry.1 entry.2

/-- Adding items at the end. -/
theorem effects_adds (s : Section) (items : List Item) (h : (s.items ++ items).Nodup) :
    Effects (fun _ _ => True) s (items.map (.add · none)) { s with items := s.items ++ items } := by
  induction items generalizing s with
  | nil =>
    rw [List.append_nil]
    exact .refl s
  | cons item items ih =>
    have hnew : item ∉ s.items := fun hmem => (List.disjoint_of_nodup_append h) hmem List.mem_cons_self
    rw [← List.singleton_append, ← List.append_assoc] at h
    have hrest := ih { s with items := s.items ++ [item] } h
    simp only [List.append_assoc, List.singleton_append] at hrest
    exact .step trivial (.add hnew fun _ hd => nomatch hd) hrest

/-- Putting in settings that are not there. -/
theorem effects_sets (s : Section) (entries : List (Identifier × Values)) (hkeys : (entries.map (·.1)).Nodup)
    (hvalues : ∀ entry ∈ entries, entry.2.isEmpty = false) (hfree : ∀ entry ∈ entries, s.settings.get? entry.1 = none) :
    Effects (fun _ _ => True) s (entries.map fun entry => .set entry.1 entry.2)
      { s with settings := s.settings.insertMany entries } := by
  induction entries generalizing s with
  | nil => exact .refl s
  | cons entry entries ih =>
    obtain ⟨hfirst, hkeys⟩ := List.nodup_cons.1 hkeys
    obtain ⟨hne, hvalues⟩ := List.forall_mem_cons.1 hvalues
    obtain ⟨hfreeFirst, hfree⟩ := List.forall_mem_cons.1 hfree
    have hall : ((s.settings.get? entry.1).getD ∅).insertMany entry.2.entries = entry.2 := by
      rw [hfreeFirst]
      exact Assoc.ofList_entries entry.2
    have heffect : s.Effect (.set entry.1 entry.2) { s with settings := s.settings.insert entry.1 entry.2 } := by
      have hnew : ∀ key value, entry.2.get? key = some value → s.value? entry.1 key ≠ some value := by
        intro key value _ hsame
        rw [value?, hfreeFirst] at hsame
        cases hsame
      have hset := Effect.set hne hnew
      rwa [hall] at hset
    refine .step trivial heffect (ih { s with settings := s.settings.insert entry.1 entry.2 } hkeys hvalues fun other hother => ?_)
    have hkey : other.1 ≠ entry.1 := fun heq => hfirst (List.mem_map.2 ⟨other, hother, heq⟩)
    rw [Assoc.get?_insert_eq, if_neg hkey]
    exact hfree other hother

/-- The commands of an export make the section again where nothing is. -/
theorem effects_exportCommands {order order' : OrderTable} {path : Path} (hs : s.WellFormed order) :
    Effects (fun _ _ => True) (fresh order' path) s.exportCommands
      { fresh order' path with items := s.items, settings := s.settings } := by
  have hadds := effects_adds (fresh order' path) s.items (by simpa [fresh] using hs.nodup)
  have hsets := effects_sets { fresh order' path with items := s.items } s.settings.entries s.settings.nodup_keys
    (fun entry hentry => hs.settled entry.1 entry.2 (Assoc.mem_entries_iff.1 hentry)) fun _ _ => rfl
  have hall : (∅ : Assoc Identifier Values).insertMany s.settings.entries = s.settings := Assoc.ofList_entries s.settings
  have hfresh : (fresh order' path).settings = ∅ := rfl
  simp only [hfresh, hall] at hsets
  exact hadds.trans hsets

/-- A section holds something exactly when its export has commands. -/
theorem hasContent_eq (s : Section) : s.hasContent = !s.exportCommands.isEmpty := by
  cases hitems : s.items <;> cases hsettings : s.settings.entries <;>
    simp [hasContent, exportCommands, Assoc.isEmpty, hitems, hsettings]

/-- The lines of a section are its header and the commands. -/
theorem exportLines_eq (s : Section) : s.exportLines = s.path.text :: s.exportCommands.map (·.text) := by
  rw [exportLines, exportCommands, List.map_append, List.map_map, List.map_map]
  rfl

end Section

namespace Configuration

variable {c c' : Configuration}

/-- The commands that an export says. -/
def exportScript (c : Configuration) : Script :=
  c.scriptOf Section.exportCommands

/-- The sections with commands of an export are those that hold something. -/
theorem working_exportScript (c : Configuration) :
    Batch.working c.exportScript.batches =
      (c.sections.filter (·.hasContent)).map fun s => (s.path, s.exportCommands) := by
  rw [exportScript, batches_scriptOf, Batch.working, List.filter_map, List.map_map]
  simp only [Function.comp_def, Section.batchOf, ← Section.hasContent_eq]

/-- The lines of an export are those of the version, and of the sections with commands. -/
theorem exportLines_eq (c : Configuration) :
    c.exportLines = c.versionLines ++
      (Batch.working c.exportScript.batches).flatMap fun batch => batch.1.text :: batch.2.map (·.text) := by
  rw [exportLines, working_exportScript, List.flatMap_map]
  simp only [Section.exportLines_eq]

/-- Configurations of the same version in which the same sections hold the same, in the same order, have the same export. -/
theorem exportText_congr (hversion : c'.version = c.version)
    (h : Batch.working c'.exportScript.batches = Batch.working c.exportScript.batches) : c'.exportText = c.exportText := by
  rw [exportText, exportText, exportLines_eq, exportLines_eq, h, versionLines, versionLines, hversion]

/-- Where an export was loaded into nothing, each path holds what the exported configuration holds there, and has the commands
recorded. -/
theorem WellFormed.exists_sectionAt_export (h : c.WellFormed) (version : Option String) :
    ∃ c', Configuration.loadAll c.exportScript.edits (bare c.order version) = (.ok (), c') ∧
      ∀ path, c'.sectionAt path = { c.sectionAt path with log := (c.sectionAt path).exportCommands } := by
  have hedits : ∀ path, atPath path c.exportScript.edits = (c.sectionAt path).exportCommands :=
    h.atPath_scriptOf fun _ => rfl
  have heffects : ∀ path, Section.Effects (fun _ _ => True) ((bare c.order version).sectionAt path)
      (atPath path c.exportScript.edits)
      { Section.fresh c.order path with items := (c.sectionAt path).items, settings := (c.sectionAt path).settings } := by
    intro path
    rw [sectionAt_bare, hedits]
    exact Section.effects_exportCommands (h.sectionAt path)
  obtain ⟨c', hok, hafter⟩ := exists_loadAll_of_effects (wellFormed_bare c.order version) heffects
  refine ⟨c', hok, fun path => ?_⟩
  have hmode := (h.sectionAt path).mode
  rw [h.path_sectionAt] at hmode
  rw [hafter, hedits, sectionAt_bare]
  simp [Section.fresh, h.path_sectionAt, hmode]

/-- The commands of an export make, where nothing is, a configuration that is alike, with the same sections in the same order as
far as they hold something. -/
theorem WellFormed.exists_loadAll_export (h : c.WellFormed) :
    ∃ c', Configuration.loadAll c.exportScript.edits (bare c.order c.version) = (.ok (), c') ∧ c'.WellFormed ∧
      c'.order = c.order ∧ c'.version = c.version ∧ c'.Alike c ∧
      Batch.working c'.exportScript.batches = Batch.working c.exportScript.batches := by
  obtain ⟨c', hok, hat⟩ := h.exists_sectionAt_export c.version
  have hwf := (wellFormed_bare c.order c.version).loadAll c.exportScript.edits
  have hframe := frame_loadAll c.exportScript.edits (bare c.order c.version)
  rw [hok] at hwf hframe
  have hrecorded : c'.recorded.batches = c'.exportScript.batches := by
    rw [recorded, exportScript, batches_scriptOf, batches_scriptOf]
    refine List.map_congr_left fun s hs => ?_
    have hs := sectionAt_of_section? (hwf.section?_eq_some_iff.2 ⟨hs, rfl⟩)
    rw [hat] at hs
    have hlog : s.log = s.exportCommands := by
      rw [← hs]
      rfl
    rw [Section.batchOf, Section.batchOf, hlog]
  refine ⟨c', hok, hwf, hframe.1, hframe.2, fun path => by rw [hat]; rfl, ?_⟩
  rw [← hrecorded]
  exact working_recorded h.placed_scriptOf hok

end Configuration

end RouterPlan
