import RouterPlan.Proofs.Lemmas.Alike
import RouterPlan.Proofs.Lemmas.MergeTree
import RouterPlan.Run

/-!
# When a configuration has reached another

`Section.Reaches` says without any edits what a comparison is after: the same items, in the same order where order counts, and
every value of every setting. A merge finds nothing to do exactly where a section has reached its target
(`Passes.commands_eq_nil_iff`), and what a merge leaves has reached it (`Passes.reaches`). So a comparison of configurations
finds nothing exactly when each section of the target has been reached (`Configuration.exists_diff`), and carrying out the script
of a comparison reaches the target (`Configuration.exists_apply_reaches`).
-/

namespace RouterPlan

namespace Section

variable {s s' m target : Section}

/-- The section holds the items of a target, in the same order where order counts, and all values of its settings. Other settings
may be there too. -/
structure Reaches (s target : Section) : Prop where
  items_eq : s.mode.isOrdered = true → s.items = target.items
  mem_iff : ∀ item, item ∈ s.items ↔ item ∈ target.items
  value?_eq : ∀ id key value, target.value? id key = some value → s.value? id key = some value

/-- A section has reached itself. -/
theorem Reaches.refl (s : Section) : s.Reaches s :=
  ⟨fun _ => rfl, fun _ => Iff.rfl, fun _ _ _ hvalue => hvalue⟩

/-- What has reached something that has reached a target has reached the target. -/
theorem Reaches.trans (h : s.Reaches m) (h' : m.Reaches target) (hmode : s.mode = m.mode) : s.Reaches target where
  items_eq hordered := (h.items_eq hordered).trans (h'.items_eq (hmode ▸ hordered))
  mem_iff item := (h.mem_iff item).trans (h'.mem_iff item)
  value?_eq id key value hvalue := h.value?_eq id key value (h'.value?_eq id key value hvalue)

/-- A section that has reached another one has items where the other one has some, and only there. -/
theorem Reaches.items_eq_nil_iff (h : s.Reaches target) : s.items = [] ↔ target.items = [] := by
  simp only [List.eq_nil_iff_forall_not_mem, h.mem_iff]

/-- What a section in which nothing is has reached is reached by all that have no items. -/
theorem Reaches.of_fresh {order : OrderTable} {path : Path} (h : (fresh order path).Reaches target) (hs : s.items = []) :
    s.Reaches target := by
  have hitems := h.items_eq_nil_iff.1 rfl
  refine ⟨fun _ => hs.trans hitems.symm, fun item => by rw [hs, hitems], fun id key value hvalue => ?_⟩
  cases h.value?_eq id key value hvalue

/-- What a section has reached does not depend on what is recorded in it. -/
theorem reaches_congr (h : s.unlogged = s'.unlogged) : s.Reaches target ↔ s'.Reaches target := by
  have hlog : ∀ s : Section, s.unlogged.Reaches target ↔ s.Reaches target := fun s =>
    ⟨fun hr => ⟨hr.items_eq, hr.mem_iff, hr.value?_eq⟩, fun hr => ⟨hr.items_eq, hr.mem_iff, hr.value?_eq⟩⟩
  rw [← hlog s, h, hlog]

/-- Where the target is reached already there is nothing to edit. -/
theorem Effects.eq_nil_of_reaches {commands : List Command} (hn : s.items.Nodup) (hr : s.Reaches target)
    (h : Effects (Aim target) s commands s') : commands = [] := by
  cases h with
  | refl => rfl
  | @step _ _ _ command commands haim he _ =>
    exfalso
    cases haim with
    | set hvalues hchanged =>
      cases he with
      | set hne hnew =>
        obtain ⟨key, value, hvalue⟩ := Assoc.isEmpty_eq_false_iff.1 hne
        refine hnew key value hvalue (hr.value?_eq _ key value ?_)
        rw [value?, hvalues, Option.bind_some]
        exact hchanged key value hvalue
    | remove hitem hgone => exact hgone ((hr.mem_iff _).1 (List.mem_of_getElem? hitem))
    | add hwanted hnew _ => exact hnew ((hr.mem_iff _).2 hwanted)
    | move hitem hplace hlt =>
      cases he with
      | move hmode _ _ =>
        rw [← hr.items_eq hmode] at hplace
        have hbound := (List.getElem?_eq_some_iff.1 hplace).1
        have hsame := (List.getElem?_inj hbound hn).1 (hplace.trans hitem.symm)
        omega

namespace Passes

/-- A merge reaches its target. -/
theorem reaches (p : Passes s target) (ht : target.items.Nodup) : p.after.Reaches target where
  items_eq hordered := p.items_of_ordered (p.effects.frame.2.1 ▸ hordered)
  mem_iff item := by
    cases hmode : s.mode.isOrdered with
    | true => rw [p.items_of_ordered hmode]
    | false =>
      rw [p.items_of_unordered ht hmode, List.mem_append, List.mem_filter, List.mem_filter]
      by_cases hitem : item ∈ s.items <;> simp [hitem]
  value?_eq id key value hvalue := by rw [p.value?_after, hvalue, Option.some_or]

/-- A merge finds no commands exactly where its target is reached already. -/
theorem commands_eq_nil_iff (p : Passes s target) (hs : s.items.Nodup) (ht : target.items.Nodup) :
    p.set ++ p.removed ++ p.added ++ p.moved = [] ↔ s.Reaches target := by
  refine ⟨fun hnil => ?_, fun hr => p.effects.eq_nil_of_reaches hs hr⟩
  have heffects := p.effects
  rw [hnil] at heffects
  exact heffects.eq_of_nil ▸ p.reaches ht

end Passes

end Section

/-- A script is empty when it has no command for any path. -/
theorem Script.isEmpty_iff {script : Script} :
    script.isEmpty = true ↔ ∀ path, Configuration.atPath path script.edits = [] := by
  rw [isEmpty, List.isEmpty_iff]
  refine ⟨fun h path => by rw [h]; rfl, fun h => List.eq_nil_iff_forall_not_mem.2 fun edit hedit => ?_⟩
  have hnot := h edit.1
  rw [Configuration.atPath, List.map_eq_nil_iff, List.filter_eq_nil_iff] at hnot
  exact hnot edit hedit (decide_eq_true rfl)

/-- There are no lines for a device exactly when there are no commands. -/
theorem Script.wireLines_eq_nil_iff {script : Script} : script.wireLines = [] ↔ script.isEmpty = true := by
  have hbatch : ∀ batch : Batch, batch.wireLines = [] ↔ batch.commands = [] := by
    intro batch
    rw [Batch.wireLines]
    cases batch.commands with
    | nil => exact iff_of_true rfl rfl
    | cons command commands => simp [Batch.wireCommands]
  simp only [wireLines, workingBatches, isEmpty, edits, List.isEmpty_iff, List.flatMap_eq_nil_iff, List.mem_filter, hbatch,
    List.map_eq_nil_iff]
  refine ⟨fun h batch hmem => ?_, fun h batch hmem => h batch hmem.1⟩
  by_cases hnone : batch.commands = []
  · exact hnone
  · exact h batch ⟨hmem, by simpa using hnone⟩

namespace Configuration

variable {actual expected base target c c' : Configuration}

/-- Every section of the expected configuration has been reached. What only the actual one holds does not count. -/
def Reaches (actual expected : Configuration) : Prop :=
  ∀ t ∈ expected.sections, (actual.sectionAt t.path).Reaches t

/-- Configurations that are alike have reached the same. -/
theorem Alike.reaches_iff (h : c.Alike c') : c.Reaches target ↔ c'.Reaches target :=
  forall₂_congr fun t _ => Section.reaches_congr (h t.path)

/-- Configurations that are alike have reached each other. -/
theorem Alike.reaches (h : c.Alike c') (hc : c'.WellFormed) : c.Reaches c' := by
  intro t ht
  rw [Section.reaches_congr (h t.path), sectionAt_of_section? (hc.section?_eq_some_iff.2 ⟨ht, rfl⟩)]
  exact .refl t

/-- What has reached a configuration that has reached a target has reached the target exactly when it has no items in those sections
of the target that the one between does not have. -/
theorem Reaches.trans_iff (hc : c.WellFormed) (hc' : c'.WellFormed) (horder : c.order = c'.order) (h : c.Reaches c')
    (h' : c'.Reaches target) :
    c.Reaches target ↔ ∀ t ∈ target.sections, c'.section? t.path = none → c.itemsAt t.path = [] := by
  have hempty : ∀ t ∈ target.sections, c'.section? t.path = none → (Section.fresh c'.order t.path).Reaches t := by
    intro t ht hnone
    rw [← hc'.sectionAt_of_section?_eq_none hnone]
    exact h' t ht
  refine ⟨fun hreached t ht hnone => ?_, fun hitems t ht => ?_⟩
  · rw [hc.itemsAt_eq]
    exact (hreached t ht).items_eq_nil_iff.2 ((hempty t ht hnone).items_eq_nil_iff.1 rfl)
  · cases hs : c'.section? t.path with
    | none =>
      have hnil := hitems t ht hs
      rw [hc.itemsAt_eq] at hnil
      exact (hempty t ht hs).of_fresh hnil
    | some s =>
      have hmode : (c.sectionAt t.path).mode = (c'.sectionAt t.path).mode := by
        rw [(hc.sectionAt t.path).mode, (hc'.sectionAt t.path).mode, hc.path_sectionAt, hc'.path_sectionAt, horder]
      obtain ⟨hmem, hpath⟩ := hc'.section?_eq_some_iff.1 hs
      have hfirst := h s hmem
      have hsecond := h' t ht
      rw [hpath] at hfirst
      rw [sectionAt_of_section? hs] at hsecond hmode
      exact hfirst.trans hsecond hmode

/-! ## Comparisons -/

/-- A comparison goes through, and finds nothing exactly when every section of the target has been reached. -/
theorem exists_diff (ha : actual.WellFormed) (he : expected.WellFormed) :
    ∃ script, actual.diff expected = .ok script ∧ (script.isEmpty = true ↔ actual.Reaches expected) := by
  obtain ⟨script, merged, -, hdiff, -, -, hpasses⟩ := exists_script_passes ha he
  refine ⟨script, hdiff, Script.isEmpty_iff.trans ⟨fun hnil t ht => ?_, fun hr path => ?_⟩⟩
  · rcases hpasses t.path with ⟨hnone, -, -⟩ | ⟨t', p, hwanted, hedits, -⟩
    · rw [he.section?_eq_some_iff.2 ⟨ht, rfl⟩] at hnone
      cases hnone
    · cases hwanted.symm.trans (he.section?_eq_some_iff.2 ⟨ht, rfl⟩)
      exact (p.commands_eq_nil_iff (ha.sectionAt _).nodup (he.sections t ht).nodup).1 (hedits.symm.trans (hnil t.path))
  · rcases hpasses path with ⟨-, hedits, -⟩ | ⟨t, p, hwanted, hedits, -⟩
    · exact hedits
    · obtain ⟨ht, rfl⟩ := he.section?_eq_some_iff.1 hwanted
      rw [hedits, p.commands_eq_nil_iff (ha.sectionAt _).nodup (he.sections t ht).nodup]
      exact hr t ht

/-- A check for convergence passes exactly when every section of the expected configuration has been reached. -/
theorem checkConvergence_eq_ok_iff (ha : actual.WellFormed) (he : expected.WellFormed) :
    actual.checkConvergence expected = .ok () ↔ actual.Reaches expected := by
  obtain ⟨script, hdiff, hiff⟩ := exists_diff ha he
  rw [checkConvergence, hdiff, ← hiff]
  simp only
  split <;> simp_all

/-- A check for convergence that fails gives the script that is left. -/
theorem exists_residual (ha : actual.WellFormed) (he : expected.WellFormed) {failure : Failure}
    (h : actual.checkConvergence expected = .error failure) :
    ∃ residual, actual.diff expected = .ok residual ∧ residual.isEmpty = false ∧ failure = .convergence residual := by
  obtain ⟨script, hdiff, -⟩ := exists_diff ha he
  rw [checkConvergence, hdiff] at h
  simp only at h
  split at h
  · cases h
  · rename_i hempty
    cases h
    exact ⟨script, hdiff, Bool.not_eq_true _ ▸ hempty, rfl⟩

/-- The script of a comparison can be carried out, and reaches the target. -/
theorem exists_apply_reaches (hb : base.WellFormed) (ht : target.WellFormed) :
    ∃ script result, base.diff target = .ok script ∧ base.apply script = .ok result ∧ result.WellFormed ∧
      result.order = base.order ∧ result.Reaches target := by
  obtain ⟨script, merged, -, hdiff, -, -, hpasses⟩ := exists_script_passes hb ht
  obtain ⟨result, hresult, hafter⟩ := exists_loadAll_of_effects hb fun path => (hpasses path).effects
  have happly := apply_eq_ok_iff.2 hresult
  obtain ⟨hwf, horder, -⟩ := hb.of_apply happly
  refine ⟨script, result, hdiff, happly, hwf, horder, fun t hmem => ?_⟩
  have hwanted := ht.section?_eq_some_iff.2 ⟨hmem, rfl⟩
  rcases hpasses t.path with ⟨hnone, -, -⟩ | ⟨t', p, hwanted', -, hmerged⟩
  · cases hnone.symm.trans hwanted
  · cases hwanted'.symm.trans hwanted
    rw [hafter, hmerged]
    have hreaches := p.reaches (ht.sections t hmem).nodup
    exact ⟨hreaches.items_eq, hreaches.mem_iff, hreaches.value?_eq⟩

/-- What the script of a comparison makes of the configuration has reached the target. -/
theorem reaches_of_apply {script : Script} {result : Configuration} (hb : base.WellFormed) (ht : target.WellFormed)
    (hdiff : base.diff target = .ok script) (happly : base.apply script = .ok result) :
    result.WellFormed ∧ result.order = base.order ∧ result.Reaches target := by
  obtain ⟨script', result', hdiff', happly', hfacts⟩ := exists_apply_reaches hb ht
  cases hdiff.symm.trans hdiff'
  cases happly.symm.trans happly'
  exact hfacts

end Configuration

end RouterPlan
