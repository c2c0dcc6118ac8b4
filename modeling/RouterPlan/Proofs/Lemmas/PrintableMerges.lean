import RouterPlan.Printable
import RouterPlan.Proofs.Lemmas.Converged
import RouterPlan.Proofs.Lemmas.Menus
import RouterPlan.Proofs.ScriptText

/-!
# What a comparison writes

The commands of a comparison take their values from the target, and their positions from lists that are never longer than those of
both sides (`Section.Passes.numbers_lt`). So the script of a comparison can be written where both sides are printable and have no
more items than there are indices (`Configuration.fits_of_diff`), and what it makes is printable again
(`Configuration.printable_of_apply`).
-/

namespace RouterPlan

namespace Section

variable {s s' target : Section} {command : Command} {commands : List Command}

/-! ## Positions in commands -/

/-- The numbers of a command are positions of items. -/
theorem Effect.numbers_lt (h : s.Effect command s') : ∀ number ∈ command.numbers, number < s.items.length := by
  intro number hnumber
  cases h with
  | add hnew hbefore =>
    have hlt := (hbefore number (Option.mem_toList.1 hnumber)).2
    omega
  | remove hitem =>
    cases List.mem_singleton.1 hnumber
    exact (List.getElem?_eq_some_iff.1 hitem).1
  | move hmode hitem hbefore =>
    rcases List.mem_cons.1 hnumber with rfl | hnumber
    · exact (List.getElem?_eq_some_iff.1 hitem).1
    · exact hbefore number (Option.mem_toList.1 hnumber)
  | set hne hnew => cases hnumber

/-- How many items there are after an edit. -/
theorem Effect.length_items (h : s.Effect command s') :
    (command.keyword ≠ .add → s'.items.length ≤ s.items.length) ∧
      (command.keyword ≠ .remove → s.items.length ≤ s'.items.length) := by
  cases h with
  | @add item before hnew hbefore =>
    have hle : ∀ d, before = some d → d ≤ s.items.length := fun d hd => by
      have := (hbefore d hd).2
      omega
    have hperm : (placeItem s.items item before).Perm (item :: s.items) := placeItem_perm hle
    have hlength := hperm.length_eq
    rw [List.length_cons] at hlength
    exact ⟨fun hkind => absurd rfl hkind, fun _ => by simp only; omega⟩
  | remove hitem => exact ⟨fun _ => List.length_eraseIdx_le _ _, fun hkind => absurd rfl hkind⟩
  | move hmode hitem hbefore =>
    have hlength := (placeItem_eraseIdx_perm hitem hbefore).length_eq
    exact ⟨fun _ => Nat.le_of_eq hlength, fun _ => Nat.le_of_eq hlength.symm⟩
  | set hne hnew => exact ⟨fun _ => Nat.le_refl _, fun _ => Nat.le_refl _⟩

/-- Where nothing is put in, all numbers are positions in the list of before. -/
theorem Effects.numbers_lt_before (h : Effects (fun _ command => command.keyword ≠ .add) s commands s') :
    ∀ command ∈ commands, ∀ number ∈ command.numbers, number < s.items.length := by
  induction h with
  | refl => exact List.forall_mem_nil _
  | step hkind he _ ih =>
    have hle := he.length_items.1 hkind
    exact List.forall_mem_cons.2 ⟨he.numbers_lt, fun command hmem number hnumber =>
      Nat.lt_of_lt_of_le (ih command hmem number hnumber) hle⟩

/-- Where nothing is taken out, the list does not get shorter, and all numbers are positions in the list of after. -/
theorem Effects.numbers_lt_after (h : Effects (fun _ command => command.keyword ≠ .remove) s commands s') :
    s.items.length ≤ s'.items.length ∧ ∀ command ∈ commands, ∀ number ∈ command.numbers, number < s'.items.length := by
  induction h with
  | refl => exact ⟨Nat.le_refl _, List.forall_mem_nil _⟩
  | step hkind he _ ih =>
    have hle := Nat.le_trans (he.length_items.2 hkind) ih.1
    exact ⟨hle, List.forall_mem_cons.2 ⟨fun number hnumber => Nat.lt_of_lt_of_le (he.numbers_lt number hnumber) hle, ih.2⟩⟩

/-- After a merge there are as many items as in the target. -/
theorem Passes.length_after (p : Passes s target) (hs : s.items.Nodup) (ht : target.items.Nodup) :
    p.after.items.length = target.items.length :=
  ((List.perm_ext_iff_of_nodup (p.effects.nodup hs) ht).2 (p.reaches ht).mem_iff).length_eq

/-- The numbers that a merge names are below what bounds the lengths of both lists. -/
theorem Passes.numbers_lt (p : Passes s target) (hs : s.items.Nodup) (ht : target.items.Nodup) {bound : Nat}
    (hbefore : s.items.length ≤ bound) (hafter : target.items.length ≤ bound) :
    ∀ command ∈ p.set ++ p.removed ++ p.added ++ p.moved, ∀ number ∈ command.numbers, number < bound := by
  have hfirst : Effects (fun _ command => command.keyword ≠ .add) s (p.set ++ p.removed) p.afterRemoved := by
    refine (p.effects_set.mono ?_).trans (p.effects_removed.mono ?_)
    · rintro _ _ ⟨-, id, changed, rfl⟩
      exact nofun
    · rintro _ _ ⟨-, index, rfl⟩
      exact nofun
  have hsecond : Effects (fun _ command => command.keyword ≠ .remove) p.afterRemoved (p.added ++ p.moved) p.after := by
    refine (p.effects_added.mono ?_).trans (p.effects_moved.mono ?_)
    · rintro _ _ ⟨-, item, before, rfl⟩
      exact nofun
    · rintro _ _ ⟨-, index, before, rfl⟩
      exact nofun
  intro command hcommand number hnumber
  rw [List.append_assoc] at hcommand
  rcases List.mem_append.1 hcommand with hcommand | hcommand
  · exact Nat.lt_of_lt_of_le (hfirst.numbers_lt_before command hcommand number hnumber) hbefore
  · have hlt := hsecond.numbers_lt_after.2 command hcommand number hnumber
    rw [p.length_after hs ht] at hlt
    exact Nat.lt_of_lt_of_le hlt hafter

/-! ## Values in commands -/

/-- A section holds something when it has an item or a value. -/
theorem WellFormed.hasContent_iff {order : OrderTable} (hs : s.WellFormed order) :
    s.hasContent = true ↔ (∃ item, item ∈ s.items) ∨ ∃ id key value, s.value? id key = some value := by
  have hsettings : s.settings.isEmpty = false ↔ ∃ id key value, s.value? id key = some value := by
    refine Assoc.isEmpty_eq_false_iff.trans ⟨fun ⟨id, values, hvalues⟩ => ?_, fun ⟨id, key, value, hvalue⟩ => ?_⟩
    · obtain ⟨key, value, hvalue⟩ := Assoc.isEmpty_eq_false_iff.1 (hs.settled id values hvalues)
      exact ⟨id, key, value, by rw [value?, hvalues]; exact hvalue⟩
    · obtain ⟨values, hvalues, -⟩ := Option.bind_eq_some_iff.1 hvalue
      exact ⟨id, values, hvalues⟩
  rw [hasContent, Bool.or_eq_true, Bool.not_eq_true', Bool.not_eq_true', hsettings, List.isEmpty_eq_false_iff_exists_mem]

/-- The values of a map are printable when each of them is. -/
theorem printable_values_iff {values : Values} : values.Printable ↔
    ∀ key value, values.get? key = some value → Text.PrintableKey key ∧ Text.PrintableValue value :=
  ⟨fun h key value hvalue => h (key, value) (Assoc.mem_entries_iff.2 hvalue),
    fun h entry hentry => h entry.1 entry.2 (Assoc.mem_entries_iff.1 hentry)⟩

/-- A section is printable when its path, its items and its values are. -/
theorem WellFormed.printable_iff {order : OrderTable} (hs : s.WellFormed order) :
    s.Printable ↔ s.path.Printable ∧ (∀ item ∈ s.items, Item.Printable item) ∧
      ∀ id key value, s.value? id key = some value → id.Printable ∧ Text.PrintableKey key ∧ Text.PrintableValue value := by
  refine and_congr_right fun _ => and_congr_right fun _ => ⟨fun h id key value hvalue => ?_, fun h entry hentry => ?_⟩
  · obtain ⟨values, hvalues, hget⟩ := Option.bind_eq_some_iff.1 hvalue
    obtain ⟨hid, hprintable⟩ := h (id, values) (Assoc.mem_entries_iff.2 hvalues)
    exact ⟨hid, printable_values_iff.1 hprintable key value hget⟩
  · have hvalues := Assoc.mem_entries_iff.1 hentry
    have hvalue : ∀ key value, entry.2.get? key = some value → s.value? entry.1 key = some value := fun key value hget => by
      rw [value?, hvalues]
      exact hget
    obtain ⟨key, value, hget⟩ := Assoc.isEmpty_eq_false_iff.1 (hs.settled entry.1 entry.2 hvalues)
    exact ⟨(h _ _ _ (hvalue key value hget)).1, printable_values_iff.2 fun key value hget => (h _ _ _ (hvalue key value hget)).2⟩

/-- What a command aims at is in the target, or it is in the section and has to go. -/
theorem Aim.hasContent {order order' : OrderTable} (hs : s.WellFormed order) (ht : target.WellFormed order')
    (haim : Aim target s command) : s.hasContent = true ∨ target.hasContent = true := by
  rw [hs.hasContent_iff, ht.hasContent_iff]
  cases haim with
  | set hvalues _ =>
    obtain ⟨key, value, hvalue⟩ := Assoc.isEmpty_eq_false_iff.1 (ht.settled _ _ hvalues)
    exact .inr (.inr ⟨_, key, value, by rw [value?, hvalues]; exact hvalue⟩)
  | remove hitem _ => exact .inl (.inl ⟨_, List.mem_of_getElem? hitem⟩)
  | add hwanted _ _ => exact .inr (.inl ⟨_, hwanted⟩)
  | move hitem _ _ => exact .inl (.inl ⟨_, List.mem_of_getElem? hitem⟩)

/-- Where there is something to edit, the section or the target holds something. -/
theorem Effects.hasContent {order order' : OrderTable} (hs : s.WellFormed order) (ht : target.WellFormed order')
    (h : Effects (Aim target) s commands s') (hne : commands ≠ []) : s.hasContent = true ∨ target.hasContent = true := by
  cases h with
  | refl => exact absurd rfl hne
  | step haim _ _ => exact haim.hasContent hs ht

/-- A command that aims at a printable target is printable if its numbers are indices. -/
theorem Aim.printable {order : OrderTable} (ht : target.WellFormed order) (hp : target.hasContent = true → target.Printable)
    (haim : Aim target s command) (he : s.Effect command s') (hnumbers : ∀ number ∈ command.numbers, number < Text.indexBound) :
    command.Printable := by
  rw [ht.hasContent_iff, ht.printable_iff] at hp
  cases haim with
  | @set id values changed hvalues hchanged =>
    have hvalue : ∀ key value, changed.get? key = some value → target.value? id key = some value := by
      intro key value hget
      rw [value?, hvalues]
      exact hchanged key value hget
    have hprintable : ∀ key value, changed.get? key = some value →
        id.Printable ∧ Text.PrintableKey key ∧ Text.PrintableValue value := fun key value hget =>
      (hp (.inr ⟨id, key, value, hvalue key value hget⟩)).2.2 id key value (hvalue key value hget)
    cases he with
    | set hne _ =>
      obtain ⟨key, value, hget⟩ := Assoc.isEmpty_eq_false_iff.1 hne
      exact ⟨hne, printable_values_iff.2 fun key value hget => (hprintable key value hget).2, (hprintable key value hget).1⟩
  | remove hitem _ => exact hnumbers _ (List.mem_singleton.2 rfl)
  | @add item before hwanted _ _ =>
    obtain ⟨hne, hvalues, hkey⟩ := (hp (.inl ⟨item, hwanted⟩)).2.1 item hwanted
    exact ⟨hne, hvalues, hkey, fun position hposition => hnumbers position (Option.mem_toList.2 hposition)⟩
  | @move index before item _ _ _ =>
    refine ⟨hnumbers index List.mem_cons_self, fun position hposition => hnumbers position ?_⟩
    exact List.mem_cons_of_mem _ (Option.mem_toList.2 hposition)

/-- Commands that aim at a printable target are printable if their numbers are indices. -/
theorem Effects.printable {order : OrderTable} (ht : target.WellFormed order) (hp : target.hasContent = true → target.Printable)
    (h : Effects (Aim target) s commands s')
    (hnumbers : ∀ command ∈ commands, ∀ number ∈ command.numbers, number < Text.indexBound) :
    ∀ command ∈ commands, command.Printable := by
  induction h with
  | refl => exact List.forall_mem_nil _
  | step haim he _ ih =>
    obtain ⟨hcommand, hcommands⟩ := List.forall_mem_cons.1 hnumbers
    exact List.forall_mem_cons.2 ⟨haim.printable ht hp he hcommand, ih hcommands⟩

/-- What a merge of printable sections makes is printable. -/
theorem Passes.printable_after {order order' : OrderTable} (p : Passes s target) (hs : s.WellFormed order)
    (ht : target.WellFormed order') (hpath : target.path = s.path) (hsp : s.hasContent = true → s.Printable)
    (htp : target.hasContent = true → target.Printable) (hcontent : p.after.hasContent = true) : p.after.Printable := by
  have hafter := p.effects.wellFormed hs
  have hitems := (p.reaches ht.nodup).mem_iff
  have hvalues : ∀ id key value, p.after.value? id key = some value →
      target.value? id key = some value ∨ s.value? id key = some value := by
    intro id key value hvalue
    rw [p.value?_after] at hvalue
    exact (Option.or_eq_some_iff.1 hvalue).imp_right And.right
  rw [hs.hasContent_iff, hs.printable_iff] at hsp
  rw [ht.hasContent_iff, ht.printable_iff, hpath] at htp
  rw [hafter.hasContent_iff] at hcontent
  rw [hafter.printable_iff, p.effects.frame.1]
  refine ⟨?_, fun item hitem => ?_, fun id key value hvalue => ?_⟩
  · rcases hcontent with ⟨item, hitem⟩ | ⟨id, key, value, hvalue⟩
    · exact (htp (.inl ⟨item, (hitems item).1 hitem⟩)).1
    · rcases hvalues id key value hvalue with hvalue | hvalue
      · exact (htp (.inr ⟨id, key, value, hvalue⟩)).1
      · exact (hsp (.inr ⟨id, key, value, hvalue⟩)).1
  · exact (htp (.inl ⟨item, (hitems item).1 hitem⟩)).2.1 item ((hitems item).1 hitem)
  · rcases hvalues id key value hvalue with hvalue | hvalue
    · exact (htp (.inr ⟨id, key, value, hvalue⟩)).2.2 id key value hvalue
    · exact (hsp (.inr ⟨id, key, value, hvalue⟩)).2.2 id key value hvalue

end Section

namespace Configuration

variable {c c' base target result : Configuration} {script : Script}

/-! ## Configurations -/

/-- A configuration is printable when the sections at all paths that hold something are, and its version is. -/
theorem WellFormed.printable_iff (h : c.WellFormed) :
    c.Printable ↔ (∀ path, (c.sectionAt path).hasContent = true → (c.sectionAt path).Printable) ∧
      ∀ version ∈ c.version, Version.Printable version := by
  refine and_congr_left fun _ => ⟨fun hp path hcontent => ?_, fun hp s hs hcontent => ?_⟩
  · cases hs : c.section? path with
    | none =>
      rw [h.sectionAt_of_section?_eq_none hs] at hcontent
      cases hcontent
    | some s =>
      rw [sectionAt_of_section? hs] at hcontent ⊢
      exact hp s (h.section?_eq_some_iff.1 hs).1 hcontent
  · have hat := sectionAt_of_section? (h.section?_eq_some_iff.2 ⟨hs, rfl⟩)
    rw [← hat] at hcontent ⊢
    exact hp s.path hcontent

/-- A configuration has no more items than there are indices when this is so at all paths. -/
theorem WellFormed.indexable_iff (h : c.WellFormed) :
    c.Indexable ↔ ∀ path, (c.sectionAt path).items.length ≤ Text.indexBound := by
  refine ⟨fun hi path => ?_, fun hi s hs => ?_⟩
  · cases hs : c.section? path with
    | none =>
      rw [h.sectionAt_of_section?_eq_none hs]
      exact Nat.zero_le _
    | some s =>
      rw [sectionAt_of_section? hs]
      exact hi s (h.section?_eq_some_iff.1 hs).1
  · have hat := sectionAt_of_section? (h.section?_eq_some_iff.2 ⟨hs, rfl⟩)
    rw [← hat]
    exact hi s.path

/-- A configuration that is like a printable one of the same version is printable. -/
theorem Alike.printable (halike : c'.Alike c) (hc' : c'.WellFormed) (hc : c.WellFormed) (hversion : c'.version = c.version)
    (hp : c.Printable) : c'.Printable := by
  rw [hc.printable_iff] at hp
  rw [hc'.printable_iff, hversion]
  refine ⟨fun path hcontent => ?_, hp.2⟩
  have hsame : (c'.sectionAt path).unlogged.hasContent = true := hcontent
  rw [halike path] at hsame
  have hprintable : (c.sectionAt path).unlogged.Printable := hp.1 path hsame
  rwa [← halike path] at hprintable

/-- A configuration that is like one with no more items than there are indices has no more either. -/
theorem Alike.indexable (halike : c'.Alike c) (hc' : c'.WellFormed) (hc : c.WellFormed) (hi : c.Indexable) : c'.Indexable := by
  rw [hc.indexable_iff] at hi
  rw [hc'.indexable_iff]
  intro path
  rw [halike.items_eq path]
  exact hi path

/-- What the script of a comparison says can be written, and fits the sections, if both sides are printable and have no more items
than there are indices. -/
theorem fits_of_diff (hb : base.WellFormed) (ht : target.WellFormed) (hdiff : base.diff target = .ok script)
    (hbp : base.Printable) (htp : target.Printable) (hbi : base.Indexable) (hti : target.Indexable) :
    ∀ batch ∈ script.workingBatches, batch.Fits base.order := by
  obtain ⟨script', merged, -, hdiff', -, hplaced, hpasses⟩ := exists_script_passes hb ht
  cases hdiff.symm.trans hdiff'
  intro batch hbatch
  obtain ⟨hmem, hworking⟩ := List.mem_filter.1 hbatch
  have hcommands : atPath batch.path script.edits = batch.commands := by
    rw [hplaced.atPath_edits, hplaced.batch?_eq_some_iff.2 ⟨hmem, rfl⟩]
    rfl
  have hne : batch.commands ≠ [] := by simpa using hworking
  have hallowed := (Script.wellFormed_of_diff hb ht hdiff).allowed batch hmem
  have hpasses := hpasses batch.path
  rw [PassesAt, hcommands] at hpasses
  rcases hpasses with ⟨-, hnil, -⟩ | ⟨t, p, hwanted, hedits, -⟩
  · exact absurd hnil hne
  · obtain ⟨htmem, htpath⟩ := ht.section?_eq_some_iff.1 hwanted
    have hs := hb.sectionAt batch.path
    have htwf := ht.sections t htmem
    have hnumbers := p.numbers_lt hs.nodup htwf.nodup (hb.indexable_iff.1 hbi batch.path) (hti t htmem)
    have heffects := p.effects
    rw [← hedits] at hnumbers heffects
    have hprintable := heffects.printable htwf (htp.1 t htmem) hnumbers
    refine ⟨?_, fun command hcommand => ⟨hprintable command hcommand, hallowed command hcommand⟩⟩
    rcases heffects.hasContent hs htwf hne with hcontent | hcontent
    · rw [← hb.path_sectionAt batch.path]
      exact ((hb.printable_iff.1 hbp).1 batch.path hcontent).1
    · rw [← htpath]
      exact (htp.1 t htmem hcontent).1

/-- What the script of a comparison of printable configurations makes is printable. -/
theorem printable_of_apply (hb : base.WellFormed) (ht : target.WellFormed) (hdiff : base.diff target = .ok script)
    (happly : base.apply script = .ok result) (hbp : base.Printable) (htp : target.Printable) : result.Printable := by
  obtain ⟨script', merged, -, hdiff', -, -, hpasses⟩ := exists_script_passes hb ht
  cases hdiff.symm.trans hdiff'
  obtain ⟨result', hresult, hafter⟩ := exists_loadAll_of_effects hb fun path => (hpasses path).effects
  cases (apply_eq_ok_iff.2 hresult).symm.trans happly
  obtain ⟨hwf, -, hversion⟩ := hb.of_apply happly
  rw [hb.printable_iff] at hbp
  rw [hwf.printable_iff, hversion]
  refine ⟨fun path => ?_, hbp.2⟩
  rw [hafter]
  intro hcontent
  have hmerged : (merged.sectionAt path).hasContent = true := hcontent
  have hprintable : (merged.sectionAt path).Printable := by
    rcases hpasses path with ⟨-, -, hsame⟩ | ⟨t, p, hwanted, -, hsame⟩
    · rw [hsame] at hmerged ⊢
      exact hbp.1 path hmerged
    · obtain ⟨htmem, htpath⟩ := ht.section?_eq_some_iff.1 hwanted
      rw [hsame] at hmerged ⊢
      exact p.printable_after (hb.sectionAt path) (ht.sections t htmem) (htpath.trans (hb.path_sectionAt path).symm)
        (hbp.1 path) (htp.1 t htmem) hmerged
  exact hprintable

end Configuration

end RouterPlan
