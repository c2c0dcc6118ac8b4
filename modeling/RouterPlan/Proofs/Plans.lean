import RouterPlan.Pattern.Engine
import RouterPlan.Proofs.Lemmas.Traces
import RouterPlan.Proofs.Reachable

/-!
# The shape of edit scripts

What a comparison writes down for a section of the target (`diff_plan`): settings, deletions, insertions and moves, in this order, and
no command more than its group needs. What the commands are about is read off `Section.trace`, so every position counts in the list
as it stands when its command runs.
-/

namespace RouterPlan

namespace Section

/-- The commands that take one section to another, in four groups. -/
structure Plan (s target : Section) where
  /-- The new values of settings. -/
  sets : List (Identifier × Values)
  /-- The positions of the items that go. -/
  removes : List Nat
  /-- The items that come, each with the position of the item that it is put before. -/
  adds : List (Item × Option Nat)
  /-- From where each moved item is taken, and before which position it is put. -/
  moves : List (Nat × Nat)
  /-- The items that are moved. -/
  moved : List Item
  /-- Settings come in the order of their identifiers. -/
  ascending_sets : sets.Pairwise fun a b => compare a.1 b.1 = .lt
  /-- There is one for each setting of the target with a key whose value is missing or another one, and it has exactly those
  keys. -/
  mem_sets_iff : ∀ id changed, (id, changed) ∈ sets ↔ changed.isEmpty = false ∧ ∃ values,
    target.settings.get? id = some values ∧
      ∀ key, changed.get? key = (values.get? key).filter fun value => s.value? id key != some value
  /-- As many items go as the target lacks. -/
  length_removes : removes.length = (s.items.filter fun item => item ∉ target.items).length
  /-- The items come that are missing, in the order of the target. -/
  items_adds : adds.map (·.1) = target.items.filter fun item => item ∉ s.items
  /-- An item is put before another one only in an ordered section. -/
  placed_adds : ∀ add ∈ adds, add.2.isSome = true → s.mode = .ordered
  /-- Items are moved only where order counts. -/
  ordered_moves : moves ≠ [] → s.mode = .ordered ∨ s.mode = .orderedAppend
  /-- An item is moved forward. -/
  forward_moves : ∀ move ∈ moves, move.2 < move.1
  /-- Each item is moved to a place behind that of the one before. -/
  ascending_moves : (moves.map (·.2)).Pairwise (· < ·)
  length_moves : moves.length = moved.length
  /-- No item is moved twice. -/
  nodup_moved : moved.Nodup
  /-- Not all items are moved. -/
  bounded_moves : moves.length ≤ target.items.length - 1

namespace Plan

variable {s target : Section} (plan : Plan s target)

/-- The commands of a plan, in the order in which they are carried out. -/
def commands : List Command :=
  plan.sets.map (fun entry => .set entry.1 entry.2) ++ plan.removes.map .remove ++
    plan.adds.map (fun add => .add add.1 add.2) ++ plan.moves.map fun move => .move move.1 (some move.2)

/-- What the commands of a plan are about: the settings are about no item, and after them come the items that the target lacks, in the
order of the section, those that are missing, in the order of the target, and those that are moved. -/
def subjects : List (Option Item) :=
  plan.sets.map (fun _ => none) ++ (s.items.filter fun item => item ∉ target.items).map some ++
    (target.items.filter fun item => item ∉ s.items).map some ++ plan.moved.map some

/-- The mode of the section allows every command of a plan. -/
theorem checkAllowed (path : Path) : ∀ command ∈ plan.commands, command.checkAllowed path s.mode = .ok () := by
  intro command hmem
  simp only [commands, List.mem_append, List.mem_map] at hmem
  obtain ((⟨entry, -, rfl⟩ | ⟨index, -, rfl⟩) | ⟨add, hadd, rfl⟩) | ⟨move, hmove, rfl⟩ := hmem
  · rfl
  · rfl
  · obtain ⟨item, before⟩ := add
    cases before with
    | none => rfl
    | some position =>
      rw [plan.placed_adds _ hadd rfl]
      rfl
  · rcases plan.ordered_moves (List.ne_nil_of_mem hmove) with hmode | hmode <;> rw [hmode] <;> rfl

end Plan

variable {s s' target : Section} {commands : List Command}

/-- The settings that a merge puts in. -/
theorem mem_newSettings_iff {id : Identifier} {changed : Values} :
    (id, changed) ∈ target.settings.entries.filterMap s.changed? ↔ changed.isEmpty = false ∧ ∃ values,
      target.settings.get? id = some values ∧
        ∀ key, changed.get? key = (values.get? key).filter fun value => s.value? id key != some value := by
  rw [List.mem_filterMap]
  constructor
  · rintro ⟨⟨other, values⟩, hentry, hchanged⟩
    obtain ⟨hne, rfl, hkeys⟩ := changed?_eq_some_iff.1 hchanged
    exact ⟨hne, values, Assoc.mem_entries_iff.1 hentry, hkeys⟩
  · rintro ⟨hne, values, hvalues, hkeys⟩
    exact ⟨(id, values), Assoc.mem_entries_iff.2 hvalues, changed?_eq_some_iff.2 ⟨hne, rfl, hkeys⟩⟩

/-- The settings that a merge puts in come in the order of their identifiers. -/
theorem ascending_newSettings :
    (target.settings.entries.filterMap s.changed?).Pairwise fun a b => compare a.1 b.1 = .lt := by
  refine List.pairwise_filterMap.2 (target.settings.sorted.imp fun {a b} hlt x hx y hy => ?_)
  obtain ⟨-, hid, -⟩ := changed?_eq_some_iff.1 hx
  obtain ⟨-, hid', -⟩ := changed?_eq_some_iff.1 hy
  rwa [hid, hid']

/-- A mode that allows placement is the ordered one. -/
theorem eq_ordered_of_allowsPlacement {mode : OrderMode} (h : mode.allowsPlacement = true) : mode = .ordered := by
  cases mode
  · cases h
  · rfl
  · cases h

/-- In an ordered section the mode is one of two. -/
theorem eq_of_isOrdered {mode : OrderMode} (h : mode.isOrdered = true) : mode = .ordered ∨ mode = .orderedAppend := by
  cases mode
  · cases h
  · exact .inl rfl
  · exact .inr rfl

/-- The passes of a merge carry out a plan. -/
theorem Passes.exists_plan (p : Passes s target) (hs : s.items.Nodup) (ht : target.items.Nodup) :
    ∃ plan : Plan s target, p.set ++ p.removed ++ p.added ++ p.moved = plan.commands ∧
      trace plan.commands s = .ok (plan.subjects, p.after) := by
  have hn₁ := p.effects_set.nodup hs
  have hn₂ := p.effects_removed.nodup hn₁
  have hn₃ := p.nodup_afterAdded hs
  have hmode₃ : p.afterAdded.mode = s.mode := p.effects_added.frame.2.1.trans p.mode_afterRemoved
  have hsets : p.set = (target.settings.entries.filterMap s.changed?).map fun entry => .set entry.1 entry.2 := by
    rw [p.set_eq, commands_putSettings _ target.settings.nodup_keys, List.map_filterMap]
    exact List.filterMap_congr fun entry _ => command_set_eq entry
  have htraceSets := trace_sets (fun _ _ h => h.2) hs p.effects_set
  obtain ⟨htraceRemoved, removes, hremoves⟩ := trace_deleteAll hn₁ p.deleteAll_eq
  obtain ⟨htraceAdded, adds, hadds, hitems, hplaced⟩ := trace_insertMissing ht hn₂ p.insertMissing_eq
  have hmissing : (target.items.filter fun item => item ∉ p.afterRemoved.items) =
      target.items.filter fun item => item ∉ s.items := by
    rw [p.items_afterRemoved]
    refine List.filter_congr fun item hitem => ?_
    simp [hitem]
  rw [hmissing] at htraceAdded hitems
  obtain ⟨moved, moves, hmoves, htraceMoved, hmode, hsub, hlen, hforward, hascend⟩ : ∃ moved : List Item,
      ∃ moves : List (Nat × Nat), p.moved = moves.map (fun move => .move move.1 (some move.2)) ∧
        trace p.moved p.afterAdded = .ok (moved.map some, p.after) ∧ (moves ≠ [] → s.mode.isOrdered = true) ∧
        moved.Sublist target.items ∧ moves.length ≤ target.items.length - 1 ∧ (∀ move ∈ moves, move.2 < move.1) ∧
        (moves.map (·.2)).Pairwise (· < ·) := by
    cases hmode : s.mode.isOrdered with
    | true =>
      obtain ⟨moved, moves, hmoves, htrace, hsub, hlen, hplaces, hascend⟩ :=
        exists_moves [] (hmode₃ ▸ hmode) hn₃ rfl p.perm_afterAdded (p.reorder_eq hmode)
      exact ⟨moved, moves, hmoves, htrace, fun _ => rfl, hsub, hlen, fun move hmove => (hplaces move hmove).2, hascend⟩
    | false =>
      obtain ⟨hnone, hafter⟩ := p.moved_eq_nil hmode
      refine ⟨[], [], hnone, by rw [hnone, hafter]; rfl, fun h => absurd rfl h, List.nil_sublist _, Nat.zero_le _,
        List.forall_mem_nil _, .nil⟩
  have hcount : moves.length = moved.length := by
    have h := length_of_trace htraceMoved
    rwa [hmoves, List.length_map, List.length_map, eq_comm] at h
  let plan : Plan s target := {
    sets := target.settings.entries.filterMap s.changed?, removes, adds, moves, moved
    ascending_sets := ascending_newSettings
    mem_sets_iff := fun _ _ => mem_newSettings_iff
    length_removes := by rw [← p.length_removed, hremoves, List.length_map]
    items_adds := hitems
    placed_adds := fun add hadd hsome => eq_ordered_of_allowsPlacement (p.mode_afterRemoved ▸ hplaced add hadd hsome)
    ordered_moves := fun hne => eq_of_isOrdered (hmode hne)
    forward_moves := hforward
    ascending_moves := hascend
    length_moves := hcount
    nodup_moved := ht.sublist hsub
    bounded_moves := hlen }
  have hcommands : p.set ++ p.removed ++ p.added ++ p.moved = plan.commands := by
    rw [hsets, hremoves, hadds, hmoves]
    rfl
  refine ⟨plan, hcommands, ?_⟩
  rw [← hcommands]
  have htrace := trace_append (trace_append (trace_append htraceSets htraceRemoved) htraceAdded) htraceMoved
  rw [hsets, List.map_map] at htrace
  rw [hsets]
  exact htrace

end Section

namespace Configuration

/-- A comparison of reachable configurations gives a script. At the path of each section of the target, its commands are those of a
plan, in the mode that the base's table has for the path; carried out one after the other on the section of the base, they are
about just the items that the plan says; no item goes and comes again; and the base's mode allows all of them. -/
theorem diff_plan {base target : Configuration} (hb : base.Reachable) (ht : target.Reachable) :
    ∃ script, base.diff target = .ok script ∧ ∀ t ∈ target.sections, ∃ plan : (base.sectionAt t.path).Plan t,
      atPath t.path script.edits = plan.commands ∧
      (base.sectionAt t.path).mode = base.order.modeFor t.path ∧
      (∃ s, Section.trace plan.commands (base.sectionAt t.path) = .ok (plan.subjects, s)) ∧
      ((base.sectionAt t.path).items.filter fun item => item ∉ t.items).Disjoint
        (t.items.filter fun item => item ∉ (base.sectionAt t.path).items) ∧
      ∀ command ∈ atPath t.path script.edits, command.checkAllowed t.path (base.order.modeFor t.path) = .ok () := by
  have hbase := hb.wellFormed
  have htarget := ht.wellFormed
  obtain ⟨script, merged, -, hdiff, -, -, hpasses⟩ := exists_script_passes hbase htarget
  refine ⟨script, hdiff, fun t hmem => ?_⟩
  have hwanted : target.section? t.path = some t := htarget.section?_eq_some_iff.2 ⟨hmem, rfl⟩
  have hcurrent := hbase.sectionAt t.path
  have hmode : (base.sectionAt t.path).mode = base.order.modeFor t.path := by
    rw [hcurrent.mode, hbase.path_sectionAt]
  rcases hpasses t.path with ⟨hnone, -⟩ | ⟨t', p, hsome, hedits, -⟩
  · cases hwanted.symm.trans hnone
  · cases hwanted.symm.trans hsome
    obtain ⟨plan, hcommands, htrace⟩ := p.exists_plan hcurrent.nodup (htarget.sections t hmem).nodup
    have hplan : atPath t.path script.edits = plan.commands := hedits.trans hcommands
    refine ⟨plan, hplan, hmode, ⟨_, htrace⟩, fun item hgone hnew => ?_, ?_⟩
    · have hthere := (List.mem_filter.1 hgone).1
      have hmissing := (List.mem_filter.1 hnew).2
      simp [hthere] at hmissing
    · rw [hplan, ← hmode]
      exact plan.checkAllowed t.path

/-- One rule goes, one comes, and of the three that the target has then one at most is moved before another one. -/
theorem diff_plan_filter :
    (withRules .builtin filterPath ["a", "b", "c"]).Reachable ∧ (withRules ⟨[]⟩ filterPath ["c", "x", "a"]).Reachable ∧
      ∃ script, (withRules .builtin filterPath ["a", "b", "c"]).diff (withRules ⟨[]⟩ filterPath ["c", "x", "a"]) = .ok script ∧
        ∃ plan : Section.Plan ((withRules .builtin filterPath ["a", "b", "c"]).sectionAt filterPath)
            { path := filterPath, mode := .unordered, items := [rule "c", rule "x", rule "a"] },
          atPath filterPath script.edits = plan.commands ∧ plan.removes.length = 1 ∧
            plan.adds.map (·.1) = [rule "x"] ∧ plan.moves.length ≤ 2 := by
  have hb := reachable_withRules .builtin filterPath ["a", "b", "c"]
  have ht := reachable_withRules ⟨[]⟩ filterPath ["c", "x", "a"]
  refine ⟨hb, ht, ?_⟩
  obtain ⟨script, hdiff, hplan⟩ := diff_plan hb ht
  have hfilter : { path := filterPath, mode := .unordered, items := [rule "c", rule "x", rule "a"] } ∈
      (withRules ⟨[]⟩ filterPath ["c", "x", "a"]).sections := by
    decide +kernel
  obtain ⟨plan, hcommands, -, -, -, -⟩ := hplan _ hfilter
  refine ⟨script, hdiff, plan, hcommands, ?_, ?_, ?_⟩
  · rw [plan.length_removes]
    decide +kernel
  · rw [plan.items_adds]
    decide +kernel
  · exact plan.bounded_moves

end Configuration

end RouterPlan
