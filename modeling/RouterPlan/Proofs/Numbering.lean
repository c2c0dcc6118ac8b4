import RouterPlan.Pattern.Engine
import RouterPlan.Proofs.Lemmas.Menus
import RouterPlan.Proofs.Lemmas.MergeTree
import RouterPlan.Proofs.Reachable
import RouterPlan.Proofs.Replaying

/-!
# The numbers in the lines for a device

When a device accepts the lines of a script (`wire_accepted_iff`). It does so nearly always, because a `print` goes before a
number once an earlier command has shifted the numbers. An item that is appended shifts none, so no `print` goes before a command
that names it next, although the device has not numbered it yet: that is the one way in which lines are rejected (`Stumbles`).
Lines that are accepted leave the items that the script leaves.
-/

namespace RouterPlan

/-- The items that a section is to hold keep all that it holds, and depart from them first by a new item, which can only be
appended and then moved. -/
def Stumbles (mode : OrderMode) (items wanted : List Item) : Prop :=
  (∀ item ∈ items, item ∈ wanted) ∧ ∃ settled item rest new others, items = settled ++ item :: rest ∧
    wanted = settled ++ new :: others ∧ new ∉ items ∧ (mode = .orderedAppend ∨ mode = .ordered ∧ rest = [])

namespace Section.Passes

variable {s target : Section}

/-- The menu after the lines of a merge, if none is rejected. -/
def send (p : Passes s target) : Option Menu :=
  (Batch.menuSteps false (p.set ++ p.removed ++ p.added ++ p.moved)).foldlM Menu.obey (Menu.ofItems s.items)

/-- Only the lines that edit items count. -/
theorem send_eq (p : Passes s target) :
    p.send = (Batch.menuSteps false (p.removed ++ p.added ++ p.moved)).foldlM Menu.obey (Menu.ofItems s.items) := by
  rw [send, List.append_assoc p.set, List.append_assoc p.set]
  refine Menu.menuSteps_settings p.set _ (p.effects_set.forall_mem ?_)
  rintro _ _ ⟨-, id, changed, rfl⟩
  rfl

theorem items_afterSet (p : Passes s target) : p.afterSet.items = s.items := by
  rw [p.afterSet_eq, items_putSettings]

/-- The commands of the last three passes edit items. -/
theorem editsItems (p : Passes s target) :
    ∀ command ∈ p.removed ++ p.added ++ p.moved, command.editsItems = true := by
  refine p.effects_items.forall_mem fun _ command h => ?_
  cases command with
  | set id changed => exact absurd rfl (h.2 id changed)
  | _ => rfl

/-- If the first edit of items shifts positions, no line is rejected: its own numbers are those of before, and a `print` goes
before every later one. -/
theorem exists_send_of_head (p : Passes s target) (hs : s.items.Nodup) {command : Command} {commands : List Command}
    (h : p.removed ++ p.added ++ p.moved = command :: commands) (hshift : command.invalidatesIndices = true) :
    ∃ menu, p.send = some menu ∧ menu.items = p.after.items := by
  have heff := p.effects_items
  have hkind := p.editsItems
  rw [h] at heff hkind
  rw [p.send_eq, h]
  refine Menu.exists_obey_of_head (p.effects_set.nodup hs) heff (fun c hc => hkind c (List.mem_cons_of_mem _ hc)) hshift
    p.items_afterSet.symm fun number _ => ?_
  rw [Menu.named?_ofItems, p.items_afterSet]

/-! ## Items that are only appended -/

/-- The items that are put in are all appended, and none is taken out. -/
structure Appends (p : Passes s target) : Prop where
  removed : p.removed = []
  added : p.added = (target.items.filter fun item => item ∉ s.items).map fun item => .add item none
  items : p.afterAdded.items = s.items ++ target.items.filter fun item => item ∉ s.items

/-- Unless an item is taken out or put in before another one, items are only appended. -/
theorem appends_or (p : Passes s target) (ht : target.items.Nodup) :
    p.Appends ∨ ∃ command commands, p.removed ++ p.added ++ p.moved = command :: commands ∧
      command.invalidatesIndices = true := by
  cases hremoved : p.removed with
  | cons command removed =>
    have heff := p.effects_removed
    rw [hremoved] at heff
    cases heff with
    | step hφ _ _ =>
      obtain ⟨-, index, rfl⟩ := hφ
      exact .inr ⟨_, _, rfl, rfl⟩
  | nil =>
    rcases insertMissing_cases target.items ht 0 p.afterRemoved p.insertMissing_eq with
      ⟨item, before, rest, hadded⟩ | ⟨hitems, hadded⟩
    · exact .inr ⟨_, _, by rw [hadded]; rfl, rfl⟩
    · rw [p.items_afterRemoved_of_nil hremoved] at hitems hadded
      exact .inl ⟨hremoved, hadded, hitems⟩

/-- The first new item of the target has no slot if items are only appended. -/
theorem Appends.slotFor_eq_none {p : Passes s target} (h : p.Appends) {settled rest : List Item} {item : Item}
    (htarget : target.items = settled ++ item :: rest) (hsettled : ∀ item ∈ settled, item ∈ s.items)
    (hnew : item ∉ s.items) : p.afterRemoved.slotFor settled.length = none := by
  obtain ⟨more, hadded⟩ := p.added_eq h.removed htarget hsettled hnew
  have hmem : Command.add item (p.afterRemoved.slotFor settled.length) ∈ p.added := by
    rw [hadded]
    exact List.mem_cons_self
  rw [h.added] at hmem
  obtain ⟨other, -, heq⟩ := List.mem_map.1 hmem
  exact (Command.add.inj heq).2.symm

/-- What is appended has no number when the moves are sent. -/
theorem Appends.send_eq {p : Passes s target} (h : p.Appends) :
    p.send = (Batch.menuSteps false p.moved).foldlM Menu.obey ⟨p.afterAdded.items, s.items.map some⟩ := by
  rw [p.send_eq, h.removed, List.nil_append, h.added, h.items]
  exact Menu.menuSteps_appended _ p.moved (Menu.ofItems s.items)

/-- Items that are appended and not moved are accepted. -/
theorem Appends.exists_send_of_nil {p : Passes s target} (h : p.Appends) (hmoved : p.moved = []) :
    ∃ menu, p.send = some menu ∧ menu.items = p.after.items := by
  have heff := p.effects_moved
  rw [hmoved] at heff
  exact ⟨_, by rw [h.send_eq, hmoved]; rfl, by rw [heff.eq_of_nil]⟩

/-- A first move of an item that was there before is accepted, and so is all that follows. -/
theorem Appends.exists_send_of_lt {p : Passes s target} (h : p.Appends) (hs : s.items.Nodup) {index before : Nat}
    {more : List Command} (hmoved : p.moved = .move index (some before) :: more) (hlt : index < s.items.length) :
    ∃ menu, p.send = some menu ∧ menu.items = p.after.items := by
  have heff := p.effects_moved
  have hkind := p.editsItems
  rw [hmoved] at heff hkind
  have hbefore : before < index := by
    cases heff with
    | step hφ _ _ =>
      cases hφ.1 with
      | move _ _ hlt => exact hlt
  rw [h.send_eq, hmoved]
  refine Menu.exists_obey_of_head (p.nodup_afterAdded hs) heff
    (fun c hc => hkind c (List.mem_append_right _ (List.mem_cons_of_mem _ hc))) rfl rfl fun number hnumber => ?_
  refine Menu.named?_eq rfl h.items ?_
  simp only [Command.numbers, Option.toList_some, List.mem_cons, List.not_mem_nil, or_false] at hnumber
  omega

/-- A first move of an item that was appended is rejected. -/
theorem Appends.send_eq_none {p : Passes s target} (h : p.Appends) {index before : Nat} {more : List Command}
    (hmoved : p.moved = .move index (some before) :: more) (hle : s.items.length ≤ index) : p.send = none := by
  rw [h.send_eq, hmoved]
  refine Menu.obey_move_eq_none ?_ more
  rw [Menu.named?, List.getElem?_eq_none (by simpa using hle)]
  rfl

/-- An item has a number if it was there before. -/
theorem Appends.lt_length_iff {p : Passes s target} (h : p.Appends) (hs : s.items.Nodup) {index : Nat} {item : Item}
    (hindex : p.afterAdded.items[index]? = some item) : index < s.items.length ↔ item ∈ s.items := by
  constructor
  · intro hlt
    rw [h.items, List.getElem?_append_left hlt] at hindex
    exact List.mem_of_getElem? hindex
  · intro hmem
    obtain ⟨index', hindex'⟩ := List.mem_iff_getElem?.1 hmem
    have hlt := (List.getElem?_eq_some_iff.1 hindex').1
    have hsame : p.afterAdded.items[index']? = some item := by
      rw [h.items, List.getElem?_append_left hlt, hindex']
    have heq := (List.getElem?_inj (List.getElem?_eq_some_iff.1 hindex).1 (p.nodup_afterAdded hs)).1
      (hindex.trans hsame.symm)
    omega

/-! ## The condition -/

/-- The lines are rejected where the items of the target stumble over a new one. -/
theorem send_eq_none (p : Passes s target) (hs : s.items.Nodup) (ht : target.items.Nodup)
    (h : Stumbles s.mode s.items target.items) : p.send = none := by
  obtain ⟨hkeep, settled, item, rest, new, others, hitems, htarget, hnew, hmode⟩ := h
  have hremoved := p.removed_eq_nil_iff.2 hkeep
  have hkept := p.items_afterRemoved_of_nil hremoved
  have hne : item ≠ new := by
    rintro rfl
    exact hnew (by simp [hitems])
  have hslot : p.afterRemoved.slotFor settled.length = none := by
    cases hslot : p.afterRemoved.slotFor settled.length with
    | none => rfl
    | some before =>
      obtain ⟨hplace, hlt, -⟩ := slotFor_eq_some_iff.1 hslot
      rw [p.mode_afterRemoved] at hplace
      rcases hmode with hmode | ⟨-, rfl⟩
      · rw [hmode] at hplace
        cases hplace
      · simp [hkept, hitems] at hlt
  have hsettled : ∀ item ∈ settled, item ∈ s.items := fun item h => by simp [hitems, h]
  have happends : p.Appends := by
    rcases insertMissing_cases target.items ht 0 p.afterRemoved p.insertMissing_eq with
      ⟨item, before, more, hadded⟩ | ⟨hitems, hadded⟩
    · obtain ⟨more, hfirst⟩ := p.added_eq hremoved htarget hsettled hnew
      rw [hslot, hadded] at hfirst
      cases hfirst
    · rw [hkept] at hitems hadded
      exact ⟨hremoved, hadded, hitems⟩
  have hordered : s.mode.isOrdered = true := by
    rcases hmode with hmode | ⟨hmode, -⟩ <;> rw [hmode] <;> rfl
  have hadded := happends.items
  rw [hitems, List.append_assoc, List.cons_append] at hadded
  obtain ⟨index, more, hindex, hmoved⟩ := p.moved_eq hs hordered hadded htarget hne
  refine happends.send_eq_none hmoved (Nat.le_of_not_lt fun hlt => ?_)
  exact hnew ((happends.lt_length_iff hs hindex).1 hlt)

/-- The lines are accepted where they do not. -/
theorem exists_send (p : Passes s target) (hs : s.items.Nodup) (ht : target.items.Nodup)
    (h : ¬Stumbles s.mode s.items target.items) : ∃ menu, p.send = some menu ∧ menu.items = p.after.items := by
  rcases p.appends_or ht with happends | ⟨command, commands, hhead, hshift⟩
  case inr => exact p.exists_send_of_head hs hhead hshift
  have hkeep := p.removed_eq_nil_iff.1 happends.removed
  rcases exists_departure hs hkeep with ⟨rest, htarget⟩ | ⟨settled, item, rest, new, others, hitems, htarget, hne⟩
  · -- The target goes on from what is there.
    have hrest : rest.filter (fun item => item ∉ s.items) = rest := by
      rw [htarget] at ht
      refine List.filter_eq_self.2 fun item hitem => ?_
      simpa using fun hmem => (List.nodup_append.1 ht).2.2 item hmem item hitem rfl
    refine happends.exists_send_of_nil (p.moved_eq_nil_of_eq ?_)
    rw [happends.items, htarget, List.filter_append, hrest]
    simp
  · -- The target departs from what is there.
    cases hmode : s.mode.isOrdered with
    | false => exact happends.exists_send_of_nil (p.moved_eq_nil hmode).1
    | true =>
      have hadded := happends.items
      rw [hitems, List.append_assoc, List.cons_append] at hadded
      obtain ⟨index, more, hindex, hmoved⟩ := p.moved_eq hs hmode hadded htarget hne
      by_cases hmem : new ∈ s.items
      · exact happends.exists_send_of_lt hs hmoved ((happends.lt_length_iff hs hindex).2 hmem)
      · refine absurd ⟨hkeep, settled, item, rest, new, others, hitems, htarget, hmem, ?_⟩ h
        have hslot := happends.slotFor_eq_none htarget (fun item h => by simp [hitems, h]) hmem
        cases hm : s.mode with
        | unordered =>
          rw [hm] at hmode
          cases hmode
        | orderedAppend => exact .inl rfl
        | ordered =>
          refine .inr ⟨rfl, ?_⟩
          have hlen : ¬settled.length + 1 < s.items.length := by
            intro hlt
            have hsome := slotFor_eq_some_iff.2 ⟨by rw [p.mode_afterRemoved, hm]; rfl,
              by rwa [p.items_afterRemoved_of_nil happends.removed], rfl⟩
            rw [hslot] at hsome
            cases hsome
          refine List.eq_nil_of_length_eq_zero ?_
          simp only [hitems, List.length_append, List.length_cons] at hlen
          omega

end Section.Passes

/-- The lines of a script for one path are those of the commands for it. -/
theorem Script.Placed.atPath_menuSteps {script : Script} (h : script.Placed) (path : Path) :
    Configuration.atPath path script.menuSteps = Batch.menuSteps false (Configuration.atPath path script.edits) := by
  have hworking : ∀ batches : List Batch,
      ((batches.filter (!·.commands.isEmpty)).flatMap fun batch =>
        (Batch.menuSteps false batch.commands).map (batch.path, ·)) =
      batches.flatMap fun batch => (Batch.menuSteps false batch.commands).map (batch.path, ·) := by
    intro batches
    induction batches with
    | nil => rfl
    | cons batch batches ih =>
      cases hcommands : batch.commands with
      | nil => simpa [hcommands, Batch.menuSteps] using ih
      | cons command commands => simp [hcommands, ih]
  rw [Script.menuSteps, workingBatches, hworking, h.atPath_flatMap (Batch.menuSteps false) rfl, h.atPath_edits]

namespace Configuration

/-- A device that holds a configuration and has just numbered its items. -/
def menus (c : Configuration) (path : Path) : Menu :=
  .ofItems (c.itemsAt path)

/-- What a device makes of the lines for one path: it rejects one where the items stumble, and else ends with the items of the
merged configuration. -/
theorem PassesAt.sent {base target merged : Configuration} {script : Script} {path : Path} (hb : base.WellFormed)
    (ht : target.WellFormed) (hm : merged.WellFormed) (hplaced : script.Placed)
    (h : PassesAt base target merged script path) :
    ((∃ t, target.section? path = some t ∧ Stumbles (base.order.modeFor path) (base.itemsAt path) t.items) ∧
        (atPath path script.menuSteps).foldlM Menu.obey (base.menus path) = none) ∨
      (¬∃ t, target.section? path = some t ∧ Stumbles (base.order.modeFor path) (base.itemsAt path) t.items) ∧
        ∃ menu, (atPath path script.menuSteps).foldlM Menu.obey (base.menus path) = some menu ∧
          menu.items = merged.itemsAt path := by
  have hs := hb.sectionAt path
  have hmode : base.order.modeFor path = (base.sectionAt path).mode := by
    rw [hs.mode, hb.path_sectionAt]
  rw [hplaced.atPath_menuSteps, menus, hmode, hb.itemsAt_eq, hm.itemsAt_eq]
  rcases h with ⟨hwanted, hedits, hsame⟩ | ⟨t, p, hwanted, hedits, hafter⟩
  · refine .inr ⟨?_, ?_⟩
    · rintro ⟨t, ht, -⟩
      rw [hwanted] at ht
      cases ht
    · rw [hedits, hsame]
      exact ⟨_, rfl, rfl⟩
  · have htn := (ht.sections t (ht.section?_eq_some_iff.1 hwanted).1).nodup
    rw [hedits, hafter]
    by_cases hstumbles : Stumbles (base.sectionAt path).mode (base.sectionAt path).items t.items
    · exact .inl ⟨⟨t, hwanted, hstumbles⟩, p.send_eq_none hs.nodup htn hstumbles⟩
    · refine .inr ⟨?_, p.exists_send hs.nodup htn hstumbles⟩
      rintro ⟨t', hwanted', hstumbles'⟩
      cases hwanted.symm.trans hwanted'
      exact hstumbles hstumbles'

/-- The lines for a device that holds the base of a script are accepted exactly if at no path of the target the items stumble:
the base's items are all kept, and the first of the target's items that departs from them is new, where items are only appended
or where it stands before the last of them. If the lines are accepted, the device holds at every path the items that the script
leads to. -/
theorem wire_accepted_iff {base target : Configuration} (hb : base.Reachable) (ht : target.Reachable) :
    ∃ script result, base.diff target = .ok script ∧ base.apply script = .ok result ∧
      script.wireLines = (script.menuSteps.map fun (path, step) => step.line path) ∧
      ((∃ menus, Menu.sendAll script.menuSteps base.menus = some menus) ↔
        ∀ t ∈ target.sections, ¬Stumbles (base.order.modeFor t.path) (base.itemsAt t.path) t.items) ∧
      ∀ menus, Menu.sendAll script.menuSteps base.menus = some menus →
        ∀ path, (menus path).items = result.itemsAt path := by
  have hbase := hb.wellFormed
  have htarget := ht.wellFormed
  obtain ⟨script, merged, -, hdiff, hmerged, hplaced, hpasses⟩ := exists_script_passes hbase htarget
  obtain ⟨result, happly, hsame⟩ := exists_apply hbase hmerged hpasses
  have hsent := fun path => (hpasses path).sent hbase htarget hmerged hplaced
  refine ⟨script, result, hdiff, happly, script.wireLines_eq, ⟨?_, fun h => ?_⟩, fun menus haccepted path => ?_⟩
  · rintro ⟨menus, haccepted⟩ t hmem hstumbles
    have hat := Menu.sendAll_eq_some_iff.1 haccepted t.path
    rcases hsent t.path with ⟨-, hnone⟩ | ⟨hno, -⟩
    · rw [hnone] at hat
      cases hat
    · exact hno ⟨t, htarget.section?_eq_some_iff.2 ⟨hmem, rfl⟩, hstumbles⟩
  · have hmenu : ∀ path, ∃ menu, (atPath path script.menuSteps).foldlM Menu.obey (base.menus path) = some menu := by
      intro path
      rcases hsent path with ⟨⟨t, hwanted, hstumbles⟩, -⟩ | ⟨-, menu, hmenu, -⟩
      · obtain ⟨hmem, rfl⟩ := htarget.section?_eq_some_iff.1 hwanted
        exact absurd hstumbles (h t hmem)
      · exact ⟨menu, hmenu⟩
    obtain ⟨menus, hmenus⟩ := Classical.skolem.1 hmenu
    exact ⟨menus, Menu.sendAll_eq_some_iff.2 hmenus⟩
  · have hat := Menu.sendAll_eq_some_iff.1 haccepted path
    rcases hsent path with ⟨-, hnone⟩ | ⟨-, menu, hmenu, hitems⟩
    · rw [hnone] at hat
      cases hat
    · cases hmenu.symm.trans hat
      rw [hitems, (hsame path).1]

/-- A new rule before the only one: it is appended, and the device has no number for it when it is moved. -/
theorem wire_rejected_filter :
    (withRules .builtin filterPath ["a"]).Reachable ∧ (withRules .builtin filterPath ["b", "a"]).Reachable ∧
      ∃ script, (withRules .builtin filterPath ["a"]).diff (withRules .builtin filterPath ["b", "a"]) = .ok script ∧
        script.wireLines = ["/ip firewall filter add comment=b", "/ip firewall filter move 1 0"] ∧
        Menu.sendAll script.menuSteps (withRules .builtin filterPath ["a"]).menus = none := by
  have hb := reachable_withRules .builtin filterPath ["a"]
  have ht := reachable_withRules .builtin filterPath ["b", "a"]
  obtain ⟨script, result, hdiff, -, -, haccepted, -⟩ := wire_accepted_iff hb ht
  have hlines : ((withRules .builtin filterPath ["a"]).diff (withRules .builtin filterPath ["b", "a"])).map Script.wireLines =
      .ok ["/ip firewall filter add comment=b", "/ip firewall filter move 1 0"] := by
    decide +kernel
  rw [hdiff] at hlines
  refine ⟨hb, ht, script, hdiff, Except.ok.inj hlines, Option.eq_none_iff_forall_ne_some.2 fun menus hsome => ?_⟩
  have hfilter : ∃ t ∈ (withRules .builtin filterPath ["b", "a"]).sections,
      t.path = filterPath ∧ t.items = [rule "b", rule "a"] := by
    decide +kernel
  obtain ⟨t, hmem, hpath, hitems⟩ := hfilter
  refine haccepted.1 ⟨menus, hsome⟩ t hmem ?_
  have hbase : (withRules .builtin filterPath ["a"]).itemsAt filterPath = [rule "a"] := by decide +kernel
  have hmode : (withRules .builtin filterPath ["a"]).order.modeFor filterPath = .ordered := by decide +kernel
  rw [hpath, hitems, hbase, hmode]
  exact ⟨by decide +kernel, [], rule "a", [], rule "b", [rule "a"], rfl, rfl, by decide +kernel, .inr ⟨rfl, rfl⟩⟩

end Configuration

end RouterPlan
