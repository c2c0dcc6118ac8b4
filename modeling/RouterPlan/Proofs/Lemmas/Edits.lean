import RouterPlan.Proofs.Lemmas.Lists
import RouterPlan.Proofs.Lemmas.Maps
import RouterPlan.Section

/-!
# Edits of a section

What the four edits of a section ask for and what they do (`insert_eq_ok_iff`, `delete_eq_ok_iff`, `move_eq_ok_iff`, and
`value?_set` for settings). `Section.Effect` is what the command that an edit returns says about the section before and after
it; carrying that command out in the section before gives the section after (`Effect.perform`), so a list of edits can be
repeated from its commands alone (`Effects.replay`).
-/

namespace RouterPlan.Section

/-! ## Items -/

/-- A section that holds an item at a position and holds nothing twice finds it there. -/
theorem position?_eq_some_iff {s : Section} (hn : s.items.Nodup) {item : Item} {index : Nat} :
    s.position? item = some index ↔ s.items[index]? = some item := by
  rw [position?, List.findIdx?_eq_some_iff_getElem, List.getElem?_eq_some_iff]
  constructor
  · rintro ⟨hlt, heq, -⟩
    exact ⟨hlt, by simpa using heq⟩
  · rintro ⟨hlt, heq⟩
    refine ⟨hlt, by simpa using heq, fun j hj => ?_⟩
    have hne : s.items[j] ≠ s.items[index] := List.pairwise_iff_getElem.1 hn j index _ hlt hj
    simpa [heq] using hne

/-- A position that has to be there is one where the item is. -/
theorem requirePosition_eq_ok_iff {s : Section} (hn : s.items.Nodup) {item : Item} {index : Nat} :
    s.requirePosition item = .ok index ↔ s.items[index]? = some item := by
  rw [← position?_eq_some_iff hn, requirePosition]
  cases s.position? item <;> simp

/-- The item at a position of the list. -/
theorem itemAt_eq_ok_iff {s : Section} {index : Nat} {item : Item} :
    s.itemAt index = .ok item ↔ s.items[index]? = some item := by
  rw [itemAt]
  cases s.items[index]? <;> simp

/-- A destination up to the length of the list is accepted; one from `tail` on means the end. -/
theorem settleDestination_eq_ok_iff {s : Section} {tail : Nat} {destination before : Option Nat} :
    s.settleDestination tail destination = .ok before ↔
      (∀ d, destination = some d → d ≤ s.items.length) ∧ before = destination.filter (· < tail) := by
  cases destination with
  | none => simp [settleDestination, eq_comm]
  | some d =>
    by_cases h : s.items.length < d
    · simp only [settleDestination, if_pos h, reduceCtorEq, Option.some.injEq, forall_eq', false_iff, not_and]
      omega
    · have hle : d ≤ s.items.length := by omega
      simp [settleDestination, h, hle, Option.filter, eq_comm]

/-- An insertion needs a new item, a mode that allows its destination, and a destination within the list. -/
theorem insert_eq_ok_iff {s s' : Section} {item : Item} {destination : Option Nat} {command : Command} :
    s.insert item destination = .ok (command, s') ↔
      (destination.isSome = true → s.mode.allowsPlacement = true) ∧ (∀ d, destination = some d → d ≤ s.items.length) ∧
        item ∉ s.items ∧ command = .add item (destination.filter (· < s.items.length - 1)) ∧
        s' = { s with items := placeItem s.items item (destination.filter (· < s.items.length - 1)) } := by
  have hsettle := @settleDestination_eq_ok_iff s (s.items.length - 1) destination
  rw [insert]
  by_cases hmode : (destination.isSome && !s.mode.allowsPlacement) = true
  · have hno : ¬(destination.isSome = true → s.mode.allowsPlacement = true) := by
      simp only [Bool.and_eq_true, Bool.not_eq_true'] at hmode
      simp [hmode]
    simp [hmode, hno, bind, Except.bind]
  · have hyes : destination.isSome = true → s.mode.allowsPlacement = true := by
      simpa using hmode
    cases hd : s.settleDestination (s.items.length - 1) destination with
    | error e =>
      have hrange : ¬∀ d, destination = some d → d ≤ s.items.length := fun h => by
        rw [hsettle.2 ⟨h, rfl⟩] at hd
        cases hd
      simp [hmode, hrange, bind, Except.bind]
    | ok before =>
      obtain ⟨hrange, rfl⟩ := hsettle.1 hd
      by_cases hmem : item ∈ s.items
      · simp [hmode, hmem, bind, Except.bind]
      · simp only [hmode, hmem, bind, Except.bind, pure, Except.pure, List.contains_iff_mem, if_false, Except.ok.injEq,
          Prod.mk.injEq, Bool.false_eq_true]
        constructor
        · rintro ⟨rfl, rfl⟩
          exact ⟨hyes, hrange, not_false, rfl, rfl⟩
        · rintro ⟨-, -, -, rfl, rfl⟩
          exact ⟨rfl, rfl⟩

/-- A deletion needs the item, and takes it from where it is. -/
theorem delete_eq_ok_iff {s s' : Section} (hn : s.items.Nodup) {item : Item} {command : Command} :
    s.delete item = .ok (command, s') ↔
      ∃ index, s.items[index]? = some item ∧ command = .remove index ∧
        s' = { s with items := s.items.eraseIdx index } := by
  rw [delete]
  cases h : s.requirePosition item with
  | error e =>
    simp only [bind, Except.bind, reduceCtorEq, false_iff, not_exists, not_and]
    intro index hindex
    rw [(requirePosition_eq_ok_iff hn).2 hindex] at h
    cases h
  | ok index =>
    have hindex := (requirePosition_eq_ok_iff hn).1 h
    simp only [bind, Except.bind, pure, Except.pure, Except.ok.injEq, Prod.mk.injEq]
    constructor
    · rintro ⟨rfl, rfl⟩
      exact ⟨index, hindex, rfl, rfl⟩
    · rintro ⟨other, hother, rfl, rfl⟩
      obtain rfl := Except.ok.inj (((requirePosition_eq_ok_iff hn).2 hother).symm.trans h)
      exact ⟨rfl, rfl⟩

/-- A move needs an ordered section, a destination within the list, and the item. -/
theorem move_eq_ok_iff {s s' : Section} (hn : s.items.Nodup) {item : Item} {destination : Option Nat}
    {command : Command} :
    s.move item destination = .ok (command, s') ↔
      s.mode.isOrdered = true ∧ (∀ d, destination = some d → d ≤ s.items.length) ∧
        ∃ index, s.items[index]? = some item ∧ command = .move index (destination.filter (· < s.items.length)) ∧
          s' = { s with
            items := placeItem (s.items.eraseIdx index) item
              ((destination.filter (· < s.items.length)).map (slotAfterRemoval index)) } := by
  have hsettle := @settleDestination_eq_ok_iff s s.items.length destination
  rw [move]
  by_cases hmode : s.mode.isOrdered = true
  · cases hd : s.settleDestination s.items.length destination with
    | error e =>
      have hrange : ¬∀ d, destination = some d → d ≤ s.items.length := fun h => by
        rw [hsettle.2 ⟨h, rfl⟩] at hd
        cases hd
      simp [hmode, hrange, bind, Except.bind]
    | ok before =>
      obtain ⟨hrange, rfl⟩ := hsettle.1 hd
      cases h : s.requirePosition item with
      | error e =>
        simp only [hmode, Bool.not_true, Bool.false_eq_true, if_false, bind, Except.bind, reduceCtorEq, false_iff,
          not_and, not_exists]
        intro _ _ index hindex
        rw [(requirePosition_eq_ok_iff hn).2 hindex] at h
        cases h
      | ok index =>
        have hindex := (requirePosition_eq_ok_iff hn).1 h
        simp only [hmode, Bool.not_true, Bool.false_eq_true, if_false, bind, Except.bind, pure, Except.pure,
          Except.ok.injEq, Prod.mk.injEq]
        constructor
        · rintro ⟨rfl, rfl⟩
          exact ⟨trivial, hrange, index, hindex, rfl, rfl⟩
        · rintro ⟨-, -, other, hother, rfl, rfl⟩
          obtain rfl := Except.ok.inj (((requirePosition_eq_ok_iff hn).2 hother).symm.trans h)
          exact ⟨rfl, rfl⟩
  · simp [hmode, bind, Except.bind]

/-- What stands in the list after an item is placed: the item, and what was there. -/
theorem mem_placeItem {items : List Item} {item a : Item} {before : Option Nat}
    (h : ∀ d, before = some d → d ≤ items.length) : a ∈ placeItem items item before ↔ a = item ∨ a ∈ items := by
  cases before with
  | none => simp [placeItem, or_comm]
  | some d => simp [placeItem, List.mem_insertIdx (h d rfl)]

/-- Placing an item is adding it, up to order. -/
theorem placeItem_perm {items : List Item} {item : Item} {before : Option Nat}
    (h : ∀ d, before = some d → d ≤ items.length) : (placeItem items item before).Perm (item :: items) := by
  cases before with
  | none => simp [placeItem]
  | some d => exact List.perm_insertIdx item items (h d rfl)

/-- An item that is placed elsewhere leaves the same items there, up to order. -/
theorem placeItem_eraseIdx_perm {items : List Item} {item : Item} {index : Nat} {before : Option Nat}
    (hitem : items[index]? = some item) (hbefore : ∀ d, before = some d → d < items.length) :
    (placeItem (items.eraseIdx index) item (before.map (slotAfterRemoval index))).Perm items := by
  obtain ⟨hlt, -⟩ := List.getElem?_eq_some_iff.1 hitem
  have hle : ∀ d, before.map (slotAfterRemoval index) = some d → d ≤ (items.eraseIdx index).length := by
    intro d hd
    obtain ⟨b, hb, rfl⟩ := Option.map_eq_some_iff.1 hd
    have := hbefore b hb
    rw [List.length_eraseIdx_of_lt hlt, slotAfterRemoval]
    split <;> omega
  exact (placeItem_perm hle).trans (cons_eraseIdx_perm hitem)

/-- Once an item is taken out, what another position named stands at its slot. -/
theorem getElem?_slotAfterRemoval (items : List Item) {index before : Nat} (hne : before ≠ index) :
    (items.eraseIdx index)[slotAfterRemoval index before]? = items[before]? := by
  rw [slotAfterRemoval, List.getElem?_eraseIdx]
  split
  · rw [if_neg (by omega), Nat.sub_add_cancel (by omega)]
  · rw [if_pos (by omega)]

/-! ## What edits leave alone -/

/-- One section differs from another in its items at most. -/
def SameButItems (s s' : Section) : Prop :=
  s' = { s with items := s'.items }

theorem SameButItems.trans {s m s' : Section} (h : s.SameButItems m) (h' : m.SameButItems s') : s.SameButItems s' := by
  rw [SameButItems, h', h]

theorem SameButItems.path {s s' : Section} (h : s.SameButItems s') : s'.path = s.path := by
  rw [h]

theorem sameButItems_of_insert {s s' : Section} {item : Item} {destination : Option Nat} {command : Command}
    (h : s.insert item destination = .ok (command, s')) : s.SameButItems s' := by
  obtain ⟨-, -, -, -, rfl⟩ := insert_eq_ok_iff.1 h
  rfl

theorem sameButItems_of_delete {s s' : Section} {item : Item} {command : Command}
    (h : s.delete item = .ok (command, s')) : s.SameButItems s' := by
  obtain ⟨index, -, hafter⟩ := bind_eq_ok_iff.1 h
  cases hafter
  rfl

theorem sameButItems_of_move {s s' : Section} {item : Item} {destination : Option Nat} {command : Command}
    (h : s.move item destination = .ok (command, s')) : s.SameButItems s' := by
  rw [move] at h
  split at h
  · cases h
  · obtain ⟨before, -, h⟩ := bind_eq_ok_iff.1 h
    obtain ⟨index, -, hafter⟩ := bind_eq_ok_iff.1 h
    cases hafter
    rfl

theorem path_insert {s s' : Section} {item : Item} {destination : Option Nat} {command : Command}
    (h : s.insert item destination = .ok (command, s')) : s'.path = s.path :=
  (sameButItems_of_insert h).path

theorem path_delete {s s' : Section} {item : Item} {command : Command} (h : s.delete item = .ok (command, s')) :
    s'.path = s.path :=
  (sameButItems_of_delete h).path

theorem path_move {s s' : Section} {item : Item} {destination : Option Nat} {command : Command}
    (h : s.move item destination = .ok (command, s')) : s'.path = s.path :=
  (sameButItems_of_move h).path

theorem path_set (s : Section) (target : Identifier) (values : Values) : (s.set target values).2.path = s.path := by
  rw [set]
  split <;> rfl

/-- A command about items that is carried out changes items at most. -/
theorem sameButItems_of_perform {s s' : Section} {command : Command} (hitems : ∀ target values, command ≠ .set target values)
    (h : s.perform command = .ok s') : s.SameButItems s' := by
  cases command with
  | add values before =>
    obtain ⟨_, hins, hafter⟩ := bind_eq_ok_iff.1 h
    cases hafter
    exact sameButItems_of_insert hins
  | remove index =>
    obtain ⟨_, -, h⟩ := bind_eq_ok_iff.1 h
    obtain ⟨_, hdel, hafter⟩ := bind_eq_ok_iff.1 h
    cases hafter
    exact sameButItems_of_delete hdel
  | move index before =>
    obtain ⟨_, -, h⟩ := bind_eq_ok_iff.1 h
    obtain ⟨_, hmove, hafter⟩ := bind_eq_ok_iff.1 h
    cases hafter
    exact sameButItems_of_move hmove
  | set target values => exact absurd rfl (hitems target values)

/-- A command that is carried out leaves the section where it is. -/
theorem path_perform {s s' : Section} {command : Command} (h : s.perform command = .ok s') : s'.path = s.path := by
  by_cases hset : ∃ target values, command = .set target values
  · obtain ⟨target, values, rfl⟩ := hset
    cases h
    exact path_set s target values
  · exact (sameButItems_of_perform (fun target values heq => hset ⟨target, values, heq⟩) h).path

theorem path_load {s s' : Section} {command : Command} (h : s.load command = .ok s') : s'.path = s.path := by
  obtain ⟨m, hperform, hm⟩ := bind_eq_ok_iff.1 h
  cases hm
  exact (path_perform hperform : m.path = s.path)

/-! ## Settings -/

/-- The value of a key in the setting of an identifier. -/
def value? (s : Section) (target : Identifier) (key : String) : Option String :=
  (s.settings.get? target).bind (·.get? key)

/-- The values of an identifier, none if it has no setting, look up like the setting. -/
theorem get?_getD_settings (s : Section) (target : Identifier) (key : String) :
    ((s.settings.get? target).getD ∅).get? key = s.value? target key := by
  rw [value?]
  cases s.settings.get? target <;> rfl

/-- A setting either is there already, or is put over what is there with the values that differ. -/
theorem set_cases (s : Section) (target : Identifier) (values : Values) :
    (s.set target values = (none, s) ∧ ∀ key value, values.get? key = some value → s.value? target key = some value) ∨
      ∃ changed : Values, changed.isEmpty = false ∧
        (∀ key, changed.get? key = (values.get? key).filter fun value => s.value? target key != some value) ∧
        s.set target values = (some (.set target changed), { s with
          settings := s.settings.insert target (((s.settings.get? target).getD ∅).insertMany changed.entries) }) := by
  obtain ⟨changed, hchanged⟩ : ∃ changed : Values, changed = values.filter fun entry =>
      ((s.settings.get? target).getD ∅).get? entry.1 != some entry.2 := ⟨_, rfl⟩
  have hset : s.set target values = if changed.isEmpty then (none, s) else (some (.set target changed), { s with
      settings := s.settings.insert target (((s.settings.get? target).getD ∅).insertMany changed.entries) }) := by
    rw [hchanged]
    rfl
  have hget : ∀ key, changed.get? key = (values.get? key).filter fun value => s.value? target key != some value := by
    intro key
    rw [hchanged, Assoc.get?_filter]
    simp only [get?_getD_settings]
  cases hempty : changed.isEmpty with
  | true =>
    refine .inl ⟨by rw [hset, if_pos hempty], fun key value hvalue => ?_⟩
    have hnone := Assoc.isEmpty_iff.1 hempty key
    rw [hget, hvalue, Option.filter_eq_none_iff] at hnone
    simpa using hnone value rfl
  | false => exact .inr ⟨changed, hempty, hget, by rw [hset, if_neg (by simp [hempty])]⟩

/-- A setting that is put over what is there: its values count before the others. -/
theorem value?_set (s : Section) (target id : Identifier) (values : Values) (key : String) :
    (s.set target values).2.value? id key =
      if id = target then (values.get? key).or (s.value? id key) else s.value? id key := by
  rcases s.set_cases target values with ⟨hset, hsame⟩ | ⟨changed, -, hget, hset⟩
  · rw [hset]
    by_cases hid : id = target
    · subst hid
      rw [if_pos rfl]
      cases hv : values.get? key with
      | none => rfl
      | some value => exact hsame key value hv
    · rw [if_neg hid]
  · rw [hset]
    simp only [value?, Assoc.get?_insert_eq]
    by_cases hid : id = target
    · subst hid
      simp only [if_true, Option.bind_some, Assoc.get?_insertMany, hget, get?_getD_settings]
      cases hv : values.get? key with
      | none => simp [value?]
      | some value =>
        by_cases hsame : s.value? id key = some value
        · simp [Option.filter, hsame]
        · simp [Option.filter, hsame]
    · simp [hid]

/-- Which identifiers have settings after one with values is put in. -/
theorem isSome_set (s : Section) (target id : Identifier) {values : Values} (hvalues : values.isEmpty = false) :
    ((s.set target values).2.settings.get? id).isSome = (decide (id = target) || (s.settings.get? id).isSome) := by
  rcases s.set_cases target values with ⟨hset, hsame⟩ | ⟨changed, -, -, hset⟩
  · rw [hset]
    by_cases hid : id = target
    · subst hid
      obtain ⟨key, value, hv⟩ := Assoc.isEmpty_eq_false_iff.1 hvalues
      have hat := hsame key value hv
      rw [value?] at hat
      cases hs : s.settings.get? id with
      | none => simp [hs] at hat
      | some _ => simp
    · simp [hid]
  · rw [hset]
    simp only [Assoc.get?_insert_eq]
    by_cases hid : id = target <;> simp [hid]

/-! ## Commands that edits return -/

/-- What a command that an edit returned does to a section, and what it takes for granted about it. -/
inductive Effect (s : Section) : Command → Section → Prop where
  | add {item : Item} {before : Option Nat} (hnew : item ∉ s.items)
      (hbefore : ∀ d, before = some d → s.mode.allowsPlacement = true ∧ d + 1 < s.items.length) :
      Effect s (.add item before) { s with items := placeItem s.items item before }
  | remove {index : Nat} {item : Item} (hitem : s.items[index]? = some item) :
      Effect s (.remove index) { s with items := s.items.eraseIdx index }
  | move {index : Nat} {item : Item} {before : Option Nat} (hmode : s.mode.isOrdered = true)
      (hitem : s.items[index]? = some item) (hbefore : ∀ d, before = some d → d < s.items.length) :
      Effect s (.move index before) { s with
        items := placeItem (s.items.eraseIdx index) item (before.map (slotAfterRemoval index)) }
  | set {target : Identifier} {changed : Values} (hne : changed.isEmpty = false)
      (hnew : ∀ key value, changed.get? key = some value → s.value? target key ≠ some value) :
      Effect s (.set target changed) { s with
        settings := s.settings.insert target (((s.settings.get? target).getD ∅).insertMany changed.entries) }

theorem effect_of_insert {s s' : Section} {item : Item} {destination : Option Nat} {command : Command}
    (h : s.insert item destination = .ok (command, s')) : s.Effect command s' := by
  obtain ⟨hmode, -, hnew, rfl, rfl⟩ := insert_eq_ok_iff.1 h
  refine .add hnew fun d hd => ?_
  obtain ⟨hdest, hlt⟩ := Option.filter_eq_some_iff.1 hd
  simp only [decide_eq_true_eq] at hlt
  exact ⟨hmode (by rw [hdest]; rfl), by omega⟩

theorem effect_of_delete {s s' : Section} (hn : s.items.Nodup) {item : Item} {command : Command}
    (h : s.delete item = .ok (command, s')) : s.Effect command s' := by
  obtain ⟨index, hindex, rfl, rfl⟩ := (delete_eq_ok_iff hn).1 h
  exact .remove hindex

theorem effect_of_move {s s' : Section} (hn : s.items.Nodup) {item : Item} {destination : Option Nat}
    {command : Command} (h : s.move item destination = .ok (command, s')) : s.Effect command s' := by
  obtain ⟨hmode, -, index, hindex, rfl, rfl⟩ := (move_eq_ok_iff hn).1 h
  refine .move hmode hindex fun d hd => ?_
  simpa using (Option.filter_eq_some_iff.1 hd).2

theorem effect_of_set {s s' : Section} {target : Identifier} {values : Values} {command : Command}
    (h : s.set target values = (some command, s')) : s.Effect command s' := by
  rcases s.set_cases target values with ⟨hset, -⟩ | ⟨changed, hne, hget, hset⟩
  · rw [hset] at h
    cases h
  · rw [hset] at h
    cases h
    refine .set hne fun key value hvalue => ?_
    rw [hget, Option.filter_eq_some_iff] at hvalue
    simpa using hvalue.2

/-! ## Repeating an edit from its command -/

/-- A position that has to be there is one where the item is. -/
theorem getElem?_of_requirePosition {s : Section} {item : Item} {index : Nat} (h : s.requirePosition item = .ok index) :
    s.items[index]? = some item := by
  rw [requirePosition] at h
  split at h
  · rename_i found hfound
    cases h
    obtain ⟨hlt, heq, -⟩ := List.findIdx?_eq_some_iff_getElem.1 hfound
    exact List.getElem?_eq_some_iff.2 ⟨hlt, by simpa using heq⟩
  · cases h

/-- A destination that has been settled is settled as it is. -/
theorem settleDestination_settled {s : Section} {tail : Nat} {destination before : Option Nat}
    (h : s.settleDestination tail destination = .ok before) : s.settleDestination tail before = .ok before := by
  obtain ⟨hrange, rfl⟩ := settleDestination_eq_ok_iff.1 h
  refine settleDestination_eq_ok_iff.2 ⟨fun d hd => hrange d (Option.filter_eq_some_iff.1 hd).1, ?_⟩
  exact (filter_eq_self_of_forall fun d hd => (Option.filter_eq_some_iff.1 hd).2).symm

/-- The command that an insertion returned inserts the item again. -/
theorem perform_of_insert {s s' : Section} {item : Item} {destination : Option Nat} {command : Command}
    (h : s.insert item destination = .ok (command, s')) : s.perform command = .ok s' := by
  obtain ⟨hmode, hrange, hnew, rfl, rfl⟩ := insert_eq_ok_iff.1 h
  obtain ⟨hrange', hsettled⟩ :=
    settleDestination_eq_ok_iff.1 (settleDestination_settled (settleDestination_eq_ok_iff.2 ⟨hrange, rfl⟩))
  have hins := insert_eq_ok_iff.2 ⟨fun hsome => hmode (Option.isSome_of_isSome_filter _ _ hsome), hrange', hnew, rfl, rfl⟩
  rw [← hsettled] at hins
  rw [perform, hins]
  rfl

/-- The command that a deletion returned deletes the item again. -/
theorem perform_of_delete {s s' : Section} {item : Item} {command : Command} (h : s.delete item = .ok (command, s')) :
    s.perform command = .ok s' := by
  have hdel := h
  obtain ⟨index, hindex, hafter⟩ := bind_eq_ok_iff.1 h
  cases hafter
  rw [perform, itemAt_eq_ok_iff.2 (getElem?_of_requirePosition hindex)]
  simp only [bind, Except.bind, hdel]
  rfl

/-- The command that a move returned moves the item again. -/
theorem perform_of_move {s s' : Section} {item : Item} {destination : Option Nat} {command : Command}
    (h : s.move item destination = .ok (command, s')) : s.perform command = .ok s' := by
  rw [move] at h
  split at h
  · cases h
  · rename_i hmode
    obtain ⟨before, hbefore, h⟩ := bind_eq_ok_iff.1 h
    obtain ⟨index, hindex, hafter⟩ := bind_eq_ok_iff.1 h
    cases hafter
    rw [perform, itemAt_eq_ok_iff.2 (getElem?_of_requirePosition hindex)]
    simp only [bind, Except.bind, move, if_neg hmode, settleDestination_settled hbefore, hindex]
    rfl

/-- Values of which each is new are put in as they are. -/
theorem set_changed {s : Section} {target : Identifier} {changed : Values} (hne : changed.isEmpty = false)
    (hnew : ∀ key value, changed.get? key = some value → s.value? target key ≠ some value) :
    s.set target changed = (some (.set target changed), { s with
      settings := s.settings.insert target (((s.settings.get? target).getD ∅).insertMany changed.entries) }) := by
  rcases s.set_cases target changed with ⟨-, hsame⟩ | ⟨changed', -, hget, hset⟩
  · obtain ⟨key, value, hvalue⟩ := Assoc.isEmpty_eq_false_iff.1 hne
    exact absurd (hsame key value hvalue) (hnew key value hvalue)
  · have heq : changed' = changed := Assoc.ext_get? fun key => by
      rw [hget]
      exact filter_eq_self_of_forall fun value hvalue => by simpa using hnew key value hvalue
    rw [hset, heq]

/-- The command that a setting returned sets the values again. -/
theorem perform_of_set {s s' : Section} {target : Identifier} {values : Values} {command : Command}
    (h : s.set target values = (some command, s')) : s.perform command = .ok s' := by
  rcases s.set_cases target values with ⟨hset, -⟩ | ⟨changed, -, -, hset⟩
  · rw [hset] at h
    cases h
  · rw [hset] at h
    cases h
    cases effect_of_set hset with
    | set hne hnew => rw [perform, set_changed hne hnew]

/-- The command that an edit returned has in the section of before the effect of the edit. -/
theorem Effect.perform {s s' : Section} (hn : s.items.Nodup) {command : Command} (h : s.Effect command s') :
    s.perform command = .ok s' := by
  cases h with
  | @add item before hnew hbefore =>
    have hkeep : before.filter (· < s.items.length - 1) = before := by
      refine filter_eq_self_of_forall fun d hd => ?_
      have := (hbefore d hd).2
      simp only [decide_eq_true_eq]
      omega
    have hins : s.insert item before = .ok (.add item before, { s with items := placeItem s.items item before }) := by
      refine insert_eq_ok_iff.2 ⟨fun hsome => ?_, fun d hd => ?_, hnew, by rw [hkeep], by rw [hkeep]⟩
      · obtain ⟨d, hd⟩ := Option.isSome_iff_exists.1 hsome
        exact (hbefore d hd).1
      · have := (hbefore d hd).2
        omega
    exact perform_of_insert hins
  | remove hitem => exact perform_of_delete ((delete_eq_ok_iff hn).2 ⟨_, hitem, rfl, rfl⟩)
  | @move index item before hmode hitem hbefore =>
    have hkeep : before.filter (· < s.items.length) = before := by
      refine filter_eq_self_of_forall fun d hd => ?_
      simpa using hbefore d hd
    have hmove : s.move item before = .ok (.move index before, { s with
        items := placeItem (s.items.eraseIdx index) item (before.map (slotAfterRemoval index)) }) := by
      refine (move_eq_ok_iff hn).2 ⟨hmode, fun d hd => Nat.le_of_lt (hbefore d hd), index, hitem, ?_⟩
      rw [hkeep]
      exact ⟨rfl, rfl⟩
    exact perform_of_move hmove
  | set hne hnew => rw [Section.perform, set_changed hne hnew]

/-- A command that a section carries out either changes nothing or has the effect of a command that an edit returns. -/
theorem effect_of_perform {s s' : Section} (hn : s.items.Nodup) {command : Command} (h : s.perform command = .ok s') :
    s' = s ∨ ∃ returned, s.Effect returned s' := by
  cases command with
  | add values before =>
    obtain ⟨⟨returned, _⟩, hins, hafter⟩ := bind_eq_ok_iff.1 h
    cases hafter
    exact .inr ⟨returned, effect_of_insert hins⟩
  | remove index =>
    obtain ⟨item, -, h⟩ := bind_eq_ok_iff.1 h
    obtain ⟨⟨returned, _⟩, hdel, hafter⟩ := bind_eq_ok_iff.1 h
    cases hafter
    exact .inr ⟨returned, effect_of_delete hn hdel⟩
  | move index before =>
    obtain ⟨item, -, h⟩ := bind_eq_ok_iff.1 h
    obtain ⟨⟨returned, _⟩, hmove, hafter⟩ := bind_eq_ok_iff.1 h
    cases hafter
    exact .inr ⟨returned, effect_of_move hn hmove⟩
  | set target values =>
    simp only [perform, Except.ok.injEq] at h
    cases hset : s.set target values with
    | mk returned after =>
      rw [hset] at h
      obtain rfl := h
      cases returned with
      | none =>
        rcases s.set_cases target values with ⟨hsame, -⟩ | ⟨changed, -, -, hchanged⟩
        · rw [hset] at hsame
          exact .inl (congrArg Prod.snd hsame)
        · rw [hset] at hchanged
          cases hchanged
      | some returned => exact .inr ⟨returned, effect_of_set hset⟩

/-- An edit changes items and settings and nothing else. -/
theorem Effect.frame {s s' : Section} {command : Command} (h : s.Effect command s') :
    s'.path = s.path ∧ s'.mode = s.mode ∧ s'.log = s.log := by
  cases h <;> exact ⟨rfl, rfl, rfl⟩

/-- An edit puts nothing into a section that is there already. -/
theorem Effect.nodup {s s' : Section} {command : Command} (hn : s.items.Nodup) (h : s.Effect command s') :
    s'.items.Nodup := by
  cases h with
  | @add item before hnew hbefore =>
    have hle : ∀ d, before = some d → d ≤ s.items.length := fun d hd => by
      have := (hbefore d hd).2
      omega
    exact (placeItem_perm hle).nodup_iff.2 (List.nodup_cons.2 ⟨hnew, hn⟩)
  | remove _ => exact hn.sublist (List.eraseIdx_sublist ..)
  | move _ hitem hbefore => exact (placeItem_eraseIdx_perm hitem hbefore).nodup_iff.2 hn
  | set _ _ => exact hn

/-- The effects of a list of commands, one after the other, each of which satisfies `φ` where it is carried out. -/
inductive Effects (φ : Section → Command → Prop) : Section → List Command → Section → Prop where
  | refl (s : Section) : Effects φ s [] s
  | step {s m s' : Section} {command : Command} {commands : List Command} (hφ : φ s command) (h : s.Effect command m)
      (hrest : Effects φ m commands s') : Effects φ s (command :: commands) s'

theorem Effects.trans {φ : Section → Command → Prop} {s m s' : Section} {commands more : List Command}
    (h : Effects φ s commands m) (h' : Effects φ m more s') : Effects φ s (commands ++ more) s' := by
  induction h with
  | refl => exact h'
  | step hφ he _ ih => exact .step hφ he (ih h')

theorem Effects.mono {φ ψ : Section → Command → Prop} (hφψ : ∀ s command, φ s command → ψ s command) {s s' : Section}
    {commands : List Command} (h : Effects φ s commands s') : Effects ψ s commands s' := by
  induction h with
  | refl => exact .refl _
  | step hφ he _ ih => exact .step (hφψ _ _ hφ) he ih

/-- No edits change nothing. -/
theorem Effects.eq_of_nil {φ : Section → Command → Prop} {s s' : Section} (h : Effects φ s [] s') : s' = s := by
  cases h
  rfl

/-- A list of edits can be stopped between any two commands. -/
theorem Effects.split {φ : Section → Command → Prop} {s s' : Section} {commands more : List Command}
    (h : Effects φ s (commands ++ more) s') : ∃ m, Effects φ s commands m ∧ Effects φ m more s' := by
  induction commands generalizing s with
  | nil => exact ⟨s, .refl s, h⟩
  | cons command commands ih =>
    cases h with
    | step hφ he hrest =>
      obtain ⟨m, hm, hmore⟩ := ih hrest
      exact ⟨m, .step hφ he hm, hmore⟩

/-- What follows from `φ` wherever it holds is true of every command. -/
theorem Effects.forall_mem {φ : Section → Command → Prop} {P : Command → Prop} (hP : ∀ s command, φ s command → P command)
    {s s' : Section} {commands : List Command} (h : Effects φ s commands s') : ∀ command ∈ commands, P command := by
  induction h with
  | refl => exact List.forall_mem_nil _
  | step hφ _ _ ih => exact List.forall_mem_cons.2 ⟨hP _ _ hφ, ih⟩

/-- A list of edits changes items and settings and nothing else. -/
theorem Effects.frame {φ : Section → Command → Prop} {s s' : Section} {commands : List Command}
    (h : Effects φ s commands s') : s'.path = s.path ∧ s'.mode = s.mode ∧ s'.log = s.log := by
  induction h with
  | refl => exact ⟨rfl, rfl, rfl⟩
  | step _ he _ ih =>
    obtain ⟨hpath, hmode, hlog⟩ := he.frame
    exact ⟨ih.1.trans hpath, ih.2.1.trans hmode, ih.2.2.trans hlog⟩

theorem Effects.nodup {φ : Section → Command → Prop} {s s' : Section} {commands : List Command} (hn : s.items.Nodup)
    (h : Effects φ s commands s') : s'.items.Nodup := by
  induction h with
  | refl => exact hn
  | step _ he _ ih => exact ih (he.nodup hn)

/-- The log takes no part in an edit. -/
theorem Effect.withLog {s s' : Section} {command : Command} (h : s.Effect command s') (log : List Command) :
    Effect { s with log } command { s' with log } := by
  cases h with
  | add hnew hbefore => exact .add hnew hbefore
  | remove hitem => exact .remove hitem
  | move hmode hitem hbefore => exact .move hmode hitem hbefore
  | set hne hnew => exact .set hne hnew

/-- Loading the commands that edits returned repeats the edits, and records the commands. -/
theorem Effects.replay {φ : Section → Command → Prop} {s s' : Section} {commands : List Command} (hn : s.items.Nodup)
    (h : Effects φ s commands s') (log : List Command) :
    commands.foldlM load { s with log } = .ok { s' with log := log ++ commands } := by
  induction h generalizing log with
  | refl => simp [pure, Except.pure]
  | @step s m s' command commands _ he _ ih =>
    have hload : load { s with log } command = .ok { m with log := log ++ [command] } := by
      rw [load, Effect.perform (s := { s with log }) hn (he.withLog log)]
      rfl
    rw [List.foldlM_cons, hload]
    have hrest := ih (he.nodup hn) (log ++ [command])
    rw [List.append_assoc] at hrest
    exact hrest

/-! ## Well-formed sections -/

/-- What holds of every section of a configuration: it holds nothing twice, settings have values, and the mode is that of its
path. -/
structure WellFormed (order : OrderTable) (s : Section) : Prop where
  nodup : s.items.Nodup
  settled : ∀ target values, s.settings.get? target = some values → values.isEmpty = false
  mode : s.mode = order.modeFor s.path

/-- An edit keeps a section well-formed. -/
theorem Effect.wellFormed {order : OrderTable} {s s' : Section} (hs : s.WellFormed order) {command : Command}
    (h : s.Effect command s') : s'.WellFormed order := by
  refine ⟨h.nodup hs.nodup, ?_, by rw [h.frame.2.1, h.frame.1, hs.mode]⟩
  cases h with
  | add _ _ => exact hs.settled
  | remove _ => exact hs.settled
  | move _ _ _ => exact hs.settled
  | @set target changed hne hnew =>
    intro id values hvalues
    simp only [Assoc.get?_insert_eq] at hvalues
    by_cases hid : id = target
    · rw [if_pos hid, Option.some.injEq] at hvalues
      obtain ⟨key, value, hvalue⟩ := Assoc.isEmpty_eq_false_iff.1 hne
      exact Assoc.isEmpty_eq_false_iff.2 ⟨key, value, by rw [← hvalues, Assoc.get?_insertMany, hvalue]; rfl⟩
    · rw [if_neg hid] at hvalues
      exact hs.settled id values hvalues

theorem Effects.wellFormed {order : OrderTable} {φ : Section → Command → Prop} {s s' : Section}
    (hs : s.WellFormed order) {commands : List Command} (h : Effects φ s commands s') : s'.WellFormed order := by
  induction h with
  | refl => exact hs
  | step _ he _ ih => exact ih (he.wellFormed hs)

/-- A setting that is put in keeps a section well-formed. -/
theorem WellFormed.set {order : OrderTable} {s : Section} (hs : s.WellFormed order) (target : Identifier)
    (values : Values) : (s.set target values).2.WellFormed order := by
  cases h : s.set target values with
  | mk command s' =>
    cases command with
    | none =>
      rcases s.set_cases target values with ⟨hset, -⟩ | ⟨changed, -, -, hset⟩
      · rw [h] at hset
        cases hset
        exact hs
      · rw [h] at hset
        cases hset
    | some command => exact (effect_of_set h).wellFormed hs

/-- A command that is carried out changes items or settings, and is recorded. -/
theorem frame_load {s s' : Section} (hn : s.items.Nodup) {command : Command} (h : s.load command = .ok s') :
    s'.path = s.path ∧ s'.mode = s.mode ∧ s'.log = s.log ++ [command] := by
  obtain ⟨m, hperform, hm⟩ := bind_eq_ok_iff.1 h
  cases hm
  have hframe : m.path = s.path ∧ m.mode = s.mode ∧ m.log = s.log := by
    rcases effect_of_perform hn hperform with rfl | ⟨returned, heff⟩
    · exact ⟨rfl, rfl, rfl⟩
    · exact heff.frame
  exact ⟨hframe.1, hframe.2.1, congrArg (· ++ [command]) hframe.2.2⟩

/-- A command that is carried out keeps a section well-formed. -/
theorem wellFormed_of_load {order : OrderTable} {s s' : Section} (hs : s.WellFormed order) {command : Command}
    (h : s.load command = .ok s') : s'.WellFormed order := by
  obtain ⟨m, hperform, hm⟩ := bind_eq_ok_iff.1 h
  cases hm
  have hm : m.WellFormed order := by
    rcases effect_of_perform hs.nodup hperform with rfl | ⟨returned, heff⟩
    · exact hs
    · exact heff.wellFormed hs
  exact ⟨hm.nodup, hm.settled, hm.mode⟩

end RouterPlan.Section
