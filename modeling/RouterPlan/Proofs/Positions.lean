import RouterPlan.Proofs.Reachable

/-!
# Where items go

A destination counts in the list as it stands, and so it counts the item that is about to be moved. Main statement: from either
side an item goes right before the one that its destination names, or to the end, and the others keep their order; what is refused
are positions outside the list, and nothing else (`placement_exact`). The command that an edit returns names its destination as it
was settled, and what was settled is settled as it is, so loading the command repeats the edit (`Returns.load`).
-/

namespace RouterPlan

/-- The items are the others with one more, right before the item `next?`, or last if there is none. -/
def PutBefore (next? : Option Item) (item : Item) (others items : List Item) : Prop :=
  ∃ front back, others = front ++ back ∧ items = front ++ item :: back ∧ back.head? = next?

namespace Section

/-! ## Placing an item in a list -/

section Lists

variable {items others : List Item} {item : Item} {index destination : Nat}

/-- An item that is put at the end is the last one. -/
theorem putBefore_end (others : List Item) (item : Item) : PutBefore none item others (others ++ [item]) :=
  ⟨others, [], (List.append_nil _).symm, rfl, rfl⟩

/-- An item that is placed goes right before the one that its position names. -/
theorem putBefore_placeItem (item : Item) {before : Option Nat} (h : ∀ d, before = some d → d ≤ others.length) :
    PutBefore (before.bind (others[·]?)) item others (placeItem others item before) := by
  cases before with
  | none => exact putBefore_end others item
  | some d =>
    have hle := h d rfl
    have hinsert := insertIdx_length_append (others.take d) (others.drop d) item
    rw [List.length_take_of_le hle, List.take_append_drop] at hinsert
    exact ⟨others.take d, others.drop d, (List.take_append_drop d others).symm, hinsert, List.head?_drop⟩

/-- An item that is taken out and put in again goes right before the one that was at the destination, on whichever side of it it
was. -/
theorem putBefore_moved (hitem : items[index]? = some item) (hne : destination ≠ index) :
    PutBefore items[destination]? item (items.eraseIdx index)
      (placeItem (items.eraseIdx index) item (((some destination).filter (· < items.length)).map (slotAfterRemoval index))) := by
  obtain ⟨hlt, -⟩ := List.getElem?_eq_some_iff.1 hitem
  by_cases hinside : destination < items.length
  · have hslot : ∀ d, some (slotAfterRemoval index destination) = some d → d ≤ (items.eraseIdx index).length := by
      rintro d hd
      cases hd
      rw [List.length_eraseIdx_of_lt hlt, slotAfterRemoval]
      split <;> omega
    have hput := putBefore_placeItem item hslot
    rw [Option.bind_some, getElem?_slotAfterRemoval items hne] at hput
    simpa [Option.filter, hinside] using hput
  · have hend : items[destination]? = none := List.getElem?_eq_none (Nat.le_of_not_lt hinside)
    rw [hend]
    simpa [Option.filter, hinside, placeItem] using putBefore_end (items.eraseIdx index) item

/-- An item that is put before itself, or before the next one, stays where it is. -/
theorem placeItem_moved_self (hitem : items[index]? = some item) (hsame : destination = index ∨ destination = index + 1) :
    placeItem (items.eraseIdx index) item (((some destination).filter (· < items.length)).map (slotAfterRemoval index)) =
      items := by
  obtain ⟨hlt, -⟩ := List.getElem?_eq_some_iff.1 hitem
  by_cases hinside : destination < items.length
  · have hslot : slotAfterRemoval index destination = index := by
      rw [slotAfterRemoval]
      split <;> omega
    simpa [Option.filter, hinside, placeItem, hslot] using insertIdx_eraseIdx hitem
  · have hlast : items.drop (index + 1) = [] := List.drop_eq_nil_of_le (by omega)
    have hparts := eq_take_append_cons_drop hitem
    rw [hlast] at hparts
    simp only [Option.filter, hinside, decide_false, Option.map_none, placeItem, List.eraseIdx_eq_take_drop_succ, hlast,
      List.append_nil, Bool.false_eq_true, if_false]
    exact hparts.symm

end Lists

/-! ## Loading moves and insertions -/

variable {s s' : Section} {command : Command} {item : Item} {index : Nat} {destination : Option Nat}

/-- A move is loaded where order counts, if both positions are in the list. -/
theorem load_move_eq_ok_iff (hn : s.items.Nodup) :
    s.load (.move index destination) = .ok s' ↔
      s.mode.isOrdered = true ∧ (∀ d, destination = some d → d ≤ s.items.length) ∧
        ∃ item, s.items[index]? = some item ∧ s' = { s with
          items := placeItem (s.items.eraseIdx index) item
            ((destination.filter (· < s.items.length)).map (slotAfterRemoval index))
          log := s.log ++ [.move index destination] } := by
  constructor
  · intro h
    obtain ⟨m, hperform, hafter⟩ := bind_eq_ok_iff.1 h
    cases hafter
    obtain ⟨item, hitem, h⟩ := bind_eq_ok_iff.1 hperform
    obtain ⟨⟨returned, m'⟩, hmove, hafter⟩ := bind_eq_ok_iff.1 h
    cases hafter
    obtain ⟨hmode, hrange, index', hindex', -, rfl⟩ := (move_eq_ok_iff hn).1 hmove
    have hitem := itemAt_eq_ok_iff.1 hitem
    have hlt := (List.getElem?_eq_some_iff.1 hindex').1
    obtain rfl : index' = index := (List.getElem?_inj hlt hn).1 (hindex'.trans hitem.symm)
    exact ⟨hmode, hrange, item, hitem, rfl⟩
  · rintro ⟨hmode, hrange, item, hitem, rfl⟩
    have hmove := (move_eq_ok_iff hn).2 ⟨hmode, hrange, index, hitem, rfl, rfl⟩
    rw [load, perform, itemAt_eq_ok_iff.2 hitem]
    simp only [bind, Except.bind, hmove]
    rfl

/-- An insertion is loaded if the item is new and its destination is in the list, where items may be placed. -/
theorem load_add_eq_ok_iff :
    s.load (.add item destination) = .ok s' ↔
      (destination.isSome = true → s.mode.allowsPlacement = true) ∧ (∀ d, destination = some d → d ≤ s.items.length) ∧
        item ∉ s.items ∧ s' = { s with
          items := placeItem s.items item (destination.filter (· < s.items.length - 1))
          log := s.log ++ [.add item destination] } := by
  constructor
  · intro h
    obtain ⟨m, hperform, hafter⟩ := bind_eq_ok_iff.1 h
    cases hafter
    obtain ⟨⟨returned, m'⟩, hins, hafter⟩ := bind_eq_ok_iff.1 hperform
    cases hafter
    obtain ⟨hmode, hrange, hnew, -, rfl⟩ := insert_eq_ok_iff.1 hins
    exact ⟨hmode, hrange, hnew, rfl⟩
  · rintro ⟨hmode, hrange, hnew, rfl⟩
    have hins := insert_eq_ok_iff.2 ⟨hmode, hrange, hnew, rfl, rfl⟩
    rw [load, perform]
    simp only [bind, Except.bind, hins]
    rfl

/-- What an edit of a section returns: a command, and the section after it. -/
inductive Returns (s : Section) : Command → Section → Prop where
  | insert {item : Item} {destination : Option Nat} {command : Command} {s' : Section}
      (h : s.insert item destination = .ok (command, s')) : Returns s command s'
  | delete {item : Item} {command : Command} {s' : Section} (h : s.delete item = .ok (command, s')) : Returns s command s'
  | move {item : Item} {destination : Option Nat} {command : Command} {s' : Section}
      (h : s.move item destination = .ok (command, s')) : Returns s command s'
  | set {target : Identifier} {values : Values} {command : Command} {s' : Section}
      (h : s.set target values = (some command, s')) : Returns s command s'

/-- Loading the command that an edit returned repeats the edit, and records the command. -/
theorem Returns.load (h : s.Returns command s') : s.load command = .ok { s' with log := s'.log ++ [command] } := by
  have hperform : s.perform command = .ok s' := by
    cases h with
    | insert h => exact perform_of_insert h
    | delete h => exact perform_of_delete h
    | move h => exact perform_of_move h
    | set h => exact perform_of_set h
  rw [Section.load, hperform]
  rfl

/-- What positions mean in commands, for every section, where `n` is how many items it has.
* Where order counts and no item is there twice, a move before a destination is accepted exactly if the item's position is below
  `n` and the destination at most `n`. The others keep their order, and the item goes right before the one that was at the
  destination, or to the end if that is `n`; before itself and before the next one it stays where it is. A move without a
  destination goes to the end.
* In an ordered section, a new item is accepted at a destination exactly if that is at most `n`. The others keep their order, and
  the new one goes right before the one that was at the destination, or to the end if that was the last one or none.
* Loading the command that an edit returned gives what the edit gave. -/
theorem placement_exact (s : Section) :
    (s.mode = .ordered ∨ s.mode = .orderedAppend → s.items.Nodup → ∀ index,
      (∀ destination,
        ((∃ s', s.load (.move index (some destination)) = .ok s') ↔
          index < s.items.length ∧ destination ≤ s.items.length) ∧
        ∀ s', s.load (.move index (some destination)) = .ok s' → ∃ item, s.items[index]? = some item ∧
          (destination ≠ index → PutBefore s.items[destination]? item (s.items.eraseIdx index) s'.items) ∧
          (destination = index ∨ destination = index + 1 → s'.items = s.items)) ∧
      (index < s.items.length → ∃ s' item, s.load (.move index none) = .ok s' ∧ s.items[index]? = some item ∧
        PutBefore none item (s.items.eraseIdx index) s'.items)) ∧
    (s.mode = .ordered → ∀ item ∉ s.items, ∀ destination,
      ((∃ s', s.load (.add item (some destination)) = .ok s') ↔ destination ≤ s.items.length) ∧
      ∀ s', s.load (.add item (some destination)) = .ok s' →
        PutBefore (if destination + 1 < s.items.length then s.items[destination]? else none) item s.items s'.items) ∧
    ∀ command s', s.Returns command s' → s.load command = .ok { s' with log := s'.log ++ [command] } := by
  refine ⟨fun hmode hn index => ⟨fun destination => ⟨⟨?_, ?_⟩, fun s' h => ?_⟩, fun hlt => ?_⟩,
    fun hmode item hnew destination => ⟨⟨?_, fun hle => ?_⟩, fun s' h => ?_⟩, fun command s' h => h.load⟩
  · rintro ⟨s', h⟩
    obtain ⟨-, hrange, item, hitem, -⟩ := (load_move_eq_ok_iff hn).1 h
    exact ⟨(List.getElem?_eq_some_iff.1 hitem).1, hrange destination rfl⟩
  · rintro ⟨hlt, hle⟩
    have hordered : s.mode.isOrdered = true := by rcases hmode with hmode | hmode <;> rw [hmode] <;> rfl
    refine ⟨_, (load_move_eq_ok_iff hn).2 ⟨hordered, ?_, _, List.getElem?_eq_getElem hlt, rfl⟩⟩
    rintro d hd
    cases hd
    exact hle
  · obtain ⟨-, -, item, hitem, rfl⟩ := (load_move_eq_ok_iff hn).1 h
    exact ⟨item, hitem, putBefore_moved hitem, placeItem_moved_self hitem⟩
  · have hordered : s.mode.isOrdered = true := by rcases hmode with hmode | hmode <;> rw [hmode] <;> rfl
    have hitem := List.getElem?_eq_getElem hlt
    exact ⟨_, _, (load_move_eq_ok_iff hn).2 ⟨hordered, fun d hd => (nomatch hd), _, hitem, rfl⟩, hitem, putBefore_end _ _⟩
  · rintro ⟨s', h⟩
    exact (load_add_eq_ok_iff.1 h).2.1 destination rfl
  · refine ⟨_, load_add_eq_ok_iff.2 ⟨fun _ => by rw [hmode]; rfl, ?_, hnew, rfl⟩⟩
    rintro d hd
    cases hd
    exact hle
  · obtain ⟨-, hrange, -, rfl⟩ := load_add_eq_ok_iff.1 h
    have hle : ∀ d, (some destination).filter (· < s.items.length - 1) = some d → d ≤ s.items.length :=
      fun d hd => hrange d (Option.filter_eq_some_iff.1 hd).1
    have hput := putBefore_placeItem item hle
    have hnext : ((some destination).filter (· < s.items.length - 1)).bind (s.items[·]?) =
        if destination + 1 < s.items.length then s.items[destination]? else none := by
      by_cases hlt : destination + 1 < s.items.length
      · simp [Option.filter, hlt, Nat.lt_sub_of_add_lt hlt]
      · simp [Option.filter, hlt, show ¬destination < s.items.length - 1 by omega]
    rwa [hnext] at hput

/-- Four rules in a list where order counts. -/
def fourRules : Section :=
  { path := Configuration.filterPath, mode := .ordered, items := ["a", "b", "c", "d"].map Configuration.rule }

open RouterPlan.Configuration in
/-- The first rule is moved before the third; one before the last but one is put there, one before the last goes to the end; and a
deletion is repeated from its command. -/
theorem placement_exact_fourRules :
    fourRules.mode = .ordered ∧ fourRules.items.Nodup ∧ rule "x" ∉ fourRules.items ∧
      (∃ s', fourRules.load (.move 0 (some 2)) = .ok s' ∧
        PutBefore (some (rule "c")) (rule "a") [rule "b", rule "c", rule "d"] s'.items) ∧
      (∃ s', fourRules.load (.move 3 (some 4)) = .ok s' ∧ s'.items = fourRules.items) ∧
      (∃ s', fourRules.load (.move 0 none) = .ok s' ∧ PutBefore none (rule "a") [rule "b", rule "c", rule "d"] s'.items) ∧
      (∃ s', fourRules.load (.add (rule "x") (some 2)) = .ok s' ∧
        PutBefore (some (rule "c")) (rule "x") fourRules.items s'.items) ∧
      (∃ s', fourRules.load (.add (rule "x") (some 3)) = .ok s' ∧ PutBefore none (rule "x") fourRules.items s'.items) ∧
      ∃ s', fourRules.delete (rule "b") = .ok (.remove 1, s') ∧
        fourRules.load (.remove 1) = .ok { s' with log := s'.log ++ [.remove 1] } := by
  have hn : fourRules.items.Nodup := by decide +kernel
  have hnew : rule "x" ∉ fourRules.items := by decide +kernel
  obtain ⟨hmoves, hadds, hreturns⟩ := placement_exact fourRules
  refine ⟨rfl, hn, hnew, ?_, ?_, ?_, ?_, ?_, ?_⟩
  · obtain ⟨hiff, hmoved⟩ := (hmoves (.inl rfl) hn 0).1 2
    obtain ⟨s', hs'⟩ := hiff.2 (by decide)
    obtain ⟨item, hitem, hput, -⟩ := hmoved s' hs'
    cases hitem
    exact ⟨s', hs', hput (by decide)⟩
  · obtain ⟨hiff, hmoved⟩ := (hmoves (.inl rfl) hn 3).1 4
    obtain ⟨s', hs'⟩ := hiff.2 (by decide)
    obtain ⟨-, -, -, hsame⟩ := hmoved s' hs'
    exact ⟨s', hs', hsame (.inr rfl)⟩
  · obtain ⟨s', item, hs', hitem, hput⟩ := (hmoves (.inl rfl) hn 0).2 (by decide)
    cases hitem
    exact ⟨s', hs', hput⟩
  · obtain ⟨hiff, hput⟩ := hadds rfl (rule "x") hnew 2
    obtain ⟨s', hs'⟩ := hiff.2 (by decide)
    exact ⟨s', hs', hput s' hs'⟩
  · obtain ⟨hiff, hput⟩ := hadds rfl (rule "x") hnew 3
    obtain ⟨s', hs'⟩ := hiff.2 (by decide)
    exact ⟨s', hs', hput s' hs'⟩
  · have hdelete := (delete_eq_ok_iff hn).2 ⟨1, rfl, rfl, rfl⟩
    exact ⟨_, hdelete, hreturns _ _ (.delete hdelete)⟩

end Section

end RouterPlan
