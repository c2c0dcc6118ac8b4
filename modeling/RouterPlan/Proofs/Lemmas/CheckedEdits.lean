import RouterPlan.Checked.Editing
import RouterPlan.Proofs.Lemmas.CheckedSteps
import RouterPlan.Proofs.Lemmas.Configurations
import RouterPlan.Proofs.Lemmas.MergeSection

/-!
# Positions that edits use

Edits use positions that their lists have, so they give what they give without the checks. An accepted destination is not past the
list, and the position after it fits a word where the length does; an item that is looked up stands in the list; once it is taken out,
the slot of a destination is within what is left. A scan that moves items only reads positions of a list that stays as long as the
target (`agrees_reorder`). Room is needed for the items that a section has and gets: a command puts in at most one (`length_of_perform`),
and a merge at most as many as the target has (`agrees_mergeWith`).
-/

namespace RouterPlan

namespace Section

variable {s s' : Section} {item : Item} {destination : Option Nat} {command : Command}

/-! ## Lengths after an edit -/

theorem length_placeItem {items : List Item} {before : Option Nat} (h : ∀ d, before = some d → d ≤ items.length) :
    (placeItem items item before).length = items.length + 1 :=
  (placeItem_perm h).length_eq

theorem length_of_insert (h : s.insert item destination = .ok (command, s')) : s'.items.length = s.items.length + 1 := by
  obtain ⟨-, hrange, -, -, rfl⟩ := insert_eq_ok_iff.1 h
  exact length_placeItem fun d hd => hrange d (Option.filter_eq_some_iff.1 hd).1

theorem length_of_delete (h : s.delete item = .ok (command, s')) : s'.items.length ≤ s.items.length := by
  obtain ⟨index, -, hafter⟩ := bind_eq_ok_iff.1 h
  cases hafter
  exact List.length_eraseIdx_le _ _

theorem length_of_move (h : s.move item destination = .ok (command, s')) : s'.items.length = s.items.length := by
  rw [move] at h
  split at h
  · cases h
  · obtain ⟨before, hbefore, h⟩ := bind_eq_ok_iff.1 h
    obtain ⟨index, hindex, hafter⟩ := bind_eq_ok_iff.1 h
    cases hafter
    obtain ⟨-, rfl⟩ := settleDestination_eq_ok_iff.1 hbefore
    refine (placeItem_eraseIdx_perm (getElem?_of_requirePosition hindex) fun d hd => ?_).length_eq
    exact of_decide_eq_true (Option.filter_eq_some_iff.1 hd).2

theorem length_of_perform (h : s.perform command = .ok s') : s'.items.length ≤ s.items.length + 1 := by
  cases command with
  | add values before =>
    obtain ⟨⟨command, s₁⟩, hinsert, hafter⟩ := bind_eq_ok_iff.1 h
    cases hafter
    exact Nat.le_of_eq (length_of_insert hinsert)
  | remove index =>
    obtain ⟨item, -, h⟩ := bind_eq_ok_iff.1 h
    obtain ⟨⟨command, s₁⟩, hdelete, hafter⟩ := bind_eq_ok_iff.1 h
    cases hafter
    exact Nat.le_succ_of_le (length_of_delete hdelete)
  | move index before =>
    obtain ⟨item, -, h⟩ := bind_eq_ok_iff.1 h
    obtain ⟨⟨command, s₁⟩, hmove, hafter⟩ := bind_eq_ok_iff.1 h
    cases hafter
    exact Nat.le_succ_of_le (Nat.le_of_eq (length_of_move hmove))
  | set target values =>
    cases h
    rw [items_set]
    exact Nat.le_succ _

theorem length_of_load (h : s.load command = .ok s') : s'.items.length ≤ s.items.length + 1 := by
  obtain ⟨s₁, hperform, hafter⟩ := bind_eq_ok_iff.1 h
  cases hafter
  have hle := length_of_perform hperform
  exact hle

/-! ## Lengths after a merge -/

theorem length_of_deleteAll {items : List Item} {commands : List Command} (h : deleteAll items s = .ok (commands, s')) :
    s'.items.length ≤ s.items.length := by
  induction items generalizing s commands with
  | nil =>
    cases h
    exact Nat.le_refl _
  | cons item items ih =>
    obtain ⟨⟨command, s₁⟩, hdelete, h⟩ := bind_eq_ok_iff.1 h
    obtain ⟨⟨more, s₂⟩, hmore, hafter⟩ := bind_eq_ok_iff.1 h
    cases hafter
    exact (ih hmore).trans (length_of_delete hdelete)

theorem length_of_insertMissing {position : Nat} {items : List Item} {commands : List Command}
    (h : insertMissing position items s = .ok (commands, s')) : s'.items.length ≤ s.items.length + items.length := by
  induction items generalizing position s commands with
  | nil =>
    cases h
    exact Nat.le_refl _
  | cons item items ih =>
    rw [insertMissing] at h
    rw [List.length_cons]
    split at h
    · exact (ih h).trans (by omega)
    · obtain ⟨⟨command, s₁⟩, hinsert, h⟩ := bind_eq_ok_iff.1 h
      obtain ⟨⟨more, s₂⟩, hmore, hafter⟩ := bind_eq_ok_iff.1 h
      cases hafter
      have hlength := length_of_insert hinsert
      exact (ih hmore).trans (by omega)

theorem length_of_reorder {position : Nat} {items : List Item} {commands : List Command}
    (h : reorder position items s = .ok (commands, s')) : s'.items.length = s.items.length := by
  induction items generalizing position s commands with
  | nil =>
    cases h
    rfl
  | cons item items ih =>
    rw [reorder] at h
    split at h
    · exact ih h
    · obtain ⟨⟨command, s₁⟩, hmove, h⟩ := bind_eq_ok_iff.1 h
      obtain ⟨⟨more, s₂⟩, hmore, hafter⟩ := bind_eq_ok_iff.1 h
      cases hafter
      exact (ih hmore).trans (length_of_move hmove)

theorem length_of_reorderAll {items : List Item} {commands : List Command} (h : s.reorderAll items = .ok (commands, s')) :
    s'.items.length = s.items.length := by
  rw [reorderAll] at h
  split at h
  · exact length_of_reorder h
  · cases h

theorem length_of_mergeWith {target : Section} {commands : List Command} (h : s.mergeWith target = .ok (commands, s')) :
    s'.items.length ≤ s.items.length + target.items.length := by
  rw [mergeWith] at h
  have hitems := items_putSettings target.settings.entries s
  rcases hput : putSettings target.settings.entries s with ⟨set, s₁⟩
  rw [hput] at h hitems
  have hlength : s₁.items.length = s.items.length := congrArg List.length hitems
  obtain ⟨⟨removed, s₂⟩, hremoved, h⟩ := bind_eq_ok_iff.1 h
  obtain ⟨⟨added, s₃⟩, hadded, h⟩ := bind_eq_ok_iff.1 h
  have hremoved := length_of_deleteAll hremoved
  have hadded := length_of_insertMissing hadded
  dsimp only at h
  split at h
  · obtain ⟨⟨moved, s₄⟩, hmoved, hafter⟩ := bind_eq_ok_iff.1 h
    cases hafter
    have hmoved := length_of_reorderAll hmoved
    change s₄.items.length ≤ _
    omega
  · cases h
    change s₃.items.length ≤ _
    omega

end Section

namespace Checked

variable {room : Prop} {s s' : Section} {item : Item} {destination : Option Nat} {command : Command}

/-! ## Edits of a section -/

theorem agrees_settleDestination {tail : Nat} {reach : Nat → Checked Nat}
    (hreach : ∀ d ≤ s.items.length, s.items.length < lengthBound → ∃ n, reach d = .ok n ∧ (n < s.items.length ↔ d < tail))
    (destination : Option Nat) :
    Agrees (s.items.length < lengthBound) (settleDestination s reach destination).run (s.settleDestination tail destination) := by
  cases destination with
  | none => exact .of_eq rfl
  | some d =>
    by_cases hroom : s.items.length < lengthBound
    · rw [settleDestination, Section.settleDestination]
      refine .bindLift (agrees_length _) ?_
      split
      · exact .of_eq rfl
      · rename_i hle
        obtain ⟨n, hn, hiff⟩ := hreach d (Nat.le_of_not_lt hle) hroom
        refine .bindLift (.of_eq hn) ?_
        simp only [hiff]
        exact .of_eq rfl
    · refine .inr ⟨?_, hroom⟩
      rw [settleDestination, length, if_neg hroom]
      rfl

/-- The position after a destination of a list that memory holds fits a word. -/
theorem agrees_settleInsertion (s : Section) (destination : Option Nat) :
    Agrees (s.items.length < lengthBound) (settleDestination s increment destination).run
      (s.settleDestination (s.items.length - 1) destination) := by
  refine agrees_settleDestination (fun d hd hroom => ⟨d + 1, increment_of_lt ?_, by omega⟩) destination
  have hword : lengthBound + 1 < Text.indexBound := by decide
  omega

theorem agrees_settleMove (s : Section) (destination : Option Nat) :
    Agrees (s.items.length < lengthBound) (settleDestination s pure destination).run
      (s.settleDestination s.items.length destination) :=
  agrees_settleDestination (fun d _ _ => ⟨d, rfl, Iff.rfl⟩) destination

theorem placeItem_eq {items : List Item} {before : Option Nat} (h : ∀ d, before = some d → d ≤ items.length) :
    placeItem items item before = .ok (Section.placeItem items item before) := by
  cases before with
  | none => rfl
  | some d => exact insertAt_of_le (h d rfl) item

theorem agrees_insert (s : Section) (item : Item) (destination : Option Nat) :
    Agrees (s.items.length < lengthBound) (insert s item destination).run (s.insert item destination) := by
  rw [insert, Section.insert]
  split
  · exact .of_eq rfl
  · refine (agrees_settleInsertion s destination).bindRun fun before hbefore => ?_
    obtain ⟨hrange, rfl⟩ := Section.settleDestination_eq_ok_iff.1 hbefore
    split
    · exact .of_eq rfl
    · refine .bindLift (.of_eq (placeItem_eq fun d hd => hrange d (Option.filter_eq_some_iff.1 hd).1)) ?_
      exact .of_eq rfl

/-- An item that has to be there is taken out at a position of the list. -/
theorem lt_of_requirePosition {index : Nat} (h : s.requirePosition item = .ok index) : index < s.items.length :=
  (List.getElem?_eq_some_iff.1 (Section.getElem?_of_requirePosition h)).1

theorem agrees_delete (s : Section) (item : Item) : Agrees room (delete s item).run (s.delete item) := by
  refine .bindRun (.of_eq rfl) fun index hindex => ?_
  refine .bindLift (.of_eq (removeAt_of_lt (lt_of_requirePosition hindex))) ?_
  exact .of_eq rfl

/-- A destination behind a position is not zero. -/
theorem slotAfterRemoval_eq (index : Nat) (before : Option Nat) :
    slotAfterRemoval index before = .ok (before.map (Section.slotAfterRemoval index)) := by
  cases before with
  | none => rfl
  | some d =>
    rw [slotAfterRemoval, Option.map_some, Section.slotAfterRemoval]
    split
    · rename_i hlt
      rw [subtract_of_le (Nat.one_le_of_lt hlt)]
      rfl
    · rfl

theorem agrees_move (s : Section) (item : Item) (destination : Option Nat) :
    Agrees (s.items.length < lengthBound) (move s item destination).run (s.move item destination) := by
  rw [move, Section.move]
  split
  · exact .of_eq rfl
  · refine (agrees_settleMove s destination).bindRun fun before hbefore => ?_
    refine .bindRun (.of_eq rfl) fun index hindex => ?_
    have hlt := lt_of_requirePosition hindex
    refine .bindLift (.of_eq (removeAt_of_lt hlt)) ?_
    refine .bindLift (.of_eq (slotAfterRemoval_eq index before)) ?_
    obtain ⟨-, rfl⟩ := Section.settleDestination_eq_ok_iff.1 hbefore
    have hslot : ∀ slot, (destination.filter (· < s.items.length)).map (Section.slotAfterRemoval index) = some slot →
        slot ≤ (s.items.eraseIdx index).length := by
      intro slot h
      obtain ⟨d, hd, rfl⟩ := Option.map_eq_some_iff.1 h
      have hd := of_decide_eq_true (Option.filter_eq_some_iff.1 hd).2
      rw [List.length_eraseIdx_of_lt hlt, Section.slotAfterRemoval]
      split <;> omega
    refine .bindLift (.of_eq (placeItem_eq hslot)) ?_
    exact .of_eq rfl

theorem agrees_perform (s : Section) (command : Command) :
    Agrees (s.items.length < lengthBound) (perform s command).run (s.perform command) := by
  cases command with
  | add values before => exact (agrees_insert s values before).bindRun fun _ _ => .of_eq rfl
  | remove index =>
    refine .bindRun (.of_eq rfl) fun item _ => ?_
    exact (agrees_delete s item).bindRun fun _ _ => .of_eq rfl
  | move index before =>
    refine .bindRun (.of_eq rfl) fun item _ => ?_
    exact (agrees_move s item before).bindRun fun _ _ => .of_eq rfl
  | set target values => exact .of_eq rfl

theorem agrees_loadCommand (command : Command) (s : Section) :
    Agrees (s.items.length < lengthBound) (loadCommand command s).run (s.load command) :=
  (agrees_perform s command).bindRun fun _ _ => .of_eq rfl

/-! ## Merges of sections -/

theorem agrees_deleteAll (items : List Item) (s : Section) :
    Agrees room (deleteAll items s).run (Section.deleteAll items s) := by
  induction items generalizing s with
  | nil => exact .of_eq rfl
  | cons item items ih =>
    refine (agrees_delete s item).bindRun fun result _ => ?_
    exact (ih _).bindRun fun _ _ => .of_eq rfl

theorem agrees_insertMissing (position : Nat) (items : List Item) (s : Section) :
    Agrees (s.items.length + items.length < lengthBound) (insertMissing position items s).run
      (Section.insertMissing position items s) := by
  induction items generalizing position s with
  | nil => exact .of_eq rfl
  | cons item items ih =>
    rw [insertMissing, Section.insertMissing, List.length_cons]
    split
    · exact (ih _ s).mono fun hroom => by omega
    · refine .bindLift ((agrees_length s.items).mono fun hroom => by omega) ?_
      refine ((agrees_insert s item _).mono fun hroom => by omega).bindRun fun result hinsert => ?_
      have hlength := Section.length_of_insert hinsert
      refine ((ih _ result.2).mono fun hroom => by omega).bindRun fun _ _ => .of_eq rfl

/-- A scan reads the positions from `position` on, as many as there are items left in the target. -/
theorem agrees_reorder (position : Nat) (items : List Item) (s : Section) (hlength : position + items.length = s.items.length) :
    Agrees (s.items.length < lengthBound) (reorder position items s).run (Section.reorder position items s) := by
  induction items generalizing position s with
  | nil => exact .of_eq rfl
  | cons item items ih =>
    rw [List.length_cons] at hlength
    have hlt : position < s.items.length := by omega
    have hentry : entryAt s.items position = .ok s.items[position] := by
      rw [entryAt, List.getElem?_eq_getElem hlt]
    rw [reorder, Section.reorder]
    refine .bindLift (.of_eq hentry) ?_
    simp only [List.getElem?_eq_getElem hlt, Option.some.injEq]
    split
    · exact ih _ s (by omega)
    · refine (agrees_move s item _).bindRun fun result hmove => ?_
      have hsame := Section.length_of_move hmove
      refine ((ih _ result.2 (by omega)).mono fun hroom => by omega).bindRun fun _ _ => .of_eq rfl

theorem agrees_reorderAll (s : Section) (items : List Item) :
    Agrees (s.items.length < lengthBound) (reorderAll s items).run (s.reorderAll items) := by
  rw [reorderAll, Section.reorderAll]
  refine .bindLift (agrees_length _) ?_
  split
  · rename_i hlength
    exact agrees_reorder 0 items s (by omega)
  · exact .of_eq rfl

theorem agrees_mergeWith (s target : Section) :
    Agrees (s.items.length + target.items.length < lengthBound) (mergeWith s target).run (s.mergeWith target) := by
  rw [mergeWith, Section.mergeWith]
  have hitems := Section.items_putSettings target.settings.entries s
  rcases hput : Section.putSettings target.settings.entries s with ⟨set, s₁⟩
  rw [hput] at hitems
  have hlength : s₁.items.length = s.items.length := congrArg List.length hitems
  refine (agrees_deleteAll _ s₁).bindRun fun result hremoved => ?_
  obtain ⟨removed, s₂⟩ := result
  have hremoved := Section.length_of_deleteAll hremoved
  refine ((agrees_insertMissing 0 target.items s₂).mono fun hroom => by omega).bindRun fun result hadded => ?_
  obtain ⟨added, s₃⟩ := result
  have hadded := Section.length_of_insertMissing hadded
  dsimp only
  split
  · exact ((agrees_reorderAll s₃ target.items).mono fun hroom => by omega).bindRun fun _ _ => .of_eq rfl
  · exact .of_eq rfl

end Checked

end RouterPlan
