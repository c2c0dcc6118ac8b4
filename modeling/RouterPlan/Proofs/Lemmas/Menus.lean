import RouterPlan.Device.Menu
import RouterPlan.Proofs.Lemmas.Configurations

/-!
# Lines sent to menus

A device that gets lines for several sections does in each menu what the lines for it say (`Menu.sendAll_eq_some_iff`). A command
whose numbers are current has in its menu the effect that it has in a section (`Menu.exists_obey`). Once a `print` goes before
every number, all of them are current, and no line is rejected (`Menu.exists_obey_stale`).
-/

namespace RouterPlan

/-- The numbers that a command names items by, where it edits items. -/
def Command.numbers : Command → List Nat
  | add _ before => before.toList
  | remove index => [index]
  | move index before => index :: before.toList
  | set .. => []

/-- Whether a command edits items, and not settings. -/
def Command.editsItems : Command → Bool
  | set .. => false
  | _ => true

namespace Menu

/-! ## Lines for several menus -/

/-- A device accepts lines exactly if each menu accepts the lines for it, one after the other. -/
theorem sendAll_eq_some_iff {steps : List (Path × MenuStep)} {menus menus' : Path → Menu} :
    sendAll steps menus = some menus' ↔
      ∀ path, (Configuration.atPath path steps).foldlM obey (menus path) = some (menus' path) := by
  induction steps generalizing menus with
  | nil =>
    constructor
    · intro h path
      cases h
      rfl
    · intro h
      exact congrArg some (funext fun path => Option.some.inj (h path))
  | cons e steps ih =>
    obtain ⟨path, step⟩ := e
    rw [sendAll, Option.bind_eq_bind, Option.bind_eq_some_iff]
    constructor
    · rintro ⟨menu, hmenu, hsteps⟩ other
      have hother := ih.1 hsteps other
      rw [Configuration.atPath_cons]
      by_cases hp : path = other
      · subst hp
        rw [if_pos rfl] at hother
        rw [if_pos rfl, List.foldlM_cons, hmenu]
        exact hother
      · rw [if_neg fun h => hp h.symm] at hother
        rwa [if_neg hp]
    · intro h
      have hpath := h path
      rw [Configuration.atPath_cons, if_pos rfl, List.foldlM_cons, Option.bind_eq_bind, Option.bind_eq_some_iff] at hpath
      obtain ⟨menu, hmenu, hrest⟩ := hpath
      refine ⟨menu, hmenu, ih.2 fun other => ?_⟩
      by_cases hp : path = other
      · subst hp
        rwa [if_pos rfl]
      · have hother := h other
        rw [Configuration.atPath_cons, if_neg hp] at hother
        rwa [if_neg fun h => hp h.symm]

/-! ## One line -/

variable {menu : Menu} {s s' : Section} {command : Command}

/-- A number that was given to an item means it while the items before it are where they were. -/
theorem named?_eq {numbered added : List Item} (hnumbering : menu.numbering = numbered.map some)
    (hitems : s.items = numbered ++ added) {number : Nat} (hlt : number < numbered.length) :
    menu.named? number = s.items[number]? := by
  rw [named?, hnumbering, hitems, List.getElem?_map, List.getElem?_append_left hlt, List.getElem?_eq_getElem hlt]
  rfl

/-- Right after a `print`, every number means the item at its position. -/
theorem named?_ofItems (items : List Item) (number : Nat) : (ofItems items).named? number = items[number]? := by
  rw [named?, ofItems, List.getElem?_map]
  cases items[number]? <;> rfl

/-- A command whose numbers are current has in its menu the effect that it has in a section. -/
theorem exists_obey (menu : Menu) (hn : s.items.Nodup) (h : s.Effect command s') (hsame : menu.items = s.items)
    (hnamed : ∀ number ∈ command.numbers, menu.named? number = s.items[number]?) :
    ∃ menu', menu.obey (.edit command) = some menu' ∧ menu'.items = s'.items := by
  cases h with
  | @add item before hnew hbefore =>
    cases before with
    | none => exact ⟨_, rfl, by simp [hsame, Section.placeItem]⟩
    | some d =>
      have hlt : d < s.items.length := by
        have := (hbefore d rfl).2
        omega
      have hother := List.getElem?_eq_getElem hlt
      refine ⟨{ menu with items := insertBefore menu.items item s.items[d] }, ?_, ?_⟩
      · simp [obey, hnamed d (by simp [Command.numbers]), hother]
      · simp only [insertBefore, hsame, idxOf_eq_of_getElem? hn hother, Section.placeItem]
  | @remove index item hitem =>
    refine ⟨{ items := menu.items.erase item, numbering := menu.numbering.map (·.filter (· != item)) }, ?_, ?_⟩
    · simp [obey, hnamed index (by simp [Command.numbers]), hitem]
    · simp only [hsame, erase_eq_eraseIdx_of_getElem? hn hitem]
  | @move index item before _ hitem hbefore =>
    have hindex := (hnamed index (by simp [Command.numbers])).trans hitem
    cases before with
    | none =>
      refine ⟨{ menu with items := menu.items.erase item ++ [item] }, ?_, ?_⟩
      · simp [obey, hindex]
      · simp only [hsame, erase_eq_eraseIdx_of_getElem? hn hitem, Section.placeItem, Option.map_none]
    | some d =>
      have hlt : d < s.items.length := hbefore d rfl
      have hother := List.getElem?_eq_getElem hlt
      have hd := (hnamed d (by simp [Command.numbers])).trans hother
      by_cases hid : index = d
      · subst hid
        have heq : item = s.items[index] := Option.some.inj (hitem.symm.trans hother)
        refine ⟨menu, by simp [obey, hindex, heq], ?_⟩
        simp [hsame, Section.placeItem, Section.slotAfterRemoval, insertIdx_eraseIdx hitem]
      · have hne : item ≠ s.items[d] := by
          intro heq
          exact hid ((List.getElem?_inj (List.getElem?_eq_some_iff.1 hitem).1 hn).1 (hitem.trans (heq ▸ hother.symm)))
        have hslot := (Section.getElem?_slotAfterRemoval s.items (Ne.symm hid)).trans hother
        refine ⟨{ menu with items := insertBefore (menu.items.erase item) item s.items[d] }, ?_, ?_⟩
        · simp [obey, hindex, hd, hne]
        · simp only [insertBefore, hsame, erase_eq_eraseIdx_of_getElem? hn hitem,
            idxOf_eq_of_getElem? (hn.eraseIdx index) hslot, Section.placeItem, Option.map_some]
  | set _ _ => exact ⟨menu, rfl, hsame⟩

/-! ## The lines of a batch -/

/-- Settings are sent as they are while the numbers are current. -/
theorem menuSteps_settings (commands rest : List Command) (h : ∀ command ∈ commands, command.editsItems = false) :
    (Batch.menuSteps false (commands ++ rest)).foldlM obey menu = (Batch.menuSteps false rest).foldlM obey menu := by
  induction commands with
  | nil => rfl
  | cons command commands ih =>
    obtain ⟨hcommand, hcommands⟩ := List.forall_mem_cons.1 h
    cases command with
    | set target values => exact ih hcommands
    | _ => cases hcommand

/-- Items that are appended need no numbers and leave the numbers as they are. -/
theorem menuSteps_appended (items : List Item) (rest : List Command) (menu : Menu) :
    (Batch.menuSteps false (items.map (fun item => .add item none) ++ rest)).foldlM obey menu =
      (Batch.menuSteps false rest).foldlM obey { menu with items := menu.items ++ items } := by
  induction items generalizing menu with
  | nil => simp
  | cons item items ih =>
    refine (ih { menu with items := menu.items ++ [item] }).trans ?_
    rw [List.append_assoc, List.singleton_append]

/-- Once the numbers are out of date, a `print` goes before each command that names items by number, so that none is
rejected. -/
theorem exists_obey_stale {φ : Section → Command → Prop} {commands : List Command} (hn : s.items.Nodup)
    (h : s.Effects φ commands s') (hkind : ∀ command ∈ commands, command.editsItems = true) {menu : Menu}
    (hsame : menu.items = s.items) :
    ∃ menu', (Batch.menuSteps true commands).foldlM obey menu = some menu' ∧ menu'.items = s'.items := by
  induction h generalizing menu with
  | refl => exact ⟨menu, rfl, hsame⟩
  | @step s m s' command commands _ he _ ih =>
    obtain ⟨hcommand, hcommands⟩ := List.forall_mem_cons.1 hkind
    have hn' := he.nodup hn
    cases hfresh : command.requiresFreshIndices with
    | true =>
      have hstale : command.invalidatesIndices = true := by
        cases command with
        | set => cases hcommand
        | _ => exact hfresh
      have hsteps : Batch.menuSteps true (command :: commands) =
          .print :: .edit command :: Batch.menuSteps true commands := by
        rw [Batch.menuSteps, hfresh, hstale]
        rfl
      obtain ⟨menu₁, hobey, hitems₁⟩ := exists_obey (ofItems menu.items) hn he hsame fun number _ => by
        rw [named?_ofItems, hsame]
      obtain ⟨menu', hrest, hitems'⟩ := ih hn' hcommands hitems₁
      refine ⟨menu', ?_, hitems'⟩
      have hprint : menu.obey .print = some (ofItems menu.items) := rfl
      rw [hsteps, List.foldlM_cons, hprint, Option.bind_eq_bind, Option.bind_some, List.foldlM_cons, hobey]
      exact hrest
    | false =>
      have hnumbers : command.numbers = [] := by
        cases command with
        | add item before => simpa [Command.requiresFreshIndices, Command.numbers] using hfresh
        | set => rfl
        | _ => cases hfresh
      have hsteps : Batch.menuSteps true (command :: commands) = .edit command :: Batch.menuSteps true commands := by
        rw [Batch.menuSteps, hfresh, Bool.and_false, Bool.not_false, Bool.and_true, Bool.or_true]
        rfl
      obtain ⟨menu₁, hobey, hitems₁⟩ := exists_obey menu hn he hsame (by simp [hnumbers])
      obtain ⟨menu', hrest, hitems'⟩ := ih hn' hcommands hitems₁
      refine ⟨menu', ?_, hitems'⟩
      rw [hsteps, List.foldlM_cons, hobey]
      exact hrest

/-- Where the numbers are those of before, and items have only been appended since, a list of edits that starts with one that
shifts positions is accepted if that one names items that have a number. -/
theorem exists_obey_of_head {φ : Section → Command → Prop} {command : Command} {commands : List Command} (hn : s.items.Nodup)
    (h : s.Effects φ (command :: commands) s') (hkind : ∀ command ∈ commands, command.editsItems = true)
    (hshift : command.invalidatesIndices = true) {menu : Menu} (hsame : menu.items = s.items)
    (hnamed : ∀ number ∈ command.numbers, menu.named? number = s.items[number]?) :
    ∃ menu', (Batch.menuSteps false (command :: commands)).foldlM obey menu = some menu' ∧ menu'.items = s'.items := by
  cases h with
  | step _ he hrest =>
    obtain ⟨menu₁, hobey, hitems₁⟩ := exists_obey menu hn he hsame hnamed
    obtain ⟨menu', hrest, hitems'⟩ := exists_obey_stale (he.nodup hn) hrest hkind hitems₁
    have hsteps : Batch.menuSteps false (command :: commands) = .edit command :: Batch.menuSteps true commands := by
      rw [Batch.menuSteps, hshift]
      rfl
    refine ⟨menu', ?_, hitems'⟩
    rw [hsteps, List.foldlM_cons, hobey]
    exact hrest

/-- A command that moves an item which has no number is rejected. -/
theorem obey_move_eq_none {index before : Nat} (h : menu.named? index = none) (commands : List Command) :
    (Batch.menuSteps false (.move index (some before) :: commands)).foldlM obey menu = none := by
  have hobey : menu.obey (.edit (.move index (some before))) = none := by
    simp [obey, h]
  simp [Batch.menuSteps, Command.requiresFreshIndices, hobey]

end Menu

end RouterPlan
