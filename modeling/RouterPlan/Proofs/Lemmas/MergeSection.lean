import RouterPlan.Merge
import RouterPlan.Proofs.Lemmas.Edits

/-!
# The four passes of a merge

What each pass does to a section (`putSettings`, `deleteAll`, `insertMissing`, `reorder`), and from that what a section is
after all four (`exists_mergeWith`). A pass is a list of edits, and `Section.Aim` says what each of its commands is after: the
item or the setting that the target asks for, at the moment the command is found.

The loop invariants are these. No pass puts an item in twice. After the insertions the items are those of the target, in some
order. While the scan runs, the items up to its position stand as in the target, and those behind it are the ones that the
target still has to come.
-/

namespace RouterPlan.Section

/-- What a command that a merge finds is after, in the section where it is found. -/
inductive Aim (target s : Section) : Command → Prop where
  | set {id : Identifier} {values changed : Values} (hvalues : target.settings.get? id = some values)
      (hchanged : ∀ key value, changed.get? key = some value → values.get? key = some value) :
      Aim target s (.set id changed)
  | remove {index : Nat} {item : Item} (hitem : s.items[index]? = some item) (hgone : item ∉ target.items) :
      Aim target s (.remove index)
  | add {item : Item} {before : Option Nat} (hwanted : item ∈ target.items) (hnew : item ∉ s.items)
      (hbefore : ∀ d, before = some d → target.items[d]? = some item) : Aim target s (.add item before)
  | move {index before : Nat} {item : Item} (hitem : s.items[index]? = some item)
      (hplace : target.items[before]? = some item) (hlt : before < index) : Aim target s (.move index (some before))

/-! ## Settings -/

/-- The settings that are put in come before those that were there. -/
theorem value?_putSettings (settings : List (Identifier × Values)) (hn : (settings.map (·.1)).Nodup) (s : Section)
    (id : Identifier) (key : String) :
    (putSettings settings s).2.value? id key =
      (((settings.find? fun e => compare e.1 id == .eq).map (·.2)).bind (·.get? key)).or (s.value? id key) := by
  induction settings generalizing s with
  | nil => rfl
  | cons e settings ih =>
    obtain ⟨target, values⟩ := e
    obtain ⟨hfirst, hrest⟩ := List.nodup_cons.1 hn
    have hput : (putSettings ((target, values) :: settings) s).2 = (putSettings settings (s.set target values).2).2 := rfl
    rw [hput, ih hrest, value?_set, List.find?_cons]
    by_cases hid : id = target
    · subst hid
      have hnone : settings.find? (fun e => compare e.1 id == .eq) = none := by
        rw [List.find?_eq_none]
        intro e he heq
        exact hfirst (List.mem_map.2 ⟨e, he, Std.compare_eq_iff_eq.1 (by simpa using heq)⟩)
      simp [hnone]
    · have hne : (compare target id == .eq) = false := by simpa using fun h => hid h.symm
      simp [hid, hne]

/-- The settings that are put in, if they have values, and those that were there, are there. -/
theorem isSome_putSettings (settings : List (Identifier × Values)) (hv : ∀ e ∈ settings, e.2.isEmpty = false) (s : Section)
    (id : Identifier) :
    ((putSettings settings s).2.settings.get? id).isSome =
      ((settings.find? fun e => compare e.1 id == .eq).isSome || (s.settings.get? id).isSome) := by
  induction settings generalizing s with
  | nil => rfl
  | cons e settings ih =>
    obtain ⟨target, values⟩ := e
    have hput : (putSettings ((target, values) :: settings) s).2 = (putSettings settings (s.set target values).2).2 := rfl
    rw [hput, ih fun e he => hv e (List.mem_cons_of_mem _ he), isSome_set _ _ _ (hv _ List.mem_cons_self), List.find?_cons]
    by_cases hid : id = target
    · simp [hid]
    · have hne : (compare target id == .eq) = false := by simpa using fun h => hid h.symm
      simp [hid, hne]

/-- Settings leave the items alone. -/
theorem items_set (s : Section) (target : Identifier) (values : Values) : (s.set target values).2.items = s.items := by
  rw [set]
  split <;> rfl

theorem items_putSettings (settings : List (Identifier × Values)) (s : Section) :
    (putSettings settings s).2.items = s.items := by
  induction settings generalizing s with
  | nil => rfl
  | cons e settings ih => exact (ih _).trans (items_set s e.1 e.2)

/-- Putting in settings of a target is a list of edits, each after one of those settings. -/
theorem effects_putSettings {target : Section} (settings : List (Identifier × Values))
    (h : ∀ e ∈ settings, target.settings.get? e.1 = some e.2) (s : Section) :
    Effects (fun s command => Aim target s command ∧ ∃ id changed, command = .set id changed) s
      (putSettings settings s).1 (putSettings settings s).2 := by
  induction settings generalizing s with
  | nil => exact .refl s
  | cons e settings ih =>
    obtain ⟨id, values⟩ := e
    have hrest := ih (fun e he => h e (List.mem_cons_of_mem _ he)) (s.set id values).2
    have hput : putSettings ((id, values) :: settings) s =
        ((s.set id values).1.toList ++ (putSettings settings (s.set id values).2).1,
          (putSettings settings (s.set id values).2).2) := rfl
    rw [hput]
    rcases s.set_cases id values with ⟨hset, -⟩ | ⟨changed, hne, hget, hset⟩
    · rw [hset] at hrest ⊢
      exact hrest
    · rw [hset] at hrest ⊢
      refine .step ?_ (effect_of_set hset) hrest
      refine ⟨.set (h _ List.mem_cons_self) fun key value hvalue => ?_, id, changed, rfl⟩
      rw [hget, Option.filter_eq_some_iff] at hvalue
      exact hvalue.1

/-! ## Deletions -/

/-- Items that are there and not wanted are taken out, and the others stay in order. -/
theorem exists_deleteAll (target : Section) (items : List Item) (hitems : items.Nodup) (s : Section) (hn : s.items.Nodup)
    (hmem : ∀ item ∈ items, item ∈ s.items) (hgone : ∀ item ∈ items, item ∉ target.items) :
    ∃ commands s', deleteAll items s = .ok (commands, s') ∧
      Effects (fun s command => Aim target s command ∧ ∃ index, command = .remove index) s commands s' ∧
      commands.length = items.length ∧ s'.items = s.items.filter (fun item => item ∉ items) ∧
      s'.settings = s.settings := by
  induction items generalizing s with
  | nil => exact ⟨[], s, rfl, .refl s, rfl, (List.filter_eq_self.2 (by simp)).symm, rfl⟩
  | cons item items ih =>
    obtain ⟨hfirst, hrest⟩ := List.nodup_cons.1 hitems
    obtain ⟨index, hindex⟩ := List.mem_iff_getElem?.1 (hmem item List.mem_cons_self)
    have hdel : s.delete item = .ok (.remove index, { s with items := s.items.eraseIdx index }) :=
      (delete_eq_ok_iff hn).2 ⟨index, hindex, rfl, rfl⟩
    have herase : s.items.eraseIdx index = s.items.filter (· != item) := by
      rw [← hn.erase_eq_filter item, erase_eq_eraseIdx_of_getElem? hn hindex]
    obtain ⟨commands, s', hok, heff, hlen, hafter, hsettings⟩ :=
      ih hrest { s with items := s.items.eraseIdx index } (hn.eraseIdx index)
        (fun a ha => by
          have hne : a ≠ item := fun h => hfirst (h ▸ ha)
          simpa [herase, hne] using hmem a (List.mem_cons_of_mem _ ha))
        (fun a ha => hgone a (List.mem_cons_of_mem _ ha))
    refine ⟨.remove index :: commands, s', ?_, ?_, by simp [hlen], ?_, hsettings⟩
    · simp [deleteAll, hdel, hok, bind, Except.bind, pure, Except.pure]
    · exact .step ⟨.remove hindex (hgone item List.mem_cons_self), index, rfl⟩ (.remove hindex) heff
    · rw [hafter]
      simp only [herase, List.filter_filter]
      refine List.filter_congr fun a _ => ?_
      by_cases ha : a = item <;> simp [ha]

/-! ## Insertions -/

/-- Where a missing item goes that has a position in the target: there, if items may be placed and it is not yet the end. -/
def slotFor (s : Section) (position : Nat) : Option Nat :=
  if s.mode.allowsPlacement = true ∧ position + 1 < s.items.length then some position else none

theorem slotFor_eq_some_iff {s : Section} {position d : Nat} :
    s.slotFor position = some d ↔ s.mode.allowsPlacement = true ∧ position + 1 < s.items.length ∧ position = d := by
  unfold slotFor
  split
  · rename_i h
    simp [h]
  · rename_i h
    simp only [reduceCtorEq, false_iff]
    rintro ⟨hmode, hlt, -⟩
    exact h ⟨hmode, hlt⟩

/-- A missing item goes to its slot. -/
theorem insert_slotFor {s : Section} {item : Item} (position : Nat) (hnew : item ∉ s.items) :
    s.insert item (if s.mode.allowsPlacement && position < s.items.length then some position else none) =
      .ok (.add item (s.slotFor position), { s with items := placeItem s.items item (s.slotFor position) }) := by
  have hslot : (if s.mode.allowsPlacement && position < s.items.length then some position else none).filter
      (fun d => decide (d < s.items.length - 1)) = s.slotFor position := by
    unfold slotFor
    by_cases hmode : s.mode.allowsPlacement = true
    · by_cases hlt : position + 1 < s.items.length
      · have h1 : position < s.items.length := by omega
        have h2 : position < s.items.length - 1 := by omega
        simp [hmode, hlt, h1, h2, Option.filter]
      · have h2 : ¬position < s.items.length - 1 := by omega
        by_cases h1 : position < s.items.length <;> simp [hmode, hlt, h1, h2, Option.filter]
    · simp [hmode]
  refine insert_eq_ok_iff.2 ⟨fun hsome => ?_, fun d hd => ?_, hnew, by rw [hslot], by rw [hslot]⟩
  · split at hsome
    · rename_i hplaced
      simp only [Bool.and_eq_true, decide_eq_true_eq] at hplaced
      exact hplaced.1
    · cases hsome
  · split at hd
    · rename_i hplaced
      simp only [Bool.and_eq_true, decide_eq_true_eq, Option.some.injEq] at hplaced hd
      omega
    · cases hd

/-- Items that are there already are passed over. -/
theorem insertMissing_append {s : Section} (present items : List Item) (h : ∀ item ∈ present, item ∈ s.items)
    (position : Nat) :
    insertMissing position (present ++ items) s = insertMissing (position + present.length) items s := by
  induction present generalizing position with
  | nil => rfl
  | cons item present ih =>
    have hmem := h item List.mem_cons_self
    rw [List.cons_append, insertMissing, if_pos (by simpa using hmem), ih fun a ha => h a (List.mem_cons_of_mem _ ha)]
    congr 1
    simp only [List.length_cons]
    omega

/-- A missing item is put into its slot before the others are looked at. -/
theorem insertMissing_cons {s : Section} {item : Item} (hnew : item ∉ s.items) (position : Nat) (items : List Item) :
    insertMissing position (item :: items) s = do
      let (commands, s') ← insertMissing (position + 1) items
        { s with items := placeItem s.items item (s.slotFor position) }
      return (.add item (s.slotFor position) :: commands, s') := by
  rw [insertMissing, if_neg (by simpa using hnew)]
  simp only [insert_slotFor position hnew]
  rfl

/-- The missing items are put in, and no item twice. -/
theorem exists_insertMissing (target : Section) (items : List Item) (hitems : items.Nodup) (position : Nat)
    (hdrop : target.items.drop position = items) (s : Section) (hn : s.items.Nodup) :
    ∃ commands s', insertMissing position items s = .ok (commands, s') ∧
      Effects (fun s command => Aim target s command ∧ ∃ item before, command = .add item before) s commands s' ∧
      s'.items.Perm (s.items ++ items.filter fun item => item ∉ s.items) ∧ s'.settings = s.settings := by
  induction items generalizing position s with
  | nil => exact ⟨[], s, rfl, .refl s, by simp, rfl⟩
  | cons item items ih =>
    obtain ⟨hfirst, hrest⟩ := List.nodup_cons.1 hitems
    have hat : target.items[position]? = some item := by
      have hhead := congrArg List.head? hdrop
      rwa [List.head?_drop] at hhead
    have hnext : target.items.drop (position + 1) = items := by
      rw [← List.tail_drop, hdrop, List.tail_cons]
    by_cases hmem : item ∈ s.items
    · obtain ⟨commands, s', hok, hrest⟩ := ih hrest (position + 1) hnext s hn
      refine ⟨commands, s', ?_, ?_⟩
      · rw [insertMissing, if_pos (by simpa using hmem), hok]
      · simpa [hmem] using hrest
    · have heff : s.Effect (.add item (s.slotFor position))
          { s with items := placeItem s.items item (s.slotFor position) } :=
        effect_of_insert (insert_slotFor position hmem)
      have hle : ∀ d, s.slotFor position = some d → d ≤ s.items.length := by
        intro d hd
        obtain ⟨-, hlt, rfl⟩ := slotFor_eq_some_iff.1 hd
        omega
      obtain ⟨commands, s', hok, heffs, hperm, hsettings⟩ := ih hrest (position + 1) hnext _ (heff.nodup hn)
      refine ⟨.add item (s.slotFor position) :: commands, s', ?_, ?_, ?_, hsettings⟩
      · rw [insertMissing_cons hmem, hok]
        rfl
      · refine .step ⟨.add (List.mem_of_getElem? hat) hmem fun d hd => ?_, item, _, rfl⟩ heff heffs
        obtain ⟨-, -, rfl⟩ := slotFor_eq_some_iff.1 hd
        exact hat
      · have hsame : (items.filter fun a => a ∉ placeItem s.items item (s.slotFor position)) =
            items.filter fun a => a ∉ s.items := by
          refine List.filter_congr fun a ha => ?_
          have hne : a ≠ item := fun h => hfirst (h ▸ ha)
          simp [mem_placeItem hle, hne]
        simp only [hsame] at hperm
        refine hperm.trans (((placeItem_perm hle).append_right _).trans ?_)
        simpa [hmem] using List.perm_middle.symm

/-- Where the items stand that are only put in at the end: behind the others, in the order of the target. -/
theorem insertMissing_at_end (items : List Item) (hitems : items.Nodup) (position : Nat) (s : Section)
    (hend : s.mode.allowsPlacement = false ∨ s.items.length ≤ position + 1) {commands : List Command} {s' : Section}
    (h : insertMissing position items s = .ok (commands, s')) :
    (s'.items = s.items ++ items.filter fun item => item ∉ s.items) ∧
      commands = (items.filter fun item => item ∉ s.items).map fun item => .add item none := by
  induction items generalizing position s commands s' with
  | nil =>
    cases h
    simp
  | cons item items ih =>
    obtain ⟨hfirst, hrest⟩ := List.nodup_cons.1 hitems
    by_cases hmem : item ∈ s.items
    · rw [insertMissing, if_pos (by simpa using hmem)] at h
      have hend' : s.mode.allowsPlacement = false ∨ s.items.length ≤ position + 1 + 1 := hend.imp id fun h => by omega
      simpa [hmem] using ih hrest (position + 1) s hend' h
    · have hslot : s.slotFor position = none := by
        rw [slotFor, if_neg]
        rintro ⟨hmode, hlt⟩
        rcases hend with hend | hend
        · rw [hmode] at hend
          cases hend
        · omega
      rw [insertMissing_cons hmem, hslot] at h
      obtain ⟨⟨more, m⟩, hok, hafter⟩ := bind_eq_ok_iff.1 h
      cases hafter
      have hend' : s.mode.allowsPlacement = false ∨ (s.items ++ [item]).length ≤ position + 1 + 1 := by
        simpa using hend
      obtain ⟨hitems', hcommands⟩ := ih hrest (position + 1) { s with items := s.items ++ [item] } hend' hok
      have hsame : (items.filter fun a => a ∉ s.items ++ [item]) = items.filter fun a => a ∉ s.items := by
        refine List.filter_congr fun a ha => ?_
        have hne : a ≠ item := fun h => hfirst (h ▸ ha)
        simp [hne]
      simp only [hsame] at hitems' hcommands
      rw [hitems', hcommands]
      simp [hmem]

/-- Either the first item that is put in goes before another one, or all go to the end. -/
theorem insertMissing_cases (items : List Item) (hitems : items.Nodup) (position : Nat) (s : Section)
    {commands : List Command} {s' : Section} (h : insertMissing position items s = .ok (commands, s')) :
    (∃ item before rest, commands = .add item (some before) :: rest) ∨
      (s'.items = s.items ++ items.filter fun item => item ∉ s.items) ∧
        commands = (items.filter fun item => item ∉ s.items).map fun item => .add item none := by
  induction items generalizing position with
  | nil =>
    cases h
    simp
  | cons item items ih =>
    by_cases hmem : item ∈ s.items
    · rw [insertMissing, if_pos (by simpa using hmem)] at h
      simpa [hmem] using ih (List.nodup_cons.1 hitems).2 (position + 1) h
    · cases hslot : s.slotFor position with
      | some before =>
        rw [insertMissing_cons hmem, hslot] at h
        obtain ⟨⟨more, m⟩, -, hafter⟩ := bind_eq_ok_iff.1 h
        cases hafter
        exact .inl ⟨item, before, more, rfl⟩
      | none =>
        refine .inr (insertMissing_at_end (item :: items) hitems position s ?_ h)
        unfold slotFor at hslot
        split at hslot
        · cases hslot
        · rename_i hno
          cases hmode : s.mode.allowsPlacement with
          | false => exact .inl rfl
          | true =>
            refine .inr ?_
            simp only [hmode, true_and] at hno
            omega

/-! ## Moves -/

/-- Items that stand as in the target are passed over. -/
theorem reorder_append {s : Section} (before settled items rest : List Item) (h : s.items = before ++ settled ++ rest) :
    reorder before.length (settled ++ items) s = reorder (before ++ settled).length items s := by
  induction settled generalizing before with
  | nil => simp
  | cons item settled ih =>
    have hat : s.items[before.length]? = some item := by simp [h]
    have hnext := ih (before ++ [item]) (by simp [h])
    rw [List.length_append, List.length_singleton] at hnext
    rw [List.cons_append, reorder, if_pos hat, hnext]
    simp

/-- An item behind its position in the target is moved there. -/
theorem move_forward {s : Section} (hmode : s.mode.isOrdered = true) (hn : s.items.Nodup) {settled skipped rest : List Item}
    {item : Item} (h : s.items = settled ++ skipped ++ item :: rest) (hskipped : skipped ≠ []) :
    s.move item (some settled.length) =
      .ok (.move (settled ++ skipped).length (some settled.length),
        { s with items := settled ++ item :: (skipped ++ rest) }) := by
  have hat : s.items[(settled ++ skipped).length]? = some item := by simp [h]
  have hpos : 0 < skipped.length := List.length_pos_iff.2 hskipped
  have hfilter : (some settled.length).filter (fun d => decide (d < s.items.length)) = some settled.length := by
    simp [h, Option.filter]
  have hslot : slotAfterRemoval (settled ++ skipped).length settled.length = settled.length := by
    rw [slotAfterRemoval, if_neg]
    simp
  refine (move_eq_ok_iff hn).2 ⟨hmode, fun d hd => ?_, _, hat, by rw [hfilter], ?_⟩
  · cases hd
    simp [h]
  · rw [hfilter, Option.map_some, hslot, placeItem, h, eraseIdx_length_append, List.append_assoc,
      insertIdx_length_append]

/-- An item of the target either stands at its position already, and is passed over, or stands behind it and is moved there. -/
theorem reorder_cons {s : Section} (hmode : s.mode.isOrdered = true) (hn : s.items.Nodup) {settled rest items : List Item}
    {item : Item} (hs : s.items = settled ++ rest) (hperm : rest.Perm (item :: items)) :
    (∃ rest', rest = item :: rest' ∧ rest'.Perm items ∧
        reorder settled.length (item :: items) s = reorder (settled.length + 1) items s) ∨
      ∃ skipped rest', skipped ≠ [] ∧ rest = skipped ++ item :: rest' ∧ (skipped ++ rest').Perm items ∧
        s.Effect (.move (settled ++ skipped).length (some settled.length))
          { s with items := settled ++ item :: (skipped ++ rest') } ∧
        reorder settled.length (item :: items) s = do
          let (commands, s') ← reorder (settled.length + 1) items { s with items := settled ++ item :: (skipped ++ rest') }
          return (.move (settled ++ skipped).length (some settled.length) :: commands, s') := by
  obtain ⟨skipped, rest', rfl⟩ := List.append_of_mem (hperm.mem_iff.2 List.mem_cons_self)
  have hperm' : (skipped ++ rest').Perm items := (List.perm_middle.symm.trans hperm).cons_inv
  by_cases hskipped : skipped = []
  · subst hskipped
    have hhere : s.items[settled.length]? = some item := by simp [hs]
    exact .inl ⟨rest', rfl, hperm', by rw [reorder, if_pos hhere]⟩
  · have hs' : s.items = settled ++ skipped ++ item :: rest' := by simp [hs]
    have hmove := move_forward hmode hn hs' hskipped
    have hthere : s.items[settled.length]? ≠ some item := by
      intro h
      have hitem : s.items[(settled ++ skipped).length]? = some item := by simp [hs']
      have hlt : settled.length < s.items.length := (List.getElem?_eq_some_iff.1 h).1
      have hlen := (List.getElem?_inj hlt hn).1 (h.trans hitem.symm)
      simp only [List.length_append] at hlen
      exact hskipped (List.eq_nil_of_length_eq_zero (by omega))
    refine .inr ⟨skipped, rest', hskipped, rfl, hperm', effect_of_move hn hmove, ?_⟩
    rw [reorder, if_neg hthere, hmove]
    rfl

/-- The scan brings the items into the order of the target. -/
theorem exists_reorder (target : Section) (items : List Item) (settled rest : List Item)
    (hdrop : target.items.drop settled.length = items) (s : Section) (hmode : s.mode.isOrdered = true)
    (hn : s.items.Nodup) (hs : s.items = settled ++ rest) (hperm : rest.Perm items) :
    ∃ commands s', reorder settled.length items s = .ok (commands, s') ∧
      Effects (fun s command => Aim target s command ∧ ∃ index before, command = .move index (some before)) s commands s' ∧
      s'.items = settled ++ items ∧ s'.settings = s.settings := by
  induction items generalizing settled rest s with
  | nil =>
    rw [hperm.eq_nil] at hs
    exact ⟨[], s, rfl, .refl s, hs, rfl⟩
  | cons item items ih =>
    have hat : target.items[settled.length]? = some item := by
      have hhead := congrArg List.head? hdrop
      rwa [List.head?_drop] at hhead
    have hnext : target.items.drop (settled ++ [item]).length = items := by
      rw [List.length_append, List.length_singleton, ← List.tail_drop, hdrop, List.tail_cons]
    rcases reorder_cons hmode hn hs hperm with ⟨rest', rfl, hperm', hpass⟩ | ⟨skipped, rest', hskipped, rfl, hperm', heff, hpass⟩
    · obtain ⟨commands, s', hok, heffs, hitems, hsettings⟩ :=
        ih (settled ++ [item]) rest' hnext s hmode hn (by simp [hs]) hperm'
      rw [List.length_append, List.length_singleton] at hok
      exact ⟨commands, s', hpass.trans hok, heffs, by simp [hitems], hsettings⟩
    · obtain ⟨commands, s', hok, heffs, hitems, hsettings⟩ :=
        ih (settled ++ [item]) (skipped ++ rest') hnext { s with items := settled ++ item :: (skipped ++ rest') } hmode
          (heff.nodup hn) (by simp) hperm'
      rw [List.length_append, List.length_singleton] at hok
      refine ⟨.move (settled ++ skipped).length (some settled.length) :: commands, s', ?_, ?_, by simp [hitems],
        hsettings⟩
      · rw [hpass, hok]
        rfl
      · refine .step ⟨@Aim.move _ _ _ _ item (by simp [hs]) hat ?_, _, _, rfl⟩ heff heffs
        have hpos : 0 < skipped.length := List.length_pos_iff.2 hskipped
        simp only [List.length_append]
        omega

/-! ## All four passes -/

/-- The commands of the four passes of a merge, and the section after each of them. -/
structure Passes (s target : Section) where
  set : List Command
  removed : List Command
  added : List Command
  moved : List Command
  afterSet : Section
  afterRemoved : Section
  afterAdded : Section
  after : Section
  effects_set : Effects (fun s command => Aim target s command ∧ ∃ id changed, command = .set id changed) s set afterSet
  effects_removed : Effects (fun s command => Aim target s command ∧ ∃ index, command = .remove index) afterSet removed
    afterRemoved
  effects_added : Effects (fun s command => Aim target s command ∧ ∃ item before, command = .add item before)
    afterRemoved added afterAdded
  effects_moved : Effects (fun s command => Aim target s command ∧ ∃ index before, command = .move index (some before))
    afterAdded moved after
  mergeWith_eq : s.mergeWith target = .ok (set ++ removed ++ added ++ moved, after)
  set_eq : set = (putSettings target.settings.entries s).1
  afterSet_eq : afterSet = (putSettings target.settings.entries s).2
  deleteAll_eq : deleteAll (s.items.filter fun item => item ∉ target.items) afterSet = .ok (removed, afterRemoved)
  length_removed : removed.length = (s.items.filter fun item => item ∉ target.items).length
  items_afterRemoved : afterRemoved.items = s.items.filter fun item => item ∈ target.items
  insertMissing_eq : insertMissing 0 target.items afterRemoved = .ok (added, afterAdded)
  perm_afterAdded : afterAdded.items.Perm target.items
  reorder_eq : s.mode.isOrdered = true → reorder 0 target.items afterAdded = .ok (moved, after)
  moved_eq_nil : s.mode.isOrdered = false → moved = [] ∧ after = afterAdded
  items_of_ordered : s.mode.isOrdered = true → after.items = target.items
  settings_eq : after.settings = afterSet.settings

/-- A merge of sections that hold nothing twice goes through all four passes. -/
theorem nonempty_passes {s target : Section} (hs : s.items.Nodup) (ht : target.items.Nodup) :
    Nonempty (Passes s target) := by
  have hentries : ∀ e ∈ target.settings.entries, target.settings.get? e.1 = some e.2 := fun e he =>
    Assoc.mem_entries_iff.1 he
  have hset := effects_putSettings target.settings.entries hentries s
  have hitems₁ := items_putSettings target.settings.entries s
  cases hput : putSettings target.settings.entries s with
  | mk set s₁ =>
  rw [hput] at hset hitems₁
  simp only at hitems₁
  have hn₁ : s₁.items.Nodup := hitems₁ ▸ hs
  have hgone : s₁.items.filter (!target.items.contains ·) = s.items.filter fun item => item ∉ target.items := by
    rw [hitems₁]
    exact List.filter_congr fun item _ => by simp
  obtain ⟨removed, s₂, hok₂, heff₂, hlen₂, hitems₂, hsettings₂⟩ :=
    exists_deleteAll target (s₁.items.filter (!target.items.contains ·)) (hn₁.filter _) s₁ hn₁
      (fun item h => (List.mem_filter.1 h).1) (fun item h => by simpa using (List.mem_filter.1 h).2)
  have hitems₂ : s₂.items = s.items.filter fun item => item ∈ target.items := by
    rw [hitems₂, hitems₁]
    refine List.filter_congr fun item hitem => ?_
    simp [hitem]
  have hn₂ : s₂.items.Nodup := heff₂.nodup hn₁
  obtain ⟨added, s₃, hok₃, heff₃, hperm₃, hsettings₃⟩ := exists_insertMissing target target.items ht 0 (by simp)
    s₂ hn₂
  have hn₃ : s₃.items.Nodup := heff₃.nodup hn₂
  have hmode₃ : s₃.mode = s.mode := by
    rw [heff₃.frame.2.1, heff₂.frame.2.1, hset.frame.2.1]
  have hperm : s₃.items.Perm target.items := by
    refine (List.perm_ext_iff_of_nodup hn₃ ht).2 fun item => ?_
    rw [hperm₃.mem_iff, hitems₂]
    by_cases hitem : item ∈ target.items <;> simp [hitem, Classical.em]
  obtain ⟨moved, s', hok', heff', hordered, hunordered, hitems', hsettings'⟩ : ∃ moved s',
      (if s₃.mode.isOrdered then s₃.reorderAll target.items else .ok ([], s₃)) = .ok (moved, s') ∧
        Effects (fun s command => Aim target s command ∧ ∃ index before, command = .move index (some before)) s₃ moved s' ∧
        (s.mode.isOrdered = true → reorder 0 target.items s₃ = .ok (moved, s')) ∧
        (s.mode.isOrdered = false → moved = [] ∧ s' = s₃) ∧
        (s.mode.isOrdered = true → s'.items = target.items) ∧ s'.settings = s₃.settings := by
    cases hmode : s.mode.isOrdered with
    | true =>
      obtain ⟨moved, s', hok, heff, hitems, hsettings⟩ :=
        exists_reorder target target.items [] s₃.items (by simp) s₃ (by rw [hmode₃, hmode]) hn₃ rfl hperm
      refine ⟨moved, s', ?_, heff, fun _ => hok, fun h => (nomatch h), fun _ => hitems, hsettings⟩
      rw [hmode₃, hmode, if_pos rfl, reorderAll, if_pos hperm.length_eq]
      exact hok
    | false =>
      refine ⟨[], s₃, ?_, .refl s₃, fun h => (nomatch h), fun _ => ⟨rfl, rfl⟩, fun h => (nomatch h), rfl⟩
      rw [hmode₃, hmode, if_neg Bool.false_ne_true]
  refine ⟨{
    set, removed, added, moved, afterSet := s₁, afterRemoved := s₂, afterAdded := s₃, after := s', effects_set := hset,
    effects_removed := heff₂, effects_added := heff₃, effects_moved := heff', mergeWith_eq := ?_,
    set_eq := by rw [hput], afterSet_eq := by rw [hput], deleteAll_eq := hgone ▸ hok₂, length_removed := by rw [hlen₂, hgone],
    items_afterRemoved := hitems₂, insertMissing_eq := hok₃, perm_afterAdded := hperm, reorder_eq := hordered,
    moved_eq_nil := hunordered, items_of_ordered := hitems',
    settings_eq := hsettings'.trans (hsettings₃.trans hsettings₂) }⟩
  rw [mergeWith, hput]
  simp only [hok₂, hok₃, bind, Except.bind, pure, Except.pure]
  split at hok' <;> rename_i hm
  · rw [if_pos hm, hok']
  · rw [if_neg hm]
    cases hok'
    rfl

namespace Passes

variable {s target : Section}

/-- A merge is a list of edits, each after what the target asks for. -/
theorem effects (p : Passes s target) : Effects (Aim target) s (p.set ++ p.removed ++ p.added ++ p.moved) p.after :=
  (((p.effects_set.mono fun _ _ h => h.1).trans (p.effects_removed.mono fun _ _ h => h.1)).trans
    (p.effects_added.mono fun _ _ h => h.1)).trans (p.effects_moved.mono fun _ _ h => h.1)

theorem mode_afterRemoved (p : Passes s target) : p.afterRemoved.mode = s.mode :=
  p.effects_removed.frame.2.1.trans p.effects_set.frame.2.1

/-- Where order means nothing, what is kept comes first, and then what is new. -/
theorem items_of_unordered (p : Passes s target) (ht : target.items.Nodup) (hmode : s.mode.isOrdered = false) :
    p.after.items =
      (s.items.filter fun item => item ∈ target.items) ++ target.items.filter fun item => item ∉ s.items := by
  have hplace : p.afterRemoved.mode.allowsPlacement = false := by
    rw [p.mode_afterRemoved]
    cases hm : s.mode <;> rw [hm] at hmode
    · rfl
    · cases hmode
    · rfl
  rw [(p.moved_eq_nil hmode).2, (insertMissing_at_end _ ht 0 _ (.inl hplace) p.insertMissing_eq).1, p.items_afterRemoved]
  congr 1
  refine List.filter_congr fun item hitem => ?_
  simp [hitem]

/-- The settings after a merge: those of the target over those of before. -/
theorem value?_after (p : Passes s target) (id : Identifier) (key : String) :
    p.after.value? id key = (target.value? id key).or (s.value? id key) := by
  have hvalue : p.after.value? id key = p.afterSet.value? id key := by
    rw [value?, value?, p.settings_eq]
  rw [hvalue, p.afterSet_eq, value?_putSettings _ target.settings.nodup_keys]
  rfl

/-- The identifiers that have settings after a merge: those of the target and those of before. -/
theorem isSome_after (p : Passes s target)
    (ht : ∀ id values, target.settings.get? id = some values → values.isEmpty = false) (id : Identifier) :
    (p.after.settings.get? id).isSome = ((target.settings.get? id).isSome || (s.settings.get? id).isSome) := by
  rw [p.settings_eq, p.afterSet_eq,
    isSome_putSettings _ fun e he => ht e.1 e.2 (Assoc.mem_entries_iff.1 he)]
  simp only [Assoc.get?, Option.isSome_map]

/-- The commands of the last three passes edit items. -/
theorem effects_items (p : Passes s target) :
    Effects (fun s command => Aim target s command ∧ ∀ id changed, command ≠ .set id changed) p.afterSet
      (p.removed ++ p.added ++ p.moved) p.after := by
  refine ((p.effects_removed.mono ?_).trans (p.effects_added.mono ?_)).trans (p.effects_moved.mono ?_)
  · rintro s command ⟨haim, index, rfl⟩
    exact ⟨haim, fun _ _ h => (nomatch h)⟩
  · rintro s command ⟨haim, item, before, rfl⟩
    exact ⟨haim, fun _ _ h => (nomatch h)⟩
  · rintro s command ⟨haim, index, before, rfl⟩
    exact ⟨haim, fun _ _ h => (nomatch h)⟩

/-- Nothing is taken out exactly if the target holds all that is there. -/
theorem removed_eq_nil_iff (p : Passes s target) : p.removed = [] ↔ ∀ item ∈ s.items, item ∈ target.items := by
  rw [← List.length_eq_zero_iff, p.length_removed, List.length_eq_zero_iff, List.filter_eq_nil_iff]
  simp

/-- Where nothing is taken out, the items are put in among those of before. -/
theorem items_afterRemoved_of_nil (p : Passes s target) (h : p.removed = []) : p.afterRemoved.items = s.items := by
  rw [p.items_afterRemoved, List.filter_eq_self]
  simpa using p.removed_eq_nil_iff.1 h

theorem nodup_afterAdded (p : Passes s target) (hs : s.items.Nodup) : p.afterAdded.items.Nodup :=
  p.effects_added.nodup (p.effects_removed.nodup (p.effects_set.nodup hs))

/-- The first new item of the target is put into its slot. -/
theorem added_eq (p : Passes s target) (hkeep : p.removed = []) {settled rest : List Item} {item : Item}
    (htarget : target.items = settled ++ item :: rest) (hsettled : ∀ item ∈ settled, item ∈ s.items)
    (hnew : item ∉ s.items) : ∃ more, p.added = .add item (p.afterRemoved.slotFor settled.length) :: more := by
  have hitems := p.items_afterRemoved_of_nil hkeep
  have hinsert := p.insertMissing_eq
  rw [htarget, insertMissing_append _ _ (by rwa [hitems]), Nat.zero_add, insertMissing_cons (by rwa [hitems])] at hinsert
  obtain ⟨⟨more, m⟩, -, hafter⟩ := bind_eq_ok_iff.1 hinsert
  exact ⟨more, (congrArg Prod.fst (Except.ok.inj hafter)).symm⟩

/-- Items that stand as in the target are not moved. -/
theorem moved_eq_nil_of_eq (p : Passes s target) (h : p.afterAdded.items = target.items) : p.moved = [] := by
  cases hmode : s.mode.isOrdered with
  | false => exact (p.moved_eq_nil hmode).1
  | true =>
    have hreorder := reorder_append [] target.items [] [] (s := p.afterAdded) (by simp [h])
    rw [List.append_nil, List.length_nil, p.reorder_eq hmode] at hreorder
    exact congrArg Prod.fst (Except.ok.inj hreorder)

/-- The first item that is moved is the first that does not stand as in the target. -/
theorem moved_eq (p : Passes s target) (hs : s.items.Nodup) (hmode : s.mode.isOrdered = true)
    {settled rest rest' : List Item} {other item : Item} (hadded : p.afterAdded.items = settled ++ other :: rest)
    (htarget : target.items = settled ++ item :: rest') (hne : other ≠ item) :
    ∃ index more, p.afterAdded.items[index]? = some item ∧ p.moved = .move index (some settled.length) :: more := by
  have hreorder := reorder_append [] settled (item :: rest') (other :: rest) (s := p.afterAdded) (by simp [hadded])
  have hthere : p.afterAdded.items[settled.length]? ≠ some item := by simp [hadded, hne]
  rw [← htarget, List.length_nil, p.reorder_eq hmode, List.nil_append, reorder, if_neg hthere] at hreorder
  obtain ⟨⟨command, m⟩, hmove, hrest⟩ := bind_eq_ok_iff.1 hreorder.symm
  obtain ⟨⟨more, m'⟩, -, hafter⟩ := bind_eq_ok_iff.1 hrest
  obtain ⟨-, -, index, hindex, rfl, -⟩ := (move_eq_ok_iff (p.nodup_afterAdded hs)).1 hmove
  have hlt : settled.length < p.afterAdded.items.length := by simp [hadded]
  refine ⟨index, more, hindex, (congrArg Prod.fst (Except.ok.inj hafter)).symm.trans ?_⟩
  simp [Option.filter, hlt]

end Passes

end RouterPlan.Section
