import RouterPlan.Proofs.Lemmas.MergeSection

/-!
# What the commands of a merge are about

Positions mean something only in the list as it stands when a command runs. `Section.trace` carries commands out one after the
other and notes the item that each of them is about at that moment. Main statements: the deletions of a merge are about the items
that they are found for (`trace_deleteAll`), the insertions about the items that are missing (`trace_insertMissing`), and each move
of the scan is about another item of the target, which it brings forward to a place behind those of the moves before it
(`exists_moves`).
-/

namespace RouterPlan.Section

/-- The item that a command is about in the section where it is carried out; a setting is about none. -/
def subject? (s : Section) : Command → Option Item
  | .add values _ => some values
  | .remove index => s.items[index]?
  | .move index _ => s.items[index]?
  | .set _ _ => none

/-- Carries out commands one after the other. Gives what each of them is about when its turn comes, and the section after all. -/
def trace : List Command → Section → Except IntegrityError (List (Option Item) × Section)
  | [], s => .ok ([], s)
  | command :: commands, s => do
    let (subjects, s') ← trace commands (← s.perform command)
    return (s.subject? command :: subjects, s')

variable {s m s' : Section} {commands more : List Command}

/-- A command that an edit returned is carried out before those after it. -/
theorem trace_cons {command : Command} {subjects : List (Option Item)} (hn : s.items.Nodup) (he : s.Effect command m)
    (h : trace commands m = .ok (subjects, s')) :
    trace (command :: commands) s = .ok (s.subject? command :: subjects, s') := by
  rw [trace, he.perform hn]
  simp only [bind, Except.bind, h]
  rfl

/-- One list of commands after the other. -/
theorem trace_append {subjects subjects' : List (Option Item)} (h : trace commands s = .ok (subjects, m))
    (h' : trace more m = .ok (subjects', s')) : trace (commands ++ more) s = .ok (subjects ++ subjects', s') := by
  induction commands generalizing s subjects with
  | nil =>
    cases h
    exact h'
  | cons command commands ih =>
    obtain ⟨next, hnext, h⟩ := bind_eq_ok_iff.1 h
    obtain ⟨⟨rest, end'⟩, hrest, hafter⟩ := bind_eq_ok_iff.1 h
    cases hafter
    rw [List.cons_append, trace, hnext]
    simp only [bind, Except.bind, ih hrest]
    rfl

/-- A trace has an entry for each command. -/
theorem length_of_trace {subjects : List (Option Item)} (h : trace commands s = .ok (subjects, s')) :
    subjects.length = commands.length := by
  induction commands generalizing s subjects with
  | nil =>
    cases h
    rfl
  | cons command commands ih =>
    obtain ⟨next, -, h⟩ := bind_eq_ok_iff.1 h
    obtain ⟨⟨rest, end'⟩, hrest, hafter⟩ := bind_eq_ok_iff.1 h
    cases hafter
    rw [List.length_cons, List.length_cons, ih hrest]

/-! ## Settings -/

/-- What a setting changes depends only on what is there for its identifier. -/
theorem command_set_congr {id : Identifier} (h : s.settings.get? id = m.settings.get? id) (values : Values) :
    (s.set id values).1 = (m.set id values).1 := by
  unfold set
  rw [h]
  dsimp only
  split <;> rfl

/-- A setting leaves those of other identifiers alone. -/
theorem get?_set_of_ne {target id : Identifier} (h : id ≠ target) (values : Values) :
    (s.set target values).2.settings.get? id = s.settings.get? id := by
  rcases s.set_cases target values with ⟨hset, -⟩ | ⟨changed, -, -, hset⟩
  · rw [hset]
  · rw [hset]
    simp only [Assoc.get?_insert_eq, if_neg h]

/-- The commands for settings are those that the settings would give alone. -/
theorem commands_putSettings (settings : List (Identifier × Values)) (hn : (settings.map (·.1)).Nodup) (s : Section) :
    (putSettings settings s).1 = settings.filterMap fun entry => (s.set entry.1 entry.2).1 := by
  induction settings generalizing s with
  | nil => rfl
  | cons entry settings ih =>
    obtain ⟨target, values⟩ := entry
    obtain ⟨hfirst, hrest⟩ := List.nodup_cons.1 hn
    have hput : (putSettings ((target, values) :: settings) s).1 =
        (s.set target values).1.toList ++ (putSettings settings (s.set target values).2).1 := rfl
    have hsame : (settings.filterMap fun entry => ((s.set target values).2.set entry.1 entry.2).1) =
        settings.filterMap fun entry => (s.set entry.1 entry.2).1 := by
      refine List.filterMap_congr fun entry hentry => ?_
      have hne : entry.1 ≠ target := fun heq => hfirst (List.mem_map.2 ⟨entry, hentry, heq⟩)
      exact command_set_congr (get?_set_of_ne hne values) entry.2
    rw [hput, ih hrest, hsame, List.filterMap_cons]
    cases (s.set target values).1 <;> rfl

/-- The new values of a setting: those that differ from what is there, if there are any. -/
def changed? (s : Section) (entry : Identifier × Values) : Option (Identifier × Values) :=
  match (s.set entry.1 entry.2).1 with
  | some (.set id changed) => some (id, changed)
  | _ => none

/-- The new values are those of the keys whose value is missing or another one. -/
theorem changed?_eq_some_iff {entry : Identifier × Values} {id : Identifier} {changed : Values} :
    s.changed? entry = some (id, changed) ↔ changed.isEmpty = false ∧ id = entry.1 ∧
      ∀ key, changed.get? key = (entry.2.get? key).filter fun value => s.value? id key != some value := by
  rcases s.set_cases entry.1 entry.2 with ⟨hset, hsame⟩ | ⟨new, hne, hget, hset⟩
  · rw [changed?, hset]
    constructor
    · intro h
      cases h
    · rintro ⟨hne, rfl, hkeys⟩
      obtain ⟨key, value, hvalue⟩ := Assoc.isEmpty_eq_false_iff.1 hne
      rw [hkeys, Option.filter_eq_some_iff] at hvalue
      have hdiffers := hvalue.2
      rw [hsame key value hvalue.1] at hdiffers
      simp at hdiffers
  · rw [changed?, hset]
    simp only [Option.some.injEq, Prod.mk.injEq]
    constructor
    · rintro ⟨rfl, rfl⟩
      exact ⟨hne, rfl, hget⟩
    · rintro ⟨-, rfl, hkeys⟩
      exact ⟨rfl, Assoc.ext_get? fun key => by rw [hget, hkeys]⟩

/-- The command for a setting sets its new values. -/
theorem command_set_eq (entry : Identifier × Values) :
    (s.set entry.1 entry.2).1 = (s.changed? entry).map fun e => .set e.1 e.2 := by
  rcases s.set_cases entry.1 entry.2 with ⟨hset, -⟩ | ⟨new, -, -, hset⟩ <;> rw [changed?, hset] <;> rfl

/-- Commands that set values are about no items. -/
theorem trace_sets {φ : Section → Command → Prop} (hφ : ∀ s command, φ s command → ∃ id changed, command = .set id changed)
    (hn : s.items.Nodup) (h : Effects φ s commands s') : trace commands s = .ok (commands.map fun _ => none, s') := by
  induction h with
  | refl s => rfl
  | @step s m s' command commands hcommand he _ ih =>
    obtain ⟨id, changed, rfl⟩ := hφ s command hcommand
    exact trace_cons hn he (ih (he.nodup hn))

/-! ## Deletions -/

/-- Each deletion is about the item that it is found for. -/
theorem trace_deleteAll {items : List Item} (hn : s.items.Nodup) (h : deleteAll items s = .ok (commands, s')) :
    trace commands s = .ok (items.map some, s') ∧ ∃ indices : List Nat, commands = indices.map .remove := by
  induction items generalizing s commands with
  | nil =>
    cases h
    exact ⟨rfl, [], rfl⟩
  | cons item items ih =>
    obtain ⟨⟨command, m⟩, hdelete, h⟩ := bind_eq_ok_iff.1 h
    obtain ⟨⟨commands, m'⟩, hrest, hafter⟩ := bind_eq_ok_iff.1 h
    cases hafter
    have he := effect_of_delete hn hdelete
    obtain ⟨index, hindex, rfl, -⟩ := (delete_eq_ok_iff hn).1 hdelete
    obtain ⟨htrace, indices, rfl⟩ := ih (he.nodup hn) hrest
    have hcons := trace_cons hn he htrace
    rw [subject?, hindex] at hcons
    exact ⟨hcons, index :: indices, rfl⟩

/-! ## Insertions -/

/-- The insertions are about the items that are missing. A position is named only where items may be placed. -/
theorem trace_insertMissing {items : List Item} (hitems : items.Nodup) {position : Nat} (hn : s.items.Nodup)
    (h : insertMissing position items s = .ok (commands, s')) :
    trace commands s = .ok ((items.filter fun item => item ∉ s.items).map some, s') ∧
      ∃ adds : List (Item × Option Nat), commands = adds.map (fun add => .add add.1 add.2) ∧
        (adds.map (·.1) = items.filter fun item => item ∉ s.items) ∧
        ∀ add ∈ adds, add.2.isSome = true → s.mode.allowsPlacement = true := by
  induction items generalizing position s commands with
  | nil =>
    cases h
    exact ⟨rfl, [], rfl, rfl, List.forall_mem_nil _⟩
  | cons item items ih =>
    obtain ⟨hfirst, hrest⟩ := List.nodup_cons.1 hitems
    by_cases hmem : item ∈ s.items
    · rw [insertMissing, if_pos (by simpa using hmem)] at h
      simpa [hmem] using ih hrest hn h
    · have he : s.Effect (.add item (s.slotFor position))
          { s with items := placeItem s.items item (s.slotFor position) } :=
        effect_of_insert (insert_slotFor position hmem)
      have hslot : ∀ d, s.slotFor position = some d → s.mode.allowsPlacement = true ∧ d ≤ s.items.length := by
        intro d hd
        obtain ⟨hmode, hlt, rfl⟩ := slotFor_eq_some_iff.1 hd
        exact ⟨hmode, by omega⟩
      rw [insertMissing_cons hmem] at h
      obtain ⟨⟨commands, m⟩, hok, hafter⟩ := bind_eq_ok_iff.1 h
      cases hafter
      obtain ⟨htrace, adds, rfl, hadded, hplaced⟩ := ih hrest (he.nodup hn) hok
      have hsame : (items.filter fun a => a ∉ placeItem s.items item (s.slotFor position)) =
          items.filter fun a => a ∉ s.items := by
        refine List.filter_congr fun a ha => ?_
        have hne : a ≠ item := fun heq => hfirst (heq ▸ ha)
        simp [mem_placeItem fun d hd => (hslot d hd).2, hne]
      simp only [hsame] at htrace hadded
      have hfilter : ((item :: items).filter fun a => a ∉ s.items) = item :: items.filter fun a => a ∉ s.items :=
        List.filter_cons_of_pos (by simpa using hmem)
      rw [hfilter]
      refine ⟨trace_cons hn he htrace, (item, s.slotFor position) :: adds, rfl, by rw [List.map_cons, hadded], ?_⟩
      refine List.forall_mem_cons.2 ⟨fun hsome => ?_, hplaced⟩
      obtain ⟨d, hd⟩ := Option.isSome_iff_exists.1 hsome
      exact (hslot d hd).1

/-! ## Moves -/

/-- The scan from `settled` on moves items of the target, each at most once, and not all of them. Each goes forward, to a place
behind the one before it. -/
theorem exists_moves {items rest : List Item} (settled : List Item) (hmode : s.mode.isOrdered = true) (hn : s.items.Nodup)
    (hs : s.items = settled ++ rest) (hperm : rest.Perm items) (h : reorder settled.length items s = .ok (commands, s')) :
    ∃ moved : List Item, ∃ moves : List (Nat × Nat), commands = moves.map (fun move => .move move.1 (some move.2)) ∧
      trace commands s = .ok (moved.map some, s') ∧ moved.Sublist items ∧ moves.length ≤ items.length - 1 ∧
      (∀ move ∈ moves, settled.length ≤ move.2 ∧ move.2 < move.1) ∧ (moves.map (·.2)).Pairwise (· < ·) := by
  induction items generalizing settled rest s commands with
  | nil =>
    cases h
    exact ⟨[], [], rfl, rfl, .refl _, Nat.le_refl 0, List.forall_mem_nil _, .nil⟩
  | cons item items ih =>
    rcases reorder_cons hmode hn hs hperm with ⟨rest', rfl, hperm', hpass⟩ | ⟨skipped, rest', hskipped, rfl, hperm', he, hpass⟩
    · rw [hpass, ← List.length_singleton (a := item), ← List.length_append] at h
      obtain ⟨moved, moves, hcommands, htrace, hsub, hlen, hplaces, hascend⟩ := ih (settled ++ [item]) hmode hn (by simp [hs]) hperm' h
      refine ⟨moved, moves, hcommands, htrace, hsub.cons item, ?_, fun move hmove => ?_, hascend⟩
      · rw [List.length_cons]
        omega
      · obtain ⟨hle, hlt⟩ := hplaces move hmove
        rw [List.length_append] at hle
        exact ⟨by omega, hlt⟩
    · rw [hpass, ← List.length_singleton (a := item), ← List.length_append] at h
      obtain ⟨⟨commands, m⟩, hok, hafter⟩ := bind_eq_ok_iff.1 h
      cases hafter
      obtain ⟨moved, moves, rfl, htrace, hsub, hlen, hplaces, hascend⟩ :=
        ih (s := { s with items := settled ++ item :: (skipped ++ rest') }) (settled ++ [item]) hmode (he.nodup hn) (by simp) hperm' hok
      have hpos : 0 < skipped.length := List.length_pos_iff.2 hskipped
      have hsubject : s.subject? (.move (settled ++ skipped).length (some settled.length)) = some item := by
        simp [subject?, hs]
      have hcons := trace_cons hn he htrace
      rw [hsubject] at hcons
      have hbehind : ∀ move ∈ moves, settled.length < move.2 := by
        intro move hmove
        have hle := (hplaces move hmove).1
        rw [List.length_append, List.length_singleton] at hle
        omega
      refine ⟨item :: moved, ((settled ++ skipped).length, settled.length) :: moves, rfl, hcons, hsub.cons_cons item, ?_, ?_, ?_⟩
      · -- what is skipped stands in the target behind the item, so this is not the last one
        have hrest := hperm'.length_eq
        rw [List.length_append] at hrest
        rw [List.length_cons, List.length_cons]
        omega
      · refine List.forall_mem_cons.2 ⟨⟨Nat.le_refl _, ?_⟩, fun move hmove => ?_⟩
        · rw [List.length_append]
          omega
        · exact ⟨Nat.le_of_lt (hbehind move hmove), (hplaces move hmove).2⟩
      · refine List.pairwise_cons.2 ⟨fun place hplace => ?_, hascend⟩
        obtain ⟨move, hmove, rfl⟩ := List.mem_map.1 hplace
        exact hbehind move hmove

end RouterPlan.Section
