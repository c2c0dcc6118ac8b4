import RouterPlan.Cli.Program
import RouterPlan.Proofs.Lemmas.Locations
import RouterPlan.Proofs.Lemmas.Runs
import RouterPlan.Proofs.Lemmas.Words

/-!
# Runs on a disk

A write fails and changes nothing, or it puts a file where no directory stands (`write_cases`). The directories are then as they were, so
every location leads where it led before (`find_put`). A run that only looks changes nothing either, and something is known of what
it gives (`Run.Looks`).
-/

namespace RouterPlan

namespace Disk

variable {disk : Disk} {place other : List String} {location text : String} {node : Node}

/-! ## Writes -/

theorem lookup_cons (key other : List String) (node : Node) (nodes : List (List String × Node)) :
    ((key, node) :: nodes).lookup other = if other = key then some node else nodes.lookup other := by
  by_cases h : other = key
  · rw [h, List.lookup_cons_self, if_pos rfl]
  · rw [List.lookup_cons, beq_eq_false_iff_ne.2 h, if_neg h]

/-- Giving the entries of a place another node changes what is looked up there. -/
theorem lookup_map (nodes : List (List String × Node)) (place other : List String) (node : Node) :
    (nodes.map fun entry => if entry.1 == place then (place, node) else entry).lookup other =
      if other = place then (nodes.lookup place).map fun _ => node else nodes.lookup other := by
  induction nodes with
  | nil => simp
  | cons entry nodes ih =>
    obtain ⟨key, found⟩ := entry
    rw [List.map_cons]
    by_cases hkey : key = place
    · subst hkey
      rw [if_pos (beq_self_eq_true key), lookup_cons, lookup_cons, lookup_cons, ih, if_pos rfl]
      by_cases hother : other = key
      · simp [hother]
      · simp [hother]
    · rw [if_neg (by simpa using hkey), lookup_cons, lookup_cons, lookup_cons, ih, if_neg (Ne.symm hkey)]
      by_cases hother : other = key
      · simp [hother, hkey]
      · simp [hother]

/-- What is looked up after something was put at a place. -/
theorem lookup_put (disk : Disk) (place other : List String) (node : Node) :
    (disk.put place node).nodes.lookup other = if other = place then some node else disk.nodes.lookup other := by
  rw [put]
  cases hfound : disk.nodes.lookup place with
  | some found =>
    rw [if_pos Option.isSome_some, lookup_map, hfound]
    rfl
  | none =>
    rw [if_neg (by simp), List.lookup_append, lookup_cons]
    by_cases hother : other = place
    · simp [hother, hfound]
    · simp [hother]

theorem home_put (disk : Disk) (place : List String) (node : Node) : (disk.put place node).home = disk.home := by
  unfold put
  split <;> rfl

/-- After something is put at a place that is no directory, the other places are as before. -/
theorem node?_put (h : disk.node? place ≠ some .directory) (node : Node) (other : List String) :
    (disk.put place node).node? other = if other = place then some node else disk.node? other := by
  have hplace : ¬place.isPrefixOf disk.home = true := fun hprefix => h (if_pos hprefix)
  rw [node?, node?, home_put, lookup_put]
  by_cases hother : other = place
  · rw [hother, if_neg hplace, if_pos rfl, if_pos rfl]
  · rw [if_neg hother, if_neg hother]

/-- A file in a place that is no directory changes no way. -/
theorem follow_put (h : disk.node? place ≠ some .directory) (text : Option String) (start : List String) (ps : List String) :
    (disk.put place (.file text)).follow start ps = .ok other ↔ disk.follow start ps = .ok other := by
  induction ps generalizing start with
  | nil => rfl
  | cons part ps ih =>
    have hdirectory : (disk.put place (.file text)).node? start = some .directory ↔ disk.node? start = some .directory := by
      rw [node?_put h]
      by_cases heq : start = place
      · simp [heq, h]
      · rw [if_neg heq]
    rw [follow_cons_iff, follow_cons_iff, hdirectory, ih]

/-- What a location leads to is found if something stands there. -/
theorem find_eq_ok_iff : disk.find location = .ok (place, node) ↔ disk.locate location = .ok place ∧ disk.node? place = some node := by
  rw [find, bind_eq_ok_iff]
  constructor
  · rintro ⟨place', hlocate, hfound⟩
    cases hnode : disk.node? place' with
    | none =>
      rw [hnode] at hfound
      cases hfound
    | some node' =>
      rw [hnode] at hfound
      cases hfound
      exact ⟨hlocate, hnode⟩
  · rintro ⟨hlocate, hnode⟩
    refine ⟨place, hlocate, ?_⟩
    rw [hnode]
    rfl

theorem locate_put (h : disk.node? place ≠ some .directory) (text : Option String) :
    (disk.put place (.file text)).locate location = .ok other ↔ disk.locate location = .ok other := by
  rw [locate, locate, home_put]
  split
  · rfl
  · exact follow_put h text _ _

/-- What was there is there again, and the place of the file holds the file. -/
theorem find_put (h : disk.node? place ≠ some .directory) (text : Option String) (hfind : disk.find location = .ok (other, node)) :
    (disk.put place (.file text)).find location = .ok (other, if other = place then .file text else node) := by
  obtain ⟨hlocate, hnode⟩ := find_eq_ok_iff.1 hfind
  rw [find_eq_ok_iff, locate_put h, node?_put h, hnode]
  refine ⟨hlocate, ?_⟩
  split <;> rfl

/-- A location without slashes at its end has none to leave out. -/
theorem withoutEndSlashes_eq (h : location.endsWith "/" = false) : Location.withoutEndSlashes location = location := by
  have hlast : location.toList.reverse.dropWhile (· == '/') = location.toList.reverse := by
    refine Text.dropWhile_eq_self fun c hc => beq_eq_false_iff_ne.2 ?_
    rintro rfl
    refine Bool.eq_false_iff.1 h ((endsWith_slash_iff location).2 ?_)
    rwa [List.head?_reverse] at hc
  rw [Location.withoutEndSlashes, hlast, List.reverse_reverse, String.ofList_toList]
  exact ite_self location

/-- A write fails and changes nothing, or it puts the text at the place of the location. -/
theorem write_cases (disk : Disk) (location text : String) :
    (∃ cause, disk.write location text = (.error cause, disk)) ∨
      ∃ place, disk.locate location = .ok place ∧ disk.node? place ≠ some .directory ∧
        disk.write location text = (.ok (), disk.put place (.file (some text))) := by
  cases hslash : location.endsWith "/" with
  | true =>
    refine .inl ?_
    rw [write]
    split
    · exact ⟨_, rfl⟩
    · rename_i place _
      rw [hslash]
      cases disk.node? place with
      | none => exact ⟨_, rfl⟩
      | some node => cases node <;> exact ⟨_, rfl⟩
  | false =>
    rw [write, withoutEndSlashes_eq hslash, hslash]
    split
    · exact .inl ⟨_, rfl⟩
    · rename_i place hplace
      obtain ⟨-, -, hlocate⟩ := bind_eq_ok_iff.1 hplace
      cases hnode : disk.node? place with
      | none => exact .inr ⟨place, hlocate, by simp [hnode], rfl⟩
      | some node =>
        cases node with
        | directory => exact .inl ⟨_, rfl⟩
        | file found => exact .inr ⟨place, hlocate, by simp [hnode], rfl⟩

/-- A file that is read is found. -/
theorem find_of_read (h : disk.read location = .ok text) : ∃ place, disk.find location = .ok (place, .file (some text)) := by
  rw [read] at h
  obtain ⟨-, -, h⟩ := bind_eq_ok_iff.1 h
  obtain ⟨⟨place, node⟩, hfind, h⟩ := bind_eq_ok_iff.1 h
  cases node with
  | directory => cases h
  | file found =>
    cases found with
    | none => cases h
    | some found =>
      cases h
      exact ⟨place, hfind⟩

/-- Where a place is found, its text is the one of that place. -/
theorem exists_of_resolve (h : disk.resolve location = .ok text) :
    ∃ place node, disk.find location = .ok (place, node) ∧ text = placeText place := by
  obtain ⟨found, hfind, htext⟩ := bind_eq_ok_iff.1 h
  cases htext
  exact ⟨found.1, found.2, hfind, rfl⟩

/-- The text of a place leads to no other text. -/
theorem eq_of_resolve_placeText (hplace : ∀ name ∈ place, IsName name) (h : disk.resolve (placeText place) = .ok text) :
    text = placeText place := by
  obtain ⟨place', node, hfind, rfl⟩ := exists_of_resolve h
  exact congrArg placeText (eq_of_locate_placeText hplace (find_eq_ok_iff.1 hfind).1)

/-- What is found has the text of its place. -/
theorem resolve_of_find (h : disk.find location = .ok (place, node)) : disk.resolve location = .ok (placeText place) := by
  rw [resolve, h]
  rfl

theorem run_read (disk : Disk) (location : String) : (files.read location).run disk = (disk.read location, disk) :=
  rfl

theorem run_resolve (disk : Disk) (location : String) : (files.resolve location).run disk = (disk.resolve location, disk) :=
  rfl

theorem run_write (disk : Disk) (location text : String) : (files.write location text).run disk = disk.write location text :=
  rfl

end Disk

namespace Run

variable {σ ε α β : Type} {run : Run (StateM σ) ε α} {s : σ} {result : Except ε α} {P : α → Prop}

/-! ## Runs that only look -/

/-- The run changes nothing, and it fails or gives something of which `P` holds. -/
def Looks (run : Run (StateM σ) ε α) (s : σ) (P : α → Prop) : Prop :=
  (∃ cause, run.Ends s (.error cause) s) ∨ ∃ a, P a ∧ run.Ends s (.ok a) s

theorem Ends.looks (h : run.Ends s result s) : run.Looks s fun a => result = .ok a := by
  cases result with
  | error cause => exact .inl ⟨cause, h⟩
  | ok a => exact .inr ⟨a, rfl, h⟩

theorem Looks.bind {Q : β → Prop} {f : α → Run (StateM σ) ε β} (h : run.Looks s P) (h' : ∀ a, P a → (f a).Looks s Q) :
    (run >>= f).Looks s Q := by
  rcases h with ⟨cause, hends⟩ | ⟨a, ha, hends⟩
  · exact .inl ⟨cause, hends.bind_error⟩
  · rcases h' a ha with ⟨cause, hrest⟩ | ⟨b, hb, hrest⟩
    · exact .inl ⟨cause, hends.bind hrest⟩
    · exact .inr ⟨b, hb, hends.bind hrest⟩

theorem Looks.imp {Q : α → Prop} (h : run.Looks s P) (h' : ∀ a, P a → Q a) : run.Looks s Q :=
  Or.imp_right (Exists.imp fun a => And.imp_left (h' a)) h

theorem Looks.pure {a : α} (h : P a) (s : σ) : (Pure.pure a : Run (StateM σ) ε α).Looks s P :=
  .inr ⟨a, h, .pure a s⟩

theorem Looks.ite {c : Prop} [Decidable c] {run' : Run (StateM σ) ε α} (h : c → run.Looks s P) (h' : ¬c → run'.Looks s P) :
    (if c then run else run').Looks s P := by
  split
  · exact h ‹c›
  · exact h' ‹¬c›

/-- What each round of a loop makes sure of holds after the loop. -/
theorem looks_forIn {ι : Type} {body : ι → PUnit → Run (StateM σ) ε (ForInStep PUnit)} {Q : ι → Prop} {l : List ι}
    (h : ∀ i ∈ l, (body i ⟨⟩).Looks s fun step => step = .yield ⟨⟩ ∧ Q i) :
    (forIn l (⟨⟩ : PUnit) body).Looks s fun _ => ∀ i ∈ l, Q i := by
  induction l with
  | nil => exact .pure (List.forall_mem_nil Q) s
  | cons i l ih =>
    obtain ⟨hi, hl⟩ := List.forall_mem_cons.1 h
    rw [List.forIn_cons]
    refine hi.bind fun step hstep => ?_
    obtain ⟨rfl, hQ⟩ := hstep
    exact (ih hl).imp fun _ hrest => List.forall_mem_cons.2 ⟨hQ, hrest⟩

/-- A failure told otherwise. -/
theorem Ends.mapError {ε' : Type} {s' : σ} (h : run.Ends s result s') (f : ε → ε') : (mapError f run).Ends s (result.mapError f) s' := by
  intro journal
  obtain ⟨journal', hrun⟩ := h journal
  refine ⟨journal', ?_⟩
  have hmap : ((ExceptT.run (Run.mapError f run)).run journal).run s =
      (fun ended => ((ended.1.1.mapError f, ended.1.2), ended.2)) <$> ((ExceptT.run run).run journal).run s := rfl
  rw [hmap, hrun]
  rfl

end Run

end RouterPlan
