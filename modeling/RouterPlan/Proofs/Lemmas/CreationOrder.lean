import RouterPlan.Proofs.Lemmas.Registers
import RouterPlan.Proofs.Representation

/-!
# Sections in the order in which they were made

A section that is made gets the next number and is put at the end of the list of its parent. So every place lists the numbers below
it in ascending order, which is the order in which they were given out (`Register.Ascending`). Edits leave the lists alone, and each
operation is made of edits and of sections that are made: one lemma an operation, which also says that no number is taken back.
-/

namespace RouterPlan

namespace Place

variable {p p' : Place}

theorem children_editItems {α : Type} {edit : Section → Except IntegrityError (α × Section)} {result : α}
    (h : p.editItems edit = .ok (result, p')) : p'.children = p.children := by
  obtain ⟨⟨result, s⟩, -, hafter⟩ := bind_eq_ok_iff.1 h
  cases hafter
  rfl

theorem children_set (setting : Setting) (p : Place) : (p.set setting).2.children = p.children := by
  rw [set]
  split
  · split <;> rfl
  · rfl

theorem children_perform {command : Command} (h : p.perform command = .ok p') : p'.children = p.children := by
  cases command with
  | set target values =>
    cases h
    exact children_set _ p
  | _ =>
    obtain ⟨⟨result, s⟩, hedit, hafter⟩ := bind_eq_ok_iff.1 h
    cases hafter
    exact children_editItems hedit

theorem children_putSettings (settings : List Setting) (p : Place) : (putSettings settings p).2.children = p.children := by
  induction settings generalizing p with
  | nil => rfl
  | cons setting settings ih => exact (ih _).trans (children_set setting p)

theorem children_mergeWith {target : Section} {commands : List Command} (h : p.mergeWith target = .ok (commands, p')) :
    p'.children = p.children := by
  obtain ⟨⟨removed, p₁⟩, hremoved, h⟩ := bind_eq_ok_iff.1 h
  obtain ⟨⟨added, p₂⟩, hadded, h⟩ := bind_eq_ok_iff.1 h
  have hsecond : p₂.children = p.children := by
    rw [children_editItems hadded, children_editItems hremoved, children_putSettings]
  dsimp only at h
  split at h
  · obtain ⟨⟨moved, p₃⟩, hmoved, hafter⟩ := bind_eq_ok_iff.1 h
    cases hafter
    exact (children_editItems hmoved).trans hsecond
  · cases h
    exact hsecond

/-- An edit that leaves the list of a place alone leaves it alone as a step too. -/
theorem children_attempt {α : Type} {edit : Place → Except IntegrityError (α × Place)}
    (hedit : ∀ {p result p'}, edit p = .ok (result, p') → p'.children = p.children) (p : Place) :
    (attempt edit p).2.children = p.children := by
  rw [attempt]
  cases h : edit p with
  | error cause => rfl
  | ok result => exact hedit h

theorem children_load (command : Command) (p : Place) : (attempt (load command) p).2.children = p.children := by
  refine children_attempt (fun {p result p'} h => ?_) p
  obtain ⟨p₁, hperform, hafter⟩ := bind_eq_ok_iff.1 h
  cases hafter
  have hkept : p₁.children = p.children := children_perform hperform
  exact hkept

end Place

namespace Register

variable {r r' : Register} {id : Nat}

/-- Each place lists numbers that were given out, in the order in which they were. -/
def Ascending (r : Register) : Prop :=
  ∀ id, (r.place id).children.Pairwise (· < ·) ∧ ∀ child ∈ (r.place id).children, child < r.size

/-- A step after which lists still ascend, and all numbers are still there. -/
structure Ascends (r r' : Register) : Prop where
  ascending : r'.Ascending
  size : r.size ≤ r'.size

theorem Ascends.trans {r'' : Register} (h : r.Ascends r') (h' : r'.Ascends r'') : r.Ascends r'' :=
  ⟨h'.ascending, Nat.le_trans h.size h'.size⟩

theorem ascending_empty (order : OrderTable) : (empty order).Ascending := by
  intro id
  have hplace : ((empty order).place id).children = [] := by
    match id with
    | 0 => rfl
    | id + 1 => rfl
  rw [hplace]
  exact ⟨.nil, fun _ hchild => absurd hchild List.not_mem_nil⟩

namespace Ascending

theorem refl (h : r.Ascending) : r.Ascends r :=
  ⟨h, Nat.le_refl _⟩

theorem put (h : r.Ascending) {p : Place} (hchildren : p.children = (r.place id).children) : r.Ascends (r.put id p) := by
  refine ⟨fun j => ?_, Nat.le_of_eq (size_put r id p).symm⟩
  have hsame : ((r.put id p).place j).children = (r.place j).children := by
    by_cases hj : j = id
    · subst hj
      by_cases hlt : j < r.size
      · rw [place_put_self hlt, hchildren]
      · have hle : r.places.size ≤ j := Nat.le_of_not_lt hlt
        simp [Register.put, place, hle]
    · rw [place_put_of_ne hj]
  rw [hsame, size_put]
  exact h j

theorem editAt {β : Type} (h : r.Ascending) (id : Nat) {edit : Place → β × Place}
    (hedit : ∀ p, (edit p).2.children = p.children) : r.Ascends (r.editAt id edit).2 :=
  h.put (hedit _)

/-- A section that is made has the largest number, and is listed last. -/
theorem addChild (h : r.Ascending) (hid : id < r.size) (name : String) : r.Ascends (r.addChild id name) := by
  refine ⟨fun j => ?_, by simp⟩
  have hlt : ∀ child ∈ (r.place j).children, child < r.size := (h j).2
  rw [size_addChild]
  by_cases hj : j < r.size
  · rw [children_addChild hid hj]
    split
    · refine ⟨List.pairwise_append.2 ⟨(h j).1, List.pairwise_singleton _ _, fun child hchild new hnew => ?_⟩, fun child hchild => ?_⟩
      · exact List.mem_singleton.1 hnew ▸ hlt child hchild
      · rcases List.mem_append.1 hchild with hchild | hchild
        · exact Nat.lt_succ_of_lt (hlt child hchild)
        · exact List.mem_singleton.1 hchild ▸ Nat.lt_succ_self _
    · exact ⟨(h j).1, fun child hchild => Nat.lt_succ_of_lt (hlt child hchild)⟩
  · have hnew : ((r.addChild id name).place j).children = [] := by
      by_cases hsize : j = r.size
      · rw [hsize, place_addChild_size hid]
        rfl
      · have hle : (r.addChild id name).places.size ≤ j := by
          have hsizes : (r.addChild id name).places.size = r.size + 1 := size_addChild r id name
          omega
        rw [place, Array.getElem?_eq_none hle]
        rfl
    rw [hnew]
    exact ⟨.nil, fun _ hchild => absurd hchild List.not_mem_nil⟩

theorem ensureChild (h : r.Ascending) (hid : id < r.size) (name : String) :
    r.Ascends (r.ensureChild id name).2 ∧ (r.ensureChild id name).1 < (r.ensureChild id name).2.size := by
  rw [Register.ensureChild]
  cases hchild : r.child? id name with
  | none => exact ⟨h.addChild hid name, by simp⟩
  | some child => exact ⟨h.refl, (h id).2 child (List.mem_of_find?_eq_some hchild)⟩

theorem ensureFrom (h : r.Ascending) (hid : id < r.size) (names : List String) : r.Ascends (ensureFrom names id r).2 := by
  induction names generalizing r id with
  | nil => exact h.refl
  | cons name names ih =>
    obtain ⟨hascends, hlt⟩ := h.ensureChild hid name
    exact hascends.trans (ih hascends.ascending hlt)

theorem ensure (h : r.Ascending) (hpos : 0 < r.size) (path : Path) : r.Ascends (r.ensure path).2 :=
  h.ensureFrom hpos path.segments

theorem load (h : r.Ascending) (hpos : 0 < r.size) (path : Path) (command : Command) : r.Ascends (r.load path command).2 :=
  (h.ensure hpos path).trans ((h.ensure hpos path).ascending.editAt _ (Place.children_load command))

theorem loadEach (h : r.Ascending) (id : Nat) (commands : List Command) : r.Ascends (r.loadEach id commands).2 := by
  induction commands generalizing r with
  | nil => exact h.refl
  | cons command commands ih =>
    have hfirst := h.editAt id (Place.children_load command)
    rw [Register.loadEach]
    split
    · rename_i hload
      rw [hload] at hfirst
      exact hfirst.trans (ih hfirst.ascending)
    · rename_i hload
      rwa [hload] at hfirst

theorem loadBatches (h : r.Ascending) (hpos : 0 < r.size) (batches : List Batch) : r.Ascends (r.loadBatches batches).2 := by
  induction batches generalizing r with
  | nil => exact h.refl
  | cons batch batches ih =>
    rw [Register.loadBatches]
    split
    · exact ih h hpos
    · have hmade := h.ensure hpos batch.path
      rcases hensure : r.ensure batch.path with ⟨id, r₁⟩
      rw [hensure] at hmade
      have hloaded := hmade.trans (hmade.ascending.loadEach id batch.commands)
      dsimp only
      split
      · rename_i heach
        rw [heach] at hloaded
        exact hloaded.trans (ih hloaded.ascending (Nat.lt_of_lt_of_le hpos hloaded.size))
      · rename_i heach
        rwa [heach] at hloaded

theorem apply (h : r.Ascending) (hpos : 0 < r.size) {script : Script} (hok : r.apply script = .ok r') : r.Ascends r' := by
  have hreplay : r.Ascends (r.replay script).2 := h.loadBatches hpos script.batches
  rw [Register.apply] at hok
  split at hok
  · rename_i hscript
    cases hok
    rwa [hscript] at hreplay
  · cases hok

theorem follow (h : r.Ascending) (hpos : 0 < r.size) {s : Statement} (hok : r.follow s = .ok r') : r.Ascends r' := by
  rw [Register.follow] at hok
  split at hok
  · cases hok
  · cases hok
    exact ⟨h, Nat.le_refl _⟩
  · cases hok
    exact h.ensure hpos s.path
  · cases hok
    exact h.refl
  · rename_i command _
    have hload := h.load hpos s.path command
    split at hok
    · rename_i hs
      cases hok
      rwa [hs] at hload
    · cases hok

end Ascending

theorem ascending_of_read {order : OrderTable} {text : String} (hok : read order text = .ok r) : r.Ascending :=
  (foldlM_keeps (P := fun r => r.Ascending ∧ 0 < r.size)
    (fun _ _ _ hr hok =>
      ⟨(hr.1.follow hr.2 hok).ascending, Nat.lt_of_lt_of_le hr.2 (hr.1.follow hr.2 hok).size⟩)
    ⟨ascending_empty order, Nat.one_pos⟩ hok).1

theorem Ascending.mergeBelow (h : r.Ascending) (hid : id < r.size) {targets : Forest Section} {batches : Forest Batch}
    (hok : Register.mergeBelow targets id r = .ok (batches, r')) : r.Ascends r' := by
  induction targets generalizing r id batches r' with
  | nil =>
    cases hok
    exact h.refl
  | cons target below rest ihBelow ihRest =>
    rw [Register.mergeBelow] at hok
    split at hok
    · exact ihRest h hid hok
    · rename_i name _
      obtain ⟨hmade, hchild⟩ := h.ensureChild hid name
      obtain ⟨⟨commands, p⟩, hmerge, hok⟩ := bind_eq_ok_iff.1 hok
      obtain ⟨⟨batches, r₁⟩, hbelow, hok⟩ := bind_eq_ok_iff.1 hok
      obtain ⟨⟨siblings, r₂⟩, hrest, hafter⟩ := bind_eq_ok_iff.1 hok
      cases hafter
      have hput := hmade.trans (hmade.ascending.put (Place.children_mergeWith hmerge))
      have hdown := hput.trans (ihBelow hput.ascending (by rwa [size_put]) hbelow)
      exact hdown.trans (ihRest hdown.ascending (Nat.lt_of_lt_of_le hid hdown.size) hrest)

theorem Ascending.merge (h : r.Ascending) (hpos : 0 < r.size) {target : Configuration} {script : Script}
    (hok : r.merge target = .ok (script, r')) : r.Ascends r' := by
  obtain ⟨⟨commands, p⟩, hmerge, hok⟩ := bind_eq_ok_iff.1 hok
  obtain ⟨⟨batches, r₁⟩, hbelow, hafter⟩ := bind_eq_ok_iff.1 hok
  cases hafter
  have hput := h.put (Place.children_mergeWith hmerge)
  exact hput.trans (hput.ascending.mergeBelow (Nat.lt_of_lt_of_le hpos hput.size) hbelow)

/-- In every reachable register the lists are in the order in which the sections were made. -/
theorem Reachable.ascending (h : r.Reachable) : r.Ascending := by
  have hpos : ∀ {r : Register}, r.Reachable → 0 < r.size := fun hr => (representation_invariant hr).1.1
  induction h with
  | empty order => exact ascending_empty order
  | read hok => exact ascending_of_read hok
  | setVersion version _ ih => exact ih
  | ensure path hr ih => exact (ih.ensure (hpos hr) path).ascending
  | ensureChild hid name _ ih => exact (ih.ensureChild hid name).1.ascending
  | insert hid item destination _ ih =>
    exact (ih.editAt _ (Place.children_attempt Place.children_editItems)).ascending
  | delete hid item _ ih => exact (ih.editAt _ (Place.children_attempt Place.children_editItems)).ascending
  | move hid item destination _ ih =>
    exact (ih.editAt _ (Place.children_attempt Place.children_editItems)).ascending
  | set hid setting _ ih => exact (ih.editAt _ (Place.children_set setting)).ascending
  | load hid command _ ih => exact (ih.editAt _ (Place.children_load command)).ascending
  | merge hr _ hok ih => exact (ih.merge (hpos hr) hok).ascending
  | replay script hr ih => exact (ih.loadBatches (hpos hr) script.batches).ascending
  | apply hr hok ih => exact (ih.apply (hpos hr) hok).ascending

end Register

end RouterPlan
