import Mathlib.Algebra.Order.BigOperators.Group.List
import RouterPlan.Proofs.Lemmas.CheckedEdits
import RouterPlan.Proofs.Lemmas.CheckedTexts
import RouterPlan.Proofs.Lemmas.InPlace

/-!
# Runs of checked edits

What holds of the edits of a section holds of runs of them over a configuration, as long as no section gets more items than there is
room for. A command makes the longest list longer by at most one (`length_le_load`), so a script needs room for its commands
(`agrees_loadAll`) and a text for its statements (`agrees_foldlM_follow`), of which it has no more than characters
(`length_ofText_le`). A merge needs room for the items of the target (`agrees_mergeBelow`).
-/

namespace RouterPlan

/-! ## Entries at a path -/

/-- What holds of every entry, and of the children it would get, holds of the entry at a path. -/
theorem Outline.forall_entryAt {α : Type} {growth : Growth α} {P : α → Prop} (hchild : ∀ a name, P a → P (growth.child a name))
    {outline : Outline α} (h : ∀ a ∈ outline.entries, P a) (names : List String) : P (outline.entryAt growth names) := by
  induction names generalizing outline with
  | nil => exact h _ List.mem_cons_self
  | cons name names ih => exact ih (forall_entries_childAt hchild h name)

/-- A section that is made has no items. -/
theorem Section.length_growth_le (order : OrderTable) (n : Nat) (s : Section) (name : String) :
    ((growth order).child s name).items.length ≤ n :=
  Nat.zero_le n

namespace Configuration

variable {c : Configuration} {n : Nat}

/-- How many items there are in all sections. -/
def itemCount (c : Configuration) : Nat :=
  (c.sections.map (·.items.length)).sum

/-- No section has more items than there are in all. -/
theorem length_le_itemCount (c : Configuration) : ∀ s ∈ c.sections, s.items.length ≤ c.itemCount :=
  fun _ hs => List.single_le_sum (fun _ _ => Nat.zero_le _) _ (List.mem_map_of_mem hs)

theorem length_sectionAt_le (h : ∀ s ∈ c.sections, s.items.length ≤ n) (path : Path) : (c.sectionAt path).items.length ≤ n :=
  Outline.forall_entryAt (P := fun s : Section => s.items.length ≤ n)
    (fun s name _ => Section.length_growth_le c.order n s name) h path.segments

/-- A section that is made at a path makes no list longer. -/
theorem length_le_ensure (h : ∀ s ∈ c.sections, s.items.length ≤ n) (path : Path) :
    ∀ s ∈ (c.ensure path).sections, s.items.length ≤ n :=
  Outline.entries_editAt (P := fun s : Section => s.items.length ≤ n) (fun _ hs => hs)
    (fun s name _ => Section.length_growth_le c.order n s name) path.segments c.outline h

/-- A command at a path makes no list longer by more than one. -/
theorem length_le_load (h : ∀ s ∈ c.sections, s.items.length ≤ n) (path : Path) (command : Command) :
    ∀ s ∈ (c.load path command).2.sections, s.items.length ≤ n + 1 := by
  let edit := Section.attempt fun s => do return ((), ← s.load command)
  have hsection := length_sectionAt_le h path
  have hafter : (edit (c.sectionAt path)).2.items.length ≤ n + 1 := by
    simp only [edit, attempt_load]
    cases hload : (c.sectionAt path).load command with
    | error cause => exact Nat.le_succ_of_le hsection
    | ok s => exact (Section.length_of_load hload).trans (Nat.succ_le_succ hsection)
  have hplaced : Outline.editAt (Section.growth c.order) edit path.segments c.outline =
      Outline.editAt (Section.growth c.order) (fun _ => edit (c.sectionAt path)) path.segments c.outline :=
    Outline.editAt_congr rfl
  rw [load, editAt, hplaced]
  exact Outline.entries_editAt (P := fun s : Section => s.items.length ≤ n + 1) (fun _ _ => hafter)
    (fun s name _ => Section.length_growth_le c.order _ s name) _ _ fun s hs => Nat.le_succ_of_le (h s hs)

end Configuration

/-! ## How many statements a text has -/

namespace Text

theorem length_lines_le (cs : List Char) : (lines cs).length ≤ cs.length := by
  fun_induction lines cs with
  | case1 => exact Nat.le_refl _
  | case2 cs ih => exact Nat.succ_le_succ (Nat.le_succ_of_le ih)
  | case3 cs ih => exact Nat.succ_le_succ ih
  | case4 c cs _ _ hnone ih => simp
  | case5 c cs _ _ line rest hlines ih =>
    rw [hlines] at ih
    exact Nat.le_succ_of_le ih

theorem length_joinWrapped_le (first : Nat) (line : List Char) (next : Nat) (physical : List (List Char)) :
    (joinWrapped first line next physical).length ≤ physical.length + 1 := by
  induction physical generalizing first line next with
  | nil => exact Nat.le_refl _
  | cons following physical ih =>
    rw [joinWrapped]
    split
    · exact Nat.le_succ_of_le (ih ..)
    · exact Nat.succ_le_succ (ih ..)

theorem length_logicalLines_le (cs : List Char) : (logicalLines cs).length ≤ cs.length := by
  have hlines := length_lines_le cs
  rw [logicalLines]
  cases h : lines cs with
  | nil => exact Nat.zero_le _
  | cons line rest =>
    rw [h] at hlines
    exact (length_joinWrapped_le ..).trans hlines

end Text

theorem Statement.length_ofLines_le (current : Path) (lines : List (Nat × List Char)) :
    (ofLines current lines).length ≤ lines.length := by
  induction lines generalizing current with
  | nil => exact Nat.le_refl _
  | cons line lines ih =>
    rw [ofLines]
    dsimp only
    split
    · exact Nat.le_succ_of_le (ih _)
    · exact Nat.succ_le_succ (ih _)

/-- A text has no more statements than characters. -/
theorem Statement.length_ofText_le (text : String) : (ofText text).length ≤ text.length :=
  (length_ofLines_le ..).trans (Text.length_logicalLines_le text.toList)

namespace Checked

variable {room : Prop} {n : Nat}

/-! ## Scripts and texts -/

theorem agrees_editAt {α β : Type} {growth : Growth α} {edit : α → Checked (β × α)} {edit' : α → β × α} {names : List String}
    {outline : Outline α} (h : Agrees room (edit (outline.entryAt growth names)) (edit' (outline.entryAt growth names))) :
    Agrees room (editAt growth edit names outline) (Outline.editAt growth edit' names outline) := by
  induction names generalizing outline with
  | nil => exact h.bind (.of_eq rfl)
  | cons name names ih =>
    rw [editAt, Outline.editAt_cons, Outline.editChild_eq]
    exact (ih h).bind (.of_eq rfl)

theorem agrees_attempt (command : Command) (s : Section) :
    Agrees (s.items.length < lengthBound) (attempt command s) (Section.attempt (fun s => do return ((), ← s.load command)) s) := by
  refine (agrees_loadCommand command s).bind ?_
  rw [Section.attempt]
  cases s.load command <;> exact .of_eq rfl

theorem agrees_load (c : Configuration) (path : Path) (command : Command) :
    Agrees ((c.sectionAt path).items.length < lengthBound) (load c path command) (c.load path command) :=
  (agrees_editAt (agrees_attempt command _)).bind (.of_eq rfl)

theorem agrees_loadAll (edits : List (Path × Command)) (c : Configuration) (h : ∀ s ∈ c.sections, s.items.length ≤ n) :
    Agrees (n + edits.length < lengthBound) (loadAll edits c) (Configuration.loadAll edits c) := by
  induction edits generalizing c n with
  | nil => exact .of_eq rfl
  | cons edit edits ih =>
    obtain ⟨path, command⟩ := edit
    have hsection := Configuration.length_sectionAt_le h path
    have hload := Configuration.length_le_load h path command
    rw [loadAll, Configuration.loadAll, List.length_cons]
    refine ((agrees_load c path command).mono fun hroom => by omega).bind ?_
    rcases hresult : c.load path command with ⟨_ | _, c'⟩
    · exact .of_eq rfl
    · rw [hresult] at hload
      exact (ih c' hload).mono fun hroom => by omega

theorem agrees_follow (c : Configuration) (s : Statement) (h : ∀ s ∈ c.sections, s.items.length ≤ n) :
    Agrees (n < lengthBound) (follow c s).run (c.follow s) := by
  obtain ⟨line, text, path, fault | directive⟩ := s
  · exact .of_eq rfl
  · cases directive with
    | edit command =>
      have hsection := Configuration.length_sectionAt_le h path
      have hload := (agrees_load c path command).mono fun hroom => Nat.lt_of_le_of_lt hsection hroom
      rw [follow, Configuration.follow]
      refine .bindLift hload ?_
      dsimp only
      rcases c.load path command with ⟨_ | _, c'⟩ <;> exact .of_eq rfl
    | _ => exact .of_eq rfl

theorem length_le_follow {c c' : Configuration} {s : Statement} (h : ∀ s ∈ c.sections, s.items.length ≤ n)
    (hok : c.follow s = .ok c') : ∀ s ∈ c'.sections, s.items.length ≤ n + 1 := by
  rw [Configuration.follow] at hok
  split at hok
  · cases hok
  · cases hok
    exact fun s hs => Nat.le_succ_of_le (h s hs)
  · cases hok
    exact fun s hs => Nat.le_succ_of_le (Configuration.length_le_ensure h _ s hs)
  · cases hok
    exact fun s hs => Nat.le_succ_of_le (h s hs)
  · rename_i command _
    have hload := Configuration.length_le_load h s.path command
    split at hok
    · rename_i hresult
      cases hok
      rwa [hresult] at hload
    · cases hok

theorem agrees_foldlM_follow (statements : List Statement) (c : Configuration) (h : ∀ s ∈ c.sections, s.items.length ≤ n) :
    Agrees (n + statements.length < lengthBound) (statements.foldlM follow c).run (statements.foldlM Configuration.follow c) := by
  induction statements generalizing c n with
  | nil => exact .of_eq rfl
  | cons s statements ih =>
    rw [List.foldlM_cons, List.foldlM_cons, List.length_cons]
    refine ((agrees_follow c s h).mono fun hroom => by omega).bindRun fun c' hfollow => ?_
    exact (ih c' (length_le_follow h hfollow)).mono fun hroom => by omega

/-! ## Merges -/

/-- A child that is merged with a target makes no list longer by more than the target holds and what is below it adds. -/
theorem length_le_mergeChild {order : OrderTable} {target : Section} {below : Forest Section} {name : String}
    {current merged : Outline Section} {batch : Outline Batch} {m : Nat} (h : ∀ s ∈ current.entries, s.items.length ≤ n)
    (hbelow : ∀ child : Outline Section, (∀ s ∈ child.entries, s.items.length ≤ n + target.items.length) →
      ∀ result, Configuration.mergeBelow order below child = .ok result →
        ∀ s ∈ result.2.entries, s.items.length ≤ n + target.items.length + m)
    (hok : (current.editChild (Section.growth order) name fun child => do
      let (commands, s) ← child.root.mergeWith target
      let (batches, child) ← Configuration.mergeBelow order below { child with root := s }
      return (Outline.mk { path := s.path, mode := s.mode, commands : Batch } batches, child)) = .ok (batch, merged)) :
    ∀ s ∈ merged.entries, s.items.length ≤ n + target.items.length + m := by
  rw [Outline.editChild_eq] at hok
  obtain ⟨⟨batch', child⟩, hedit, hafter⟩ := bind_eq_ok_iff.1 hok
  cases hafter
  obtain ⟨⟨commands, s⟩, hmerge, hedit⟩ := bind_eq_ok_iff.1 hedit
  obtain ⟨result, hrest, hafter⟩ := bind_eq_ok_iff.1 hedit
  cases hafter
  have hchild := Outline.forall_entries_childAt (P := fun s : Section => s.items.length ≤ n)
    (fun s name _ => Section.length_growth_le order n s name) h name
  have hroot := (Section.length_of_mergeWith hmerge).trans (Nat.add_le_add_right (hchild _ List.mem_cons_self) _)
  refine Outline.forall_entries_putChild (P := fun s : Section => s.items.length ≤ n + target.items.length + m)
    (fun t ht => (h t ht).trans (by omega)) (hbelow _ (fun t ht => ?_) result hrest)
  rcases List.mem_cons.1 ht with rfl | ht
  · exact hroot
  · exact (hchild t (List.mem_cons_of_mem _ ht)).trans (Nat.le_add_right _ _)

/-- A merge makes no list longer by more than what the targets hold. -/
theorem length_le_mergeBelow {order : OrderTable} {targets : Forest Section} {current : Outline Section}
    (h : ∀ s ∈ current.entries, s.items.length ≤ n) :
    ∀ result, Configuration.mergeBelow order targets current = .ok result →
      ∀ s ∈ result.2.entries, s.items.length ≤ n + (targets.entries.map (·.items.length)).sum := by
  induction targets generalizing current n with
  | nil =>
    intro result hok
    cases hok
    exact h
  | cons target below rest ihBelow ihRest =>
    intro result hok
    rw [Configuration.mergeBelow] at hok
    simp only [Forest.entries, List.map_cons, List.map_append, List.sum_cons, List.sum_append]
    split at hok
    · exact fun s hs => (ihRest h _ hok s hs).trans (by omega)
    · obtain ⟨⟨batch, merged⟩, hmerged, hok⟩ := bind_eq_ok_iff.1 hok
      obtain ⟨⟨batches, after⟩, hrest, hafter⟩ := bind_eq_ok_iff.1 hok
      cases hafter
      have hchild := length_le_mergeChild h (fun _ => ihBelow) hmerged
      exact fun s hs => (ihRest hchild _ hrest s hs).trans (by omega)

theorem agrees_mergeBelow (order : OrderTable) (targets : Forest Section) (current : Outline Section)
    (h : ∀ s ∈ current.entries, s.items.length ≤ n) :
    Agrees (n + (targets.entries.map (·.items.length)).sum < lengthBound) (mergeBelow order targets current).run
      (Configuration.mergeBelow order targets current) := by
  induction targets generalizing current n with
  | nil => exact .of_eq rfl
  | cons target below rest ihBelow ihRest =>
    rw [mergeBelow, Configuration.mergeBelow]
    simp only [Forest.entries, List.map_cons, List.map_append, List.sum_cons, List.sum_append]
    cases target.path.name? with
    | none => exact (ihRest current h).mono fun hroom => by omega
    | some name =>
      have hchild := Outline.forall_entries_childAt (P := fun s : Section => s.items.length ≤ n)
        (fun s name _ => Section.length_growth_le order n s name) h name
      have hlength := hchild _ List.mem_cons_self
      refine .bindRun ?_ fun result hmerged => ?_
      · rw [Outline.editChild_eq, Outline.editChild_eq]
        refine .bindRun ?_ fun _ _ => .of_eq rfl
        refine ((agrees_mergeWith _ target).mono fun hroom => by omega).bindRun fun result hmerge => ?_
        obtain ⟨commands, s⟩ := result
        have hroot := Section.length_of_mergeWith hmerge
        refine ((ihBelow _ (n := n + target.items.length) fun t ht => ?_).mono fun hroom => by omega).bindRun
          fun _ _ => .of_eq rfl
        rcases List.mem_cons.1 ht with rfl | ht
        · exact hroot.trans (Nat.add_le_add_right hlength _)
        · exact (hchild t (List.mem_cons_of_mem _ ht)).trans (Nat.le_add_right _ _)
      · obtain ⟨batch, merged⟩ := result
        have hafter := length_le_mergeChild h (fun _ => length_le_mergeBelow) hmerged
        exact ((ihRest merged hafter).mono fun hroom => by omega).bindRun fun _ _ => .of_eq rfl

end Checked

end RouterPlan
