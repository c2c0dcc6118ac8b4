import RouterPlan.Proofs.Lemmas.CreationOrder
import RouterPlan.Traversal
import Mathlib.Logic.Relation

/-!
# Walks over the numbers of a register

A walk passes a row of numbers, each followed by what is below it (`Register.Walks`). What numbers stand for a row of sections is
walked in the order of that row (`Lists.exists_walks`), and the loop passes what is on its stack in this order (`Walks.walk`). So
the part of a walk after a number is a walk over what it lists (`Walks.exists_block`), and in a consistent register the numbers in
it are those below that number (`Walks.mem_iff_below`): whose parent it is, or the parent of whose parent, and so on. Paths say the
same (`Consistent.prefix_iff`).
-/

namespace RouterPlan.Register

variable {r : Register} {id above j : Nat} {ids order : List Nat}

/-- Numbers in the order in which a walk over a row passes them. -/
inductive Walks (r : Register) : List Nat → List Nat → Prop where
  | nil : Walks r [] []
  | cons {id : Nat} {ids below rest : List Nat} (hid : id < r.size) (hbelow : Walks r (r.place id).children below)
      (hrest : Walks r ids rest) : Walks r (id :: ids) (id :: (below ++ rest))

/-- One number is below another when links lead up from it to that one. -/
def Below (r : Register) (above id : Nat) : Prop :=
  Relation.TransGen (fun above id => (r.place id).parent = some above) above id

/-! ## The loop -/

theorem Lists.exists_walks {f : Forest Section} (h : r.Lists ids f) :
    ∃ order, r.Walks ids order ∧ (order.map fun id => (r.place id).held) = f.entries := by
  induction h with
  | nil => exact ⟨[], .nil, rfl⟩
  | cons hid _ _ ihBelow ihRest =>
    obtain ⟨below, hbelow, hsections⟩ := ihBelow
    obtain ⟨rest, hrest, hsections'⟩ := ihRest
    exact ⟨_, .cons hid hbelow hrest, by rw [List.map_cons, List.map_append, hsections, hsections', Forest.entries]⟩

/-- The loop passes the numbers on its stack, each with what is below it, before it comes to the rest of the stack. It makes one turn
for each. -/
theorem Walks.walk (h : r.Walks ids order) (turns : Nat) (passed stack : List Nat) :
    r.walk (turns + order.length) passed (ids ++ stack) = r.walk turns (passed ++ order) stack := by
  induction h generalizing turns passed stack with
  | nil => rw [List.nil_append, List.append_nil, List.length_nil, Nat.add_zero]
  | @cons id ids below rest _ _ _ ihBelow ihRest =>
    have hturns : turns + (id :: (below ++ rest)).length = turns + rest.length + below.length + 1 := by
      rw [List.length_cons, List.length_append]
      omega
    rw [hturns]
    calc r.walk (turns + rest.length + below.length + 1) passed (id :: (ids ++ stack))
        = r.walk (turns + rest.length + below.length) (passed ++ [id]) ((r.place id).children ++ (ids ++ stack)) := walk_cons ..
      _ = r.walk (turns + rest.length) (passed ++ [id] ++ below) (ids ++ stack) := ihBelow _ _ _
      _ = r.walk turns (passed ++ [id] ++ below ++ rest) stack := ihRest _ _ _
      _ = r.walk turns (passed ++ id :: (below ++ rest)) stack := by
        simp only [List.append_assoc, List.cons_append, List.nil_append]

/-- A walk over the root ends, with the numbers in this order, as soon as each of them has had its turn. -/
theorem Walks.walk_root (h : r.Walks [0] order) {turns : Nat} (hturns : order.length ≤ turns) :
    r.walk turns [] [0] = some order := by
  obtain ⟨more, rfl⟩ := Nat.exists_eq_add_of_le' hturns
  exact (h.walk more [] []).trans (walk_nil ..)

/-! ## What is in a walk -/

theorem Walks.lt (h : r.Walks ids order) (hj : j ∈ order) : j < r.size := by
  induction h with
  | nil => cases hj
  | cons hid _ _ ihBelow ihRest =>
    rcases List.mem_cons.1 hj with rfl | hj
    · exact hid
    · exact (List.mem_append.1 hj).elim ihBelow ihRest

theorem Walks.sublist (h : r.Walks ids order) : ids.Sublist order := by
  induction h with
  | nil => exact .slnil
  | cons _ _ _ _ ihRest => exact (ihRest.trans (List.sublist_append_right _ _)).cons_cons _

/-- What follows a number in a walk begins with a walk over what it lists. -/
theorem Walks.exists_block (h : r.Walks ids order) (hid : id ∈ order) :
    ∃ before block after, order = before ++ id :: (block ++ after) ∧ r.Walks (r.place id).children block := by
  induction h with
  | nil => cases hid
  | @cons head ids below rest _ hbelow _ ihBelow ihRest =>
    rcases List.mem_cons.1 hid with rfl | hid
    · exact ⟨[], below, rest, rfl, hbelow⟩
    · rcases List.mem_append.1 hid with hid | hid
      · obtain ⟨before, block, after, rfl, hblock⟩ := ihBelow hid
        exact ⟨head :: before, block, after ++ rest, by simp, hblock⟩
      · obtain ⟨before, block, after, rfl, hblock⟩ := ihRest hid
        exact ⟨head :: (below ++ before), block, after, by simp, hblock⟩

/-- A walk passes what is listed by a number that it passes. -/
theorem Walks.mem_of_mem_children (h : r.Walks ids order) (hid : id ∈ order) (hj : j ∈ (r.place id).children) : j ∈ order := by
  obtain ⟨before, block, after, rfl, hblock⟩ := h.exists_block hid
  have hmem : j ∈ block := hblock.sublist.subset hj
  simp [hmem]

/-! ## Numbers below a number -/

/-- A number with a parent was given out, after that of the parent, which lists it. -/
theorem Consistent.of_parent (h : r.Consistent) (hparent : (r.place id).parent = some above) :
    above < id ∧ id < r.size ∧ id ∈ (r.place above).children ∧ ∃ name, (r.place id).path = (r.place above).path.child name := by
  have hid : id < r.size := by
    refine Nat.lt_of_not_le fun hle => ?_
    rw [place, Array.getElem?_eq_none hle] at hparent
    cases hparent
  have hne : id ≠ 0 := by
    rintro rfl
    rw [h.parent_root] at hparent
    cases hparent
  obtain ⟨linked, hlt, hlinked, hmem, hname⟩ := h.linked id hid hne
  rw [hparent] at hlinked
  cases hlinked
  exact ⟨hlt, hid, hmem, hname⟩

/-- A walk passes all that is below a number that it passes. -/
theorem Walks.mem_of_below (h : r.Walks ids order) (hcons : r.Consistent) (hid : id ∈ order) (hbelow : r.Below id j) :
    j ∈ order := by
  induction hbelow with
  | single hparent => exact h.mem_of_mem_children hid (hcons.of_parent hparent).2.2.1
  | tail _ hparent ih => exact h.mem_of_mem_children ih (hcons.of_parent hparent).2.2.1

/-- A walk over a row passes the numbers of the row and those below them, and no other. -/
theorem Walks.exists_of_mem (h : r.Walks ids order) (hcons : r.Consistent) (hj : j ∈ order) :
    ∃ id ∈ ids, j = id ∨ r.Below id j := by
  induction h with
  | nil => cases hj
  | @cons id ids below rest hid _ _ ihBelow ihRest =>
    rcases List.mem_cons.1 hj with rfl | hj
    · exact ⟨j, List.mem_cons_self, .inl rfl⟩
    · rcases List.mem_append.1 hj with hj | hj
      · obtain ⟨child, hchild, hj⟩ := ihBelow hj
        have hparent : (r.place child).parent = some id := (hcons.listed id hid child hchild).2
        refine ⟨id, List.mem_cons_self, .inr ?_⟩
        rcases hj with rfl | hj
        · exact .single hparent
        · exact .head hparent hj
      · obtain ⟨id, hid, hj⟩ := ihRest hj
        exact ⟨id, List.mem_cons_of_mem _ hid, hj⟩

/-- A walk over what a number lists passes what is below it. -/
theorem Walks.mem_iff_below {block : List Nat} (h : r.Walks (r.place id).children block) (hcons : r.Consistent)
    (hid : id < r.size) : j ∈ block ↔ r.Below id j := by
  constructor
  · intro hj
    obtain ⟨child, hchild, hj⟩ := h.exists_of_mem hcons hj
    have hparent : (r.place child).parent = some id := (hcons.listed id hid child hchild).2
    rcases hj with rfl | hj
    · exact .single hparent
    · exact .head hparent hj
  · intro hbelow
    obtain ⟨child, hparent, hj⟩ := Relation.TransGen.head'_iff.1 hbelow
    have hchild : child ∈ block := h.sublist.subset (hcons.of_parent hparent).2.2.1
    rcases Relation.reflTransGen_iff_eq_or_transGen.1 hj with rfl | hj
    · exact hchild
    · exact h.mem_of_below hcons hchild hj

/-- A walk over the root passes every number. -/
theorem Walks.mem_of_lt (h : r.Walks [0] order) (hcons : r.Consistent) (hj : j < r.size) : j ∈ order := by
  induction j using Nat.strongRecOn with
  | ind j ih =>
    by_cases hj0 : j = 0
    · exact hj0 ▸ h.sublist.subset List.mem_cons_self
    · obtain ⟨above, hlt, -, hmem, -⟩ := hcons.linked j hj hj0
      exact h.mem_of_mem_children (ih above hlt (Nat.lt_trans hlt hj)) hmem

/-- The path of a place continues that of another exactly when it is that place or below it. -/
theorem Consistent.prefix_iff (h : r.Consistent) (hid : id < r.size) (hj : j < r.size) :
    (r.place id).path.segments <+: (r.place j).path.segments ↔ j = id ∨ r.Below id j := by
  constructor
  · intro hpre
    induction j using Nat.strongRecOn with
    | ind j ih =>
      by_cases hj0 : j = 0
      · rw [hj0, h.path_root] at hpre
        have hroot : (r.place id).path = (r.place 0).path := by
          rw [h.path_root]
          exact congrArg Path.mk (List.prefix_nil.1 hpre)
        exact .inl (hj0.trans (h.eq_of_path_eq hid h.pos hroot).symm)
      · obtain ⟨above, hlt, hparent, -, name, hname⟩ := h.linked j hj hj0
        rw [hname, Path.child, List.prefix_concat_iff] at hpre
        rcases hpre with heq | hpre
        · have hpath : (r.place j).path = (r.place id).path := hname.trans (congrArg Path.mk heq.symm)
          exact .inl (h.eq_of_path_eq hj hid hpath)
        · rcases ih above hlt (Nat.lt_trans hlt hj) hpre with rfl | hbelow
          · exact .inr (.single hparent)
          · exact .inr (.tail hbelow hparent)
  · rintro (rfl | hbelow)
    · exact List.prefix_rfl
    · clear hj
      induction hbelow with
      | single hparent =>
        obtain ⟨-, -, -, name, hname⟩ := h.of_parent hparent
        exact hname ▸ List.prefix_append _ _
      | tail _ hparent ih =>
        obtain ⟨-, -, -, name, hname⟩ := h.of_parent hparent
        exact hname ▸ ih.trans (List.prefix_append _ _)

end RouterPlan.Register
