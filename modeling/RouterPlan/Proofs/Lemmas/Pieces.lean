import RouterPlan.Text.Blank

/-!
# Pieces of a text

The pieces of a text are what stands between its separators, and its fields are the pieces that are not empty. Pieces hold no
separators (`not_mem_pieces`), and pieces with separators between them are taken apart again (`pieces_intercalate`).
-/

namespace RouterPlan.Text

variable {p : Char → Bool} {c : Char} {cs piece : List Char} {rest : List (List Char)}

theorem pieces_cons_of_separator (hc : p c = true) (cs : List Char) : pieces p (c :: cs) = [] :: pieces p cs := by
  rw [pieces, if_pos hc]

/-- A character that is no separator belongs to the first piece. -/
theorem pieces_cons (hc : p c = false) (h : pieces p cs = piece :: rest) : pieces p (c :: cs) = (c :: piece) :: rest := by
  rw [pieces, hc, if_neg Bool.false_ne_true, h]

/-- There is always a piece. -/
theorem exists_pieces (p : Char → Bool) (cs : List Char) : ∃ piece rest, pieces p cs = piece :: rest := by
  induction cs with
  | nil => exact ⟨[], [], rfl⟩
  | cons c cs ih =>
    cases hc : p c with
    | true => exact ⟨[], _, pieces_cons_of_separator hc cs⟩
    | false =>
      obtain ⟨piece, rest, hpieces⟩ := ih
      exact ⟨c :: piece, rest, pieces_cons hc hpieces⟩

/-- Text without a separator is one piece. -/
theorem pieces_eq_singleton (h : ∀ c ∈ cs, p c = false) : pieces p cs = [cs] := by
  induction cs with
  | nil => rfl
  | cons c cs ih =>
    obtain ⟨hc, hcs⟩ := List.forall_mem_cons.1 h
    exact pieces_cons hc (ih hcs)

/-- The text up to a separator is a piece. -/
theorem pieces_append (h : ∀ d ∈ piece, p d = false) (hc : p c = true) (cs : List Char) :
    pieces p (piece ++ c :: cs) = piece :: pieces p cs := by
  induction piece with
  | nil => exact pieces_cons_of_separator hc cs
  | cons d piece ih =>
    obtain ⟨hd, hrest⟩ := List.forall_mem_cons.1 h
    exact pieces_cons hd (ih hrest)

/-- Pieces with separators between them are the pieces of that text. -/
theorem pieces_intercalate (hne : rest ≠ []) (h : ∀ piece ∈ rest, ∀ d ∈ piece, p d = false) (hc : p c = true) :
    pieces p ([c].intercalate rest) = rest := by
  induction rest with
  | nil => exact absurd rfl hne
  | cons piece rest ih =>
    obtain ⟨hpiece, hrest⟩ := List.forall_mem_cons.1 h
    cases rest with
    | nil =>
      rw [List.intercalate_singleton]
      exact pieces_eq_singleton hpiece
    | cons next rest =>
      rw [List.intercalate_cons_cons, List.append_assoc, List.singleton_append, pieces_append hpiece hc,
        ih (List.cons_ne_nil _ _) hrest]

/-- Pieces hold no separators. -/
theorem not_mem_pieces (h : piece ∈ pieces p cs) : ∀ d ∈ piece, p d = false := by
  induction cs generalizing piece with
  | nil =>
    rw [List.mem_singleton.1 h]
    exact List.forall_mem_nil _
  | cons c cs ih =>
    cases hc : p c with
    | true =>
      rw [pieces_cons_of_separator hc] at h
      rcases List.mem_cons.1 h with rfl | h
      · exact List.forall_mem_nil _
      · exact ih h
    | false =>
      obtain ⟨first, rest, hpieces⟩ := exists_pieces p cs
      rw [pieces_cons hc hpieces] at h
      rw [hpieces] at ih
      rcases List.mem_cons.1 h with rfl | h
      · exact List.forall_mem_cons.2 ⟨hc, ih List.mem_cons_self⟩
      · exact ih (List.mem_cons_of_mem _ h)

/-- The pieces of a text are what it holds besides separators. -/
theorem flatten_pieces (p : Char → Bool) (cs : List Char) : (pieces p cs).flatten.Sublist cs := by
  induction cs with
  | nil => exact .refl _
  | cons c cs ih =>
    cases hc : p c with
    | true =>
      rw [pieces_cons_of_separator hc]
      exact ih.cons c
    | false =>
      obtain ⟨first, rest, hpieces⟩ := exists_pieces p cs
      rw [pieces_cons hc hpieces]
      rw [hpieces] at ih
      exact ih.cons_cons c

/-- The fields of a text are not empty and hold no separators. -/
theorem not_mem_fields {field : List Char} (h : field ∈ fields p cs) : field ≠ [] ∧ ∀ c ∈ field, p c = false := by
  obtain ⟨hpiece, hne⟩ := List.mem_filter.1 h
  exact ⟨by simpa using hne, not_mem_pieces hpiece⟩

end RouterPlan.Text
