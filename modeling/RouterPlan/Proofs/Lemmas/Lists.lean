/-!
# Positions in lists, and steps that may be refused

Facts about lists, optional positions and chains of steps in `Except` that the edits of a section rest on.
-/

namespace RouterPlan

variable {α : Type}

/-- A test that passes keeps an optional value. -/
theorem filter_eq_self_of_forall {o : Option α} {p : α → Bool} (h : ∀ a, o = some a → p a = true) : o.filter p = o := by
  cases o with
  | none => rfl
  | some a => simp [Option.filter, h a rfl]

/-- A list is the part before a position, the element there, and the part after it. -/
theorem eq_take_append_cons_drop {l : List α} {i : Nat} {a : α} (h : l[i]? = some a) :
    l = l.take i ++ a :: l.drop (i + 1) := by
  obtain ⟨hlt, rfl⟩ := List.getElem?_eq_some_iff.1 h
  rw [List.getElem_cons_drop, List.take_append_drop]

/-- Taking an element out and putting it in front is a permutation. -/
theorem cons_eraseIdx_perm {l : List α} {i : Nat} {a : α} (h : l[i]? = some a) : (a :: l.eraseIdx i).Perm l := by
  conv => rhs; rw [eq_take_append_cons_drop h]
  rw [List.eraseIdx_eq_take_drop_succ]
  exact List.perm_middle.symm

/-- Putting an element in between two lists. -/
theorem insertIdx_length_append (l r : List α) (a : α) : (l ++ r).insertIdx l.length a = l ++ a :: r := by
  induction l with
  | nil => rfl
  | cons b l ih => simpa using ih

/-- Taking out the element between two lists. -/
theorem eraseIdx_length_append (l r : List α) (a : α) : (l ++ a :: r).eraseIdx l.length = l ++ r := by
  induction l with
  | nil => rfl
  | cons b l ih => simpa using ih

/-- In a list that holds nothing twice, an element is first found where it is. -/
theorem idxOf_eq_of_getElem? [DecidableEq α] {l : List α} (hn : l.Nodup) {i : Nat} {a : α} (h : l[i]? = some a) :
    l.idxOf a = i := by
  obtain ⟨hlt, rfl⟩ := List.getElem?_eq_some_iff.1 h
  exact hn.idxOf_getElem i hlt

/-- In a list that holds nothing twice, taking an element out is taking it from where it is. -/
theorem erase_eq_eraseIdx_of_getElem? [DecidableEq α] {l : List α} (hn : l.Nodup) {i : Nat} {a : α}
    (h : l[i]? = some a) : l.erase a = l.eraseIdx i := by
  rw [List.erase_eq_eraseIdx_of_idxOf (idxOf_eq_of_getElem? hn h)]

/-- Putting an element back where it was. -/
theorem insertIdx_eraseIdx {l : List α} {i : Nat} {a : α} (h : l[i]? = some a) : (l.eraseIdx i).insertIdx i a = l := by
  have hlt := (List.getElem?_eq_some_iff.1 h).1
  have hlen : (l.take i).length = i := List.length_take_of_le (Nat.le_of_lt hlt)
  have hinsert := insertIdx_length_append (l.take i) (l.drop (i + 1)) a
  rw [hlen] at hinsert
  rw [List.eraseIdx_eq_take_drop_succ, hinsert, ← eq_take_append_cons_drop h]

/-- A list that holds what another one does either goes on from it or departs from it at some position. -/
theorem exists_departure [DecidableEq α] {l l' : List α} (hn : l.Nodup) (h : ∀ a ∈ l, a ∈ l') :
    (∃ rest, l' = l ++ rest) ∨
      ∃ settled a rest b rest', l = settled ++ a :: rest ∧ l' = settled ++ b :: rest' ∧ a ≠ b := by
  induction l generalizing l' with
  | nil => exact .inl ⟨l', rfl⟩
  | cons a l ih =>
    obtain ⟨hfirst, hrest⟩ := List.nodup_cons.1 hn
    cases l' with
    | nil => nomatch h a List.mem_cons_self
    | cons b l' =>
      by_cases hab : a = b
      · subst hab
        have hmem : ∀ c ∈ l, c ∈ l' := by
          intro c hc
          rcases List.mem_cons.1 (h c (List.mem_cons_of_mem _ hc)) with rfl | hc'
          · exact absurd hc hfirst
          · exact hc'
        rcases ih hrest hmem with ⟨rest, rfl⟩ | ⟨settled, c, rest, d, rest', rfl, rfl, hcd⟩
        · exact .inl ⟨rest, rfl⟩
        · exact .inr ⟨a :: settled, c, rest, d, rest', rfl, rfl, hcd⟩
      · exact .inr ⟨[], a, l, b, l', rfl, rfl, hab⟩

/-- Two steps go through exactly when the first does and the second does with its result. -/
theorem bind_eq_ok_iff {ε β : Type} {x : Except ε α} {f : α → Except ε β} {b : β} :
    (x >>= f) = .ok b ↔ ∃ a, x = .ok a ∧ f a = .ok b := by
  cases x <;> simp [bind, Except.bind]

/-- Another wording of its error does not make a step go through. -/
theorem mapError_eq_ok_iff {ε ε' : Type} {f : ε → ε'} {x : Except ε α} {a : α} : x.mapError f = .ok a ↔ x = .ok a := by
  cases x with
  | error e => exact ⟨nofun, nofun⟩
  | ok b =>
    constructor
    · intro h
      cases h
      rfl
    · intro h
      cases h
      rfl

/-- A list is refused for the first element that is refused. -/
theorem mapM_eq_error_iff {ε β : Type} {f : α → Except ε β} {l : List α} {e : ε} :
    l.mapM f = .error e ↔
      ∃ before a after, l = before ++ a :: after ∧ (∀ b ∈ before, ∃ c, f b = .ok c) ∧ f a = .error e := by
  induction l with
  | nil =>
    constructor
    · intro h
      cases h
    · rintro ⟨before, a, after, hl, -⟩
      simp at hl
  | cons first l ih =>
    rw [List.mapM_cons]
    cases hfirst : f first with
    | error e' =>
      constructor
      · intro h
        cases h
        exact ⟨[], first, l, rfl, by simp, hfirst⟩
      · rintro ⟨before, a, after, hl, hbefore, ha⟩
        cases before with
        | nil =>
          cases hl
          rw [hfirst] at ha
          cases ha
          rfl
        | cons b before =>
          cases hl
          obtain ⟨c, hc⟩ := hbefore first List.mem_cons_self
          rw [hfirst] at hc
          cases hc
    | ok c =>
      have hrest : (Except.ok c >>= fun c => do return c :: (← l.mapM f)) = Except.error e ↔ l.mapM f = .error e := by
        cases l.mapM f <;> simp [bind, Except.bind, pure, Except.pure]
      refine hrest.trans (ih.trans ?_)
      constructor
      · rintro ⟨before, a, after, rfl, hbefore, ha⟩
        exact ⟨first :: before, a, after, rfl, List.forall_mem_cons.2 ⟨⟨c, hfirst⟩, hbefore⟩, ha⟩
      · rintro ⟨before, a, after, hl, hbefore, ha⟩
        cases before with
        | nil =>
          cases hl
          rw [hfirst] at ha
          cases ha
        | cons b before =>
          cases hl
          exact ⟨before, a, after, rfl, (List.forall_mem_cons.1 hbefore).2, ha⟩

/-- What every step keeps that goes through, a list of steps keeps that goes through. -/
theorem foldlM_keeps {σ ε : Type} {step : σ → α → Except ε σ} {P : σ → Prop}
    (hstep : ∀ s a s', P s → step s a = .ok s' → P s') {l : List α} {s s' : σ} (hs : P s) (h : l.foldlM step s = .ok s') : P s' := by
  induction l generalizing s with
  | nil =>
    cases h
    exact hs
  | cons a l ih =>
    rw [List.foldlM_cons] at h
    obtain ⟨m, hm, hrest⟩ := bind_eq_ok_iff.1 h
    exact ih (hstep s a m hs hm) hrest

end RouterPlan
