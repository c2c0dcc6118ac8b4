import RouterPlan.Proofs.Lemmas.AnchoredReaders

/-!
# Classes in front of an anchor

The reader of a class keeps what it reads when the anchor is put after the text (`Pattern.Keeps.readClass`). A class tries in several
places whether something special stands there, a range, a name between colons or an operator, so here it is also shown that the anchor
is never taken for the rest of such a thing.
-/

namespace RouterPlan.Pattern.Keeps

theorem readClassAtom (flags : Flags) : Keeps (readClassAtom flags) := by
  intro cs ds x rest hahead h
  unfold Pattern.readClassAtom at h ⊢
  split at h
  · cases h
  · rename_i after
    obtain rfl := ahead_cons.1 hahead
    exact escapeRead flags _ _ _ _ (ahead_append after) h
  · rename_i c after hplain
    obtain rfl := ahead_cons.1 hahead
    cases h
    refine ⟨_, ?_, ahead_append rest⟩
    split
    · rename_i hnil
      cases hnil
    · rename_i heq
      cases heq
      exact (hplain rfl).elim
    · rename_i heq
      cases heq
      rfl

/-- Whether an item of a class goes on as a range is seen before the anchor. -/
theorem rangeRest (flags : Flags) {cs ds : List Char} (h : Ahead cs ds) :
    (rangeRest? flags cs = none ∧ rangeRest? flags ds = none) ∨
      ∃ rest rest', rangeRest? flags cs = some rest ∧ rangeRest? flags ds = some rest' ∧ Ahead rest rest' := by
  unfold rangeRest?
  split
  · rename_i after
    obtain rfl := ahead_cons.1 h
    have hskip := (ahead_append after).skip flags
    split
    · rename_i hclose
      rw [hclose, ahead_cons] at hskip
      simp [hskip]
    · rename_i hhyphen
      rw [hhyphen, ahead_cons] at hskip
      simp [hskip]
    · rename_i hclose hhyphen
      refine .inr ⟨_, _, rfl, ?_, hskip⟩
      simp only []
      split
      · rename_i heq
        exact absurd heq (hskip.not_starts (by decide) hclose _)
      · rename_i heq
        exact absurd heq (hskip.not_starts (by decide) hhyphen _)
      · rfl
  · rename_i hhyphen
    refine .inl ⟨rfl, ?_⟩
    split
    · exact absurd rfl (h.not_starts (by decide) hhyphen _)
    · rfl

theorem readClassItem (flags : Flags) : Keeps (readClassItem flags) := by
  intro cs ds x rest hahead h
  unfold Pattern.readClassItem at h ⊢
  obtain ⟨⟨first, after⟩, hfirst, h⟩ := Option.bind_eq_some_iff.1 h
  obtain ⟨after', hfirst', hafter⟩ := readClassAtom flags _ _ _ _ hahead hfirst
  simp only [hfirst', Option.bind_eq_bind, Option.bind_some]
  dsimp only at h
  obtain ⟨hnone, hnone'⟩ | ⟨second, second', hsome, hsome', hsecond⟩ := rangeRest flags (hafter.skip flags)
  · rw [hnone] at h
    rw [hnone']
    cases first with
    | literal c =>
      dsimp only at h ⊢
      split at h
      · rename_i hadmits
        cases h
        exact ⟨_, if_pos hadmits, hafter.skip flags⟩
      · cases h
    | set set =>
      cases h
      exact ⟨_, rfl, hafter.skip flags⟩
    | assertion a => cases h
  · rw [hsome] at h
    rw [hsome']
    cases first with
    | literal low =>
      obtain ⟨⟨last, after⟩, hlast, h⟩ := Option.bind_eq_some_iff.1 h
      obtain ⟨rest', hlast', hrest⟩ := readClassAtom flags _ _ _ _ hsecond hlast
      simp only [hlast', Option.bind_some]
      cases last with
      | literal high =>
        dsimp only at h ⊢
        split at h
        · rename_i hrange
          cases h
          exact ⟨_, if_pos hrange, hrest⟩
        · cases h
      | set set => cases h
      | assertion a => cases h
    | set set => cases h
    | assertion a => cases h

/-- A name between colons and brackets is read, or is found to be none, before the anchor. -/
theorem namedSet (flags : Flags) {cs ds : List Char} (h : Ahead cs ds) :
    (readNamedSet flags cs = none ∧ readNamedSet flags ds = none) ∨
      ∃ set rest rest', readNamedSet flags cs = some (set, rest) ∧ readNamedSet flags ds = some (set, rest') ∧
        Ahead rest rest' := by
  unfold readNamedSet
  split
  · rename_i after
    obtain rfl := ahead_cons.1 h
    have hafter := ahead_append after
    simp only [hafter.head?_beq (show '^' ≠ ')' by decide)]
    have hname : Ahead (if after.head? == some '^' then after.drop 1 else after)
        (if after.head? == some '^' then (after ++ anchorEnd).drop 1 else after ++ anchorEnd) := by
      split
      · rename_i hmark
        exact hafter.drop (beq_iff_eq.1 hmark)
      · exact hafter
    revert hname
    generalize (if after.head? == some '^' then after.drop 1 else after) = named
    generalize (if after.head? == some '^' then (after ++ anchorEnd).drop 1 else after ++ anchorEnd) = named'
    intro hname
    cases hspan : named.span (· != ':') with
    | mk name tail =>
      cases tail with
      | nil =>
        have hnone := hname.span_all (by simp [anchorEnd]) (congrArg Prod.snd hspan)
        simp only [hnone]
        exact .inl ⟨trivial, trivial⟩
      | cons c tail =>
        simp only [hname.span hspan]
        by_cases hend : c = ':' ∧ tail.head? = some ']'
        · obtain ⟨rfl, hclose⟩ := hend
          obtain ⟨rest, rfl⟩ := List.head?_eq_some_iff.1 hclose
          cases hranges : namedRanges.lookup (String.ofList name) with
          | none => simp
          | some ranges =>
            refine .inr ⟨_, rest, rest ++ anchorEnd, rfl, ?_, ahead_append rest⟩
            simp
        · refine .inl ⟨?_, ?_⟩
          · split
            · rename_i heq
              cases heq
              exact absurd ⟨rfl, rfl⟩ hend
            · rfl
          · split
            · rename_i heq
              rw [List.cons.injEq] at heq
              refine absurd ⟨heq.1, ?_⟩ hend
              exact ((ahead_append tail).head? (by decide)).1 (by rw [heq.2]; rfl)
            · rfl
  · rename_i hcolon
    refine .inl ⟨rfl, ?_⟩
    split
    · exact absurd rfl (h.not_starts (by decide) hcolon _)
    · rfl

theorem openClass (flags : Flags) {cs ds : List Char} (h : Ahead cs ds) :
    (openClass flags cs).1 = (openClass flags ds).1 ∧ Ahead (openClass flags cs).2 (openClass flags ds).2 := by
  have hskip := h.skip flags
  unfold Pattern.openClass
  split
  · rename_i after hcaret
    rw [hcaret, ahead_cons] at hskip
    simp only [hskip]
    exact ⟨trivial, ahead_append after⟩
  · rename_i hcaret
    split
    · rename_i heq
      exact absurd heq (hskip.not_starts (by decide) hcaret _)
    · exact ⟨rfl, hskip⟩

theorem ne_close_of_operator {c : Char} {operator : SetOperator} (h : SetOperator.ofChar? c = some operator) : c ≠ ')' := by
  rintro rfl
  cases h

/-- The rest of a class is read before the anchor; further fuel changes nothing. -/
theorem classItems (flags : Flags) {fuel fuel' : Nat} (hfuel : fuel ≤ fuel') (around : List OpenClass) (c : OpenClass) {cs ds : List Char}
    {x : WrittenSet} {rest : List Char} (hahead : Ahead cs ds) (h : classItems flags around c fuel cs = some (x, rest)) :
    ∃ rest', classItems flags around c fuel' ds = some (x, rest') ∧ Ahead rest rest' := by
  induction fuel generalizing fuel' around c cs ds with
  | zero => cases h
  | succ fuel ih =>
    obtain ⟨fuel', rfl⟩ : ∃ more, fuel' = more + 1 := ⟨fuel' - 1, by omega⟩
    have hfuel := Nat.le_of_succ_le_succ hfuel
    have hskip := hahead.skip flags
    unfold Pattern.classItems at h ⊢
    split at h
    · cases h
    · rename_i next after hnext
      rw [hnext, ahead_cons] at hskip
      simp only [hskip]
      have hafter := ahead_append after
      split at h
      · rename_i hhyphen
        rw [if_pos hhyphen]
        exact ih hfuel _ _ hafter h
      · rename_i hhyphen
        rw [if_neg hhyphen]
        split at h
        · rename_i hclose
          rw [if_pos hclose]
          split at h
          · cases h
          · rename_i closed hclosed
            cases h
            exact ⟨_, rfl, hafter⟩
          · rename_i outer around closed hclosed
            exact ih hfuel _ _ hafter h
        · rename_i hclose
          rw [if_neg hclose]
          split at h
          · rename_i hopen
            rw [if_pos hopen]
            obtain ⟨hnone, hnone'⟩ | ⟨set, named, named', hset, hset', hnamed⟩ := namedSet flags hafter
            · obtain ⟨hinner, hinside⟩ := openClass flags hafter
              simp only [hnone] at h
              simp only [hnone', ← hinner]
              exact ih hfuel _ _ hinside h
            · simp only [hset] at h
              simp only [hset']
              obtain ⟨admitted, hadmitted, h⟩ := Option.bind_eq_some_iff.1 h
              obtain ⟨rest', hread, hrest⟩ := ih hfuel _ _ hnamed h
              exact ⟨rest', Option.bind_eq_some_iff.2 ⟨admitted, hadmitted, hread⟩, hrest⟩
          · rename_i hopen
            rw [if_neg hopen]
            split at h
            · rename_i operator hoperator htwice
              simp only [hoperator, hafter.head?_beq (ne_close_of_operator hoperator), htwice]
              exact ih hfuel _ _ (hafter.drop (beq_iff_eq.1 htwice)) h
            · rename_i hsingle
              obtain ⟨⟨item, tail⟩, hitem, h⟩ := Option.bind_eq_some_iff.1 h
              obtain ⟨tail', hitem', htail⟩ := readClassItem flags _ _ _ _ (ahead_append (next :: after)) hitem
              obtain ⟨rest', hread, hrest⟩ := ih hfuel _ _ htail h
              refine ⟨rest', ?_, hrest⟩
              split
              · rename_i operator hoperator htwice
                rw [hafter.head?_beq (ne_close_of_operator hoperator)] at htwice
                exact (hsingle operator hoperator htwice).elim
              · exact Option.bind_eq_some_iff.2 ⟨_, hitem', hread⟩

theorem readClass (flags : Flags) : Keeps (readClass flags) := by
  intro cs ds x rest hahead h
  obtain ⟨hopen, hinside⟩ := openClass flags hahead
  have hlength : cs.length + 1 ≤ ds.length + 1 := by
    rcases hahead with rfl | ⟨rfl, rfl⟩
    · rw [List.length_append]
      omega
    · exact Nat.le_refl _
  unfold Pattern.readClass at h ⊢
  dsimp only at h ⊢
  rw [← hopen]
  exact classItems flags hlength [] _ hinside h

end RouterPlan.Pattern.Keeps
