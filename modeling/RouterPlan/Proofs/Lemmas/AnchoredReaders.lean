import RouterPlan.Pattern.Reader
import RouterPlan.Proofs.Lemmas.Words

/-!
# Reading in front of an anchor

A rule's pattern is read with `)$` after it. A reader that reads something from a text alone reads the same with the anchor after the
text, and leaves the anchor to be read (`Pattern.Keeps`). Only a comment at the end of the text takes the anchor in (`Pattern.Ahead`).
Here are the readers of all parts but classes.
-/

namespace RouterPlan.Pattern

/-- What stands after a pattern that is anchored. -/
def anchorEnd : List Char :=
  [')', '$']

/-- What is left of a text with the anchor after it, where `cs` is left of the text alone: the anchor is still there, unless a comment
at the end of the text has taken it in. -/
def Ahead (cs ds : List Char) : Prop :=
  ds = cs ++ anchorEnd ∨ cs = [] ∧ ds = []

theorem ahead_append (cs : List Char) : Ahead cs (cs ++ anchorEnd) :=
  .inl rfl

theorem ahead_nil {ds : List Char} : Ahead [] ds ↔ ds = anchorEnd ∨ ds = [] := by
  simp [Ahead]

@[simp] theorem ahead_cons {c : Char} {cs ds : List Char} : Ahead (c :: cs) ds ↔ ds = c :: (cs ++ anchorEnd) := by
  simp [Ahead]

theorem ahead_skipSpace (inComment : Bool) (cs : List Char) :
    Ahead (Flags.skipSpace inComment cs) (Flags.skipSpace inComment (cs ++ anchorEnd)) := by
  induction cs generalizing inComment with
  | nil =>
    rw [Flags.skipSpace, ahead_nil]
    cases inComment
    · exact .inl (by decide)
    · exact .inr (by decide)
  | cons c cs ih =>
    rw [List.cons_append, Flags.skipSpace, Flags.skipSpace]
    split
    · exact ih _
    · split
      · exact ih _
      · split
        · exact ih _
        · exact ahead_cons.2 rfl

theorem Ahead.skip {cs ds : List Char} (h : Ahead cs ds) (flags : Flags) : Ahead (flags.skip cs) (flags.skip ds) := by
  unfold Flags.skip
  split
  · rcases h with rfl | ⟨rfl, rfl⟩
    · exact ahead_skipSpace false cs
    · exact .inr ⟨rfl, rfl⟩
  · exact h

/-- With the anchor after it, a text has the same first character, or a parenthesis or nothing where it has none. -/
theorem Ahead.head? {cs ds : List Char} (h : Ahead cs ds) {c : Char} (hc : c ≠ ')') : ds.head? = some c ↔ cs.head? = some c := by
  cases cs with
  | nil => rcases ahead_nil.1 h with rfl | rfl <;> simp [anchorEnd, Ne.symm hc]
  | cons d cs =>
    rw [ahead_cons.1 h]
    simp

theorem Ahead.head?_beq {cs ds : List Char} (h : Ahead cs ds) {c : Char} (hc : c ≠ ')') :
    (ds.head? == some c) = (cs.head? == some c) := by
  rw [Bool.eq_iff_iff, beq_iff_eq, beq_iff_eq]
  exact h.head? hc

/-- A text that does not start with a character, other than a closing parenthesis, does not start with it before the anchor. -/
theorem Ahead.not_starts {cs ds : List Char} (h : Ahead cs ds) {c : Char} (hc : c ≠ ')') (hnot : ∀ rest, cs = c :: rest → False)
    (rest : List Char) : ds ≠ c :: rest := by
  rintro rfl
  obtain ⟨rest', hrest⟩ := List.head?_eq_some_iff.1 ((h.head? hc).1 rfl)
  exact hnot rest' hrest

theorem Ahead.drop {cs ds : List Char} (h : Ahead cs ds) {c : Char} (hc : cs.head? = some c) : Ahead (cs.drop 1) (ds.drop 1) := by
  cases cs with
  | nil => cases hc
  | cons d cs =>
    rw [ahead_cons.1 h]
    exact ahead_append cs

/-- A run of characters that ends within the text ends there with the anchor too. -/
theorem Ahead.span {cs ds : List Char} (h : Ahead cs ds) {p : Char → Bool} {run : List Char} {c : Char} {rest : List Char}
    (hspan : cs.span p = (run, c :: rest)) : ds.span p = (run, c :: (rest ++ anchorEnd)) := by
  rw [List.span_eq_takeWhile_dropWhile, Prod.mk.injEq] at hspan
  obtain ⟨rfl, hdrop⟩ := hspan
  have hcs : cs.takeWhile p ++ c :: rest = cs := by
    rw [← hdrop, List.takeWhile_append_dropWhile]
  have hc : p c = false := by
    have hhead := List.head?_dropWhile_not p cs
    rw [hdrop] at hhead
    simpa using hhead
  have hds : ds = cs.takeWhile p ++ c :: (rest ++ anchorEnd) := by
    rcases h with rfl | ⟨rfl, -⟩
    · conv_lhs => rw [← hcs]
      simp
    · cases hdrop
  rw [hds]
  refine Text.span_append (fun d hd => List.mem_takeWhile_imp hd) fun d hd => ?_
  obtain rfl : c = d := Option.some.inj hd
  exact hc

/-- A run of characters that goes on to the end of the text goes on over an anchor that does not end it. -/
theorem Ahead.span_all {cs ds : List Char} (h : Ahead cs ds) {p : Char → Bool} (hp : ∀ c ∈ anchorEnd, p c = true)
    (hspan : (cs.span p).2 = []) : (ds.span p).2 = [] := by
  rw [List.span_eq_takeWhile_dropWhile] at hspan ⊢
  rw [List.dropWhile_eq_nil_iff] at hspan ⊢
  intro c hc
  rcases h with rfl | ⟨-, rfl⟩
  · rcases List.mem_append.1 hc with hc | hc
    · exact hspan c hc
    · exact hp c hc
  · cases hc

/-- A run of characters among which there is no closing parenthesis ends before the anchor. -/
theorem Ahead.run {cs ds : List Char} (h : Ahead cs ds) {p : Char → Bool} (hp : p ')' = false) :
    ds.takeWhile p = cs.takeWhile p ∧ Ahead (cs.dropWhile p) (ds.dropWhile p) := by
  induction cs generalizing ds with
  | nil => rcases ahead_nil.1 h with rfl | rfl <;> simp [anchorEnd, hp, Ahead]
  | cons c cs ih =>
    obtain rfl := ahead_cons.1 h
    obtain ⟨htake, hdrop⟩ := ih (ahead_append cs)
    cases hc : p c
    · simp [hc]
    · simpa [hc, htake] using hdrop

/-! ## Readers -/

/-- A reader that reads from a text in front of the anchor what it reads from the text alone. -/
def Keeps {α : Type} (read : List Char → Option (α × List Char)) : Prop :=
  ∀ cs ds x rest, Ahead cs ds → read cs = some (x, rest) → ∃ rest', read ds = some (x, rest') ∧ Ahead rest rest'

namespace Keeps

theorem map {α β : Type} {read : List Char → Option (α × List Char)} (h : Keeps read) (f : α → β) :
    Keeps fun cs => (read cs).map fun (x, rest) => (f x, rest) := by
  intro cs ds y rest hahead hread
  obtain ⟨⟨x, after⟩, hx, hy⟩ := Option.map_eq_some_iff.1 hread
  cases hy
  obtain ⟨rest', hx', hrest⟩ := h cs ds x rest hahead hx
  exact ⟨rest', Option.map_eq_some_iff.2 ⟨_, hx', rfl⟩, hrest⟩

theorem flagsRead (flags : Flags) (on : Bool) (seen : List Char) : Keeps (flags.read on seen) := by
  intro cs ds x rest hahead h
  induction cs generalizing flags on seen ds with
  | nil => cases h
  | cons c cs ih =>
    obtain rfl := ahead_cons.1 hahead
    unfold Flags.read at h ⊢
    split at h
    · rename_i hend
      rw [if_pos hend]
      split at h
      · cases h
      · rename_i hseen
        cases h
        exact ⟨_, if_neg hseen, ahead_cons.2 rfl⟩
    · rename_i hend
      rw [if_neg hend]
      split at h
      · cases h
      · rename_i hnew
        rw [if_neg hnew]
        split at h
        · rename_i hhyphen
          rw [if_pos hhyphen]
          exact ih _ _ _ _ (ahead_append cs) h
        · rename_i hhyphen
          rw [if_neg hhyphen]
          obtain ⟨flags', hset, hread⟩ := Option.bind_eq_some_iff.1 h
          obtain ⟨rest', hread', hrest⟩ := ih _ _ _ _ (ahead_append cs) hread
          exact ⟨rest', Option.bind_eq_some_iff.2 ⟨flags', hset, hread'⟩, hrest⟩

theorem readName : Keeps readName := by
  intro cs ds x rest hahead h
  unfold Pattern.readName at h ⊢
  split at h
  · rename_i hspan
    rw [hahead.span hspan]
    dsimp only
    split at h
    · rename_i hname
      cases h
      exact ⟨_, if_pos hname, ahead_append _⟩
    · cases h
  · cases h

theorem readCounts (flags : Flags) : Keeps (readCounts flags) := by
  intro cs ds x rest hahead h
  unfold Pattern.readCounts at h ⊢
  split at h
  · rename_i inside after hspan
    have hafter := (ahead_append after).skip flags
    simp only [hahead.span hspan]
    revert h
    rcases inside.span (· != ',') with ⟨low, _ | ⟨comma, high⟩⟩ <;> intro h
    · obtain ⟨least, hleast, h⟩ := Option.bind_eq_some_iff.1 h
      cases h
      exact ⟨_, Option.bind_eq_some_iff.2 ⟨least, hleast, rfl⟩, hafter⟩
    · obtain ⟨least, hleast, h⟩ := Option.bind_eq_some_iff.1 h
      split at h
      · rename_i hopen
        cases h
        exact ⟨_, Option.bind_eq_some_iff.2 ⟨least, hleast, if_pos hopen⟩, hafter⟩
      · rename_i hopen
        obtain ⟨most, hmost, h⟩ := Option.bind_eq_some_iff.1 h
        split at h
        · rename_i hle
          cases h
          exact ⟨_, Option.bind_eq_some_iff.2 ⟨least, hleast,
            (if_neg hopen).trans (Option.bind_eq_some_iff.2 ⟨most, hmost, if_pos hle⟩)⟩, hafter⟩
        · cases h
  · cases h

theorem readTimes (flags : Flags) (c : Char) : Keeps (readTimes flags c) := by
  intro cs ds x rest hahead h
  obtain ⟨⟨times, after⟩, hread, h⟩ := Option.map_eq_some_iff.1 h
  cases h
  have hlazy : ∀ after', Ahead after after' → Ahead (if after.head? = some '?' then after.drop 1 else after)
      (if after'.head? = some '?' then after'.drop 1 else after') := by
    intro after' hafter
    have hhead := hafter.head? (show '?' ≠ ')' by decide)
    by_cases hmark : after.head? = some '?'
    · simpa only [if_pos hmark, if_pos (hhead.2 hmark)] using hafter.drop hmark
    · simpa only [if_neg hmark, if_neg (mt hhead.1 hmark)] using hafter
  split at hread
  · cases hread
    exact ⟨_, rfl, hlazy ds hahead⟩
  · cases hread
    exact ⟨_, rfl, hlazy ds hahead⟩
  · cases hread
    exact ⟨_, rfl, hlazy ds hahead⟩
  · obtain ⟨after', hread', hafter⟩ := readCounts flags cs ds _ _ hahead hread
    exact ⟨_, Option.map_eq_some_iff.2 ⟨_, hread', rfl⟩, hlazy after' hafter⟩
  · cases hread

theorem readOpening (flags : Flags) : Keeps (readOpening flags) := by
  intro cs ds x rest hahead h
  have hskip := hahead.skip flags
  unfold Pattern.readOpening at h ⊢
  revert h hskip
  generalize flags.skip cs = cs
  generalize flags.skip ds = ds
  intro h hskip
  split at h
  · rename_i after
    obtain rfl := ahead_cons.1 hskip
    exact readName.map (Opening.named · { flags }) _ _ _ _ (ahead_append after) h
  · rename_i after
    obtain rfl := ahead_cons.1 hskip
    exact readName.map (Opening.named · { flags }) _ _ _ _ (ahead_append after) h
  · rename_i after hnamed hname
    rw [ahead_cons] at hskip
    -- Flags are switched here, so neither letter of a name stands after the question mark, with or without the anchor.
    have hletters : ∃ c cs, after = c :: cs ∧ c ≠ 'P' ∧ c ≠ '<' := by
      cases after with
      | nil => cases h
      | cons c cs =>
        refine ⟨c, cs, rfl, ?_, ?_⟩
        · rintro rfl
          cases h
        · rintro rfl
          exact hname cs rfl
    obtain ⟨c, cs, rfl, hP, hangle⟩ := hletters
    have hopens : ∀ flags' stop more, flags.read true [] (c :: cs) = some (flags', stop :: more) →
        flags.read true [] (c :: (cs ++ anchorEnd)) = some (flags', stop :: (more ++ anchorEnd)) := by
      intro flags' stop more hread
      obtain ⟨rest', hread', hrest⟩ := flagsRead flags true [] _ _ _ _ (ahead_append (c :: cs)) hread
      rwa [ahead_cons.1 hrest] at hread'
    subst hskip
    split at h
    · rename_i flags' more hread
      cases h
      refine ⟨_, ?_, ahead_append rest⟩
      simp [hP, hangle, hopens _ _ _ hread]
    · rename_i flags' stop more hstop hread
      split at h
      · cases h
      · rename_i hclosed
        cases h
        refine ⟨_, ?_, ahead_append rest⟩
        rw [List.head?_cons, Option.some.injEq] at hclosed
        simp [hP, hangle, hopens _ _ _ hread, hclosed]
    · cases h
  · rename_i hmark
    cases h
    have hmark' := hskip.not_starts (by decide) hmark
    refine ⟨ds, ?_, hskip⟩
    split
    · exact absurd rfl (hmark' _)
    · exact absurd rfl (hmark' _)
    · exact absurd rfl (hmark' _)
    · rfl

theorem readDigits (flags : Flags) (n : Nat) : Keeps (Escape.readDigits flags n) := by
  induction n with
  | zero =>
    intro cs ds x rest hahead h
    cases h
    exact ⟨ds, rfl, hahead⟩
  | succ n ih =>
    intro cs ds x rest hahead h
    unfold Escape.readDigits at h ⊢
    have hskip := hahead.skip flags
    split at h
    · cases h
    · rename_i digit after hdigit
      rw [hdigit, ahead_cons] at hskip
      rw [hskip]
      obtain ⟨⟨digits, after'⟩, hdigits, h⟩ := Option.bind_eq_some_iff.1 h
      cases h
      obtain ⟨rest', hdigits', hrest⟩ := ih _ _ _ _ (ahead_append after) hdigits
      exact ⟨rest', Option.bind_eq_some_iff.2 ⟨_, hdigits', rfl⟩, hrest⟩

theorem readHex (flags : Flags) (width : Nat) : Keeps (Escape.readHex flags width) := by
  intro cs ds x rest hahead h
  have hskip := hahead.skip flags
  -- Whichever way the digits are read, the number is made of them alone.
  have hnumber : ∀ (digits after after' : List Char), Ahead after after' →
      (if digits.isEmpty then none else do return (Escape.literal (← Text.charOfHex? digits), after)) = some (x, rest) →
      ∃ rest', (if digits.isEmpty then none else do return (Escape.literal (← Text.charOfHex? digits), after')) = some (x, rest') ∧
        Ahead rest rest' := by
    intro digits after after' hafter hread
    split at hread
    · cases hread
    · rename_i hsome
      obtain ⟨c, hc, hread⟩ := Option.bind_eq_some_iff.1 hread
      cases hread
      exact ⟨after', (if_neg hsome).trans (Option.bind_eq_some_iff.2 ⟨c, hc, rfl⟩), hafter⟩
  unfold Escape.readHex at h ⊢
  dsimp only at h ⊢
  split at h
  · rename_i inside hbrace
    rw [hbrace, ahead_cons] at hskip
    split at h
    · rename_i hspan
      simp only [hskip, (ahead_append inside).span hspan]
      exact hnumber _ _ _ (ahead_append _) h
    · cases h
  · rename_i hbrace
    obtain ⟨⟨digits, after⟩, hdigits, h⟩ := Option.bind_eq_some_iff.1 h
    obtain ⟨after', hdigits', hafter⟩ := readDigits flags width _ _ _ _ hskip hdigits
    obtain ⟨rest', hnumber', hrest⟩ := hnumber digits after after' hafter h
    refine ⟨rest', ?_, hrest⟩
    split
    · rename_i hopen
      exact absurd hopen (hskip.not_starts (by decide) hbrace _)
    · exact Option.bind_eq_some_iff.2 ⟨_, hdigits', hnumber'⟩

theorem readBorder (flags : Flags) : Keeps (Escape.readBorder flags) := by
  intro cs ds x rest hahead h
  unfold Escape.readBorder at h ⊢
  dsimp only at h ⊢
  split at h
  · rename_i inside
    obtain rfl := ahead_cons.1 hahead
    have hinside := (ahead_append inside).skip flags
    obtain ⟨hname, hafter⟩ := hinside.run (p := fun c => c.isAlpha || c == '-') (by decide)
    have hclose := hafter.skip flags
    simp only [hname]
    split at h
    · rename_i hnone
      cases h
      exact ⟨_, if_pos hnone, ahead_cons.2 rfl⟩
    · rename_i hnamed
      rw [if_neg hnamed]
      split at h
      · rename_i after hbrace
        rw [hbrace, ahead_cons] at hclose
        obtain ⟨border, hborder, h⟩ := Option.map_eq_some_iff.1 h
        cases h
        refine ⟨_, ?_, ahead_append _⟩
        simp only [hclose, hborder, Option.map_some]
      · cases h
  · rename_i hbrace
    cases h
    refine ⟨ds, ?_, hahead⟩
    split
    · exact absurd rfl (hahead.not_starts (by decide) hbrace _)
    · rfl

theorem escapeRead (flags : Flags) : Keeps (Escape.read flags) := by
  intro cs ds x rest hahead h
  cases cs with
  | nil => cases h
  | cons c cs =>
    obtain rfl := ahead_cons.1 hahead
    unfold Escape.read at h ⊢
    dsimp only at h ⊢
    revert h
    cases Escape.hexWidths.lookup c with
    | some width => exact readHex flags width _ _ _ _ (ahead_append cs)
    | none =>
      cases Escape.controlLetters.lookup c with
      | some control =>
        rintro ⟨⟩
        exact ⟨_, rfl, ahead_append _⟩
      | none =>
        cases (Escape.setLetters flags).lookup c with
        | some chars =>
          intro h
          obtain ⟨set, hset, h⟩ := Option.map_eq_some_iff.1 h
          cases h
          exact ⟨_, Option.map_eq_some_iff.2 ⟨set, hset, rfl⟩, ahead_append _⟩
        | none =>
          cases (Escape.assertionLetters flags).lookup c with
          | some a =>
            intro h
            dsimp only at h ⊢
            split at h
            · rename_i hborder
              rw [if_pos hborder]
              exact (readBorder flags).map (fun kind => Escape.assertion (.border kind flags.word)) _ _ _ _ (ahead_append cs) h
            · rename_i hborder
              cases h
              exact ⟨_, if_neg hborder, ahead_append _⟩
          | none =>
            intro h
            dsimp only at h ⊢
            split at h
            · cases h
            · rename_i hplain
              cases h
              exact ⟨_, if_neg hplain, ahead_append _⟩

end Keeps

end RouterPlan.Pattern
