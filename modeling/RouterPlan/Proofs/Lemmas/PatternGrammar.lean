import RouterPlan.Pattern.Engine
import RouterPlan.Proofs.Lemmas.AnchoredText
import RouterPlan.Proofs.Lemmas.Stretches

/-!
# Patterns as expressions

The engine of patterns does what a package of regular expressions is said to do: texts that write patterns are its expressions, and
they match the stretches that these patterns describe (`Pattern.documented`).
-/

namespace RouterPlan.Pattern

variable {p : Pattern} {s : List Char} {i j : Nat}

/-- The pattern describes the text from one place to another. -/
def Matches (p : Pattern) (s : List Char) (i j : Nat) : Prop :=
  i ≤ s.length ∧ ∃ n, i + n = j ∧ p.Describes s i n

/-- The expressions that patterns are. -/
def grammar : RegexGrammar :=
  fun text => (written? text).map Matches

theorem grammar_eq_some_iff {text : String} {matched : List Char → Nat → Nat → Prop} :
    grammar text = some matched ↔ ∃ p, written? text = some p ∧ p.Matches = matched :=
  Option.map_eq_some_iff

theorem grammar_eq_none_iff {text : String} : grammar text = none ↔ written? text = none :=
  Option.map_eq_none_iff

/-- What a pattern matches ends within the text. -/
theorem Matches.le_length (h : p.Matches s i j) : j ≤ s.length := by
  obtain ⟨hi, n, rfl, hp⟩ := h
  exact Nat.le_of_lt_succ (describes_within s p i n (Nat.lt_succ_of_le hi) hp)

theorem isFoundIn_iff_matches (p : Pattern) (text : String) :
    p.isFoundIn text = true ↔ ∃ i j, p.Matches text.toList i j := by
  rw [isFoundIn_iff]
  constructor
  · rintro ⟨i, n, hi, hp⟩
    exact ⟨i, i + n, hi, n, rfl, hp⟩
  · rintro ⟨i, _, hi, n, rfl, hp⟩
    exact ⟨i, n, hi, hp⟩

/-- An end behind a pattern. -/
theorem matches_group_end (p : Pattern) (s : List Char) (i j : Nat) :
    (seq (group false p) (assert .endOfText)).Matches s i j ↔ p.Matches s i j ∧ j = s.length := by
  have hend : ∀ k, Assertion.holds (charBefore s k) s[k]? .endOfText = true ↔ s.length ≤ k := fun k => by
    simp [Assertion.holds]
  constructor
  · rintro ⟨hi, _, rfl, n, _, rfl, hp, rfl, hlast⟩
    have hmatches : p.Matches s i (i + n) := ⟨hi, n, rfl, hp⟩
    exact ⟨hmatches, Nat.le_antisymm hmatches.le_length ((hend _).1 hlast)⟩
  · rintro ⟨⟨hi, n, rfl, hp⟩, hlast⟩
    exact ⟨hi, n, rfl, n, 0, rfl, hp, rfl, (hend _).2 (Nat.le_of_eq hlast.symm)⟩

/-- A start in front of a pattern. -/
theorem matches_start (p : Pattern) (s : List Char) (i j : Nat) :
    (seq (assert .startOfText) p).Matches s i j ↔ i = 0 ∧ p.Matches s i j := by
  have hstart : ∀ k ≤ s.length, (Assertion.holds (charBefore s k) s[k]? .startOfText = true ↔ k = 0) := fun k hk => by
    cases k with
    | zero => simp [Assertion.holds, charBefore]
    | succ k => simp [Assertion.holds, charBefore, Nat.lt_of_succ_le hk]
  constructor
  · rintro ⟨hi, _, rfl, _, n, rfl, ⟨rfl, hfirst⟩, hp⟩
    exact ⟨(hstart i hi).1 hfirst, hi, n, by rw [Nat.zero_add], hp⟩
  · rintro ⟨rfl, hi, n, rfl, hp⟩
    exact ⟨hi, n, rfl, 0, n, (Nat.zero_add n).symm, ⟨rfl, (hstart 0 hi).2 rfl⟩, hp⟩

/-- The engine of patterns keeps to the documentation. -/
theorem documented : RegexEngine.Documented grammar where
  refuses := by
    intro text hnone
    have hnone := grammar_eq_none_iff.1 hnone
    cases hread : ofText? text with
    | none => exact Option.map_eq_none_iff.2 hread
    | some p =>
      rw [written?_of_ofText? hread] at hnone
      cases hnone
  isMatch_iff := by
    intro text regex matched hcompile hgrammar s
    obtain ⟨p, hp, rfl⟩ := Option.map_eq_some_iff.1 hcompile
    obtain ⟨q, hq, rfl⟩ := grammar_eq_some_iff.1 hgrammar
    obtain rfl : p = q := Option.some.inj ((written?_of_ofText? hp).symm.trans hq)
    exact isFoundIn_iff_matches p s
  group_end := by
    intro text matched whole hgrammar hwhole
    obtain ⟨p, hp, rfl⟩ := grammar_eq_some_iff.1 hgrammar
    obtain ⟨q, hq, rfl⟩ := grammar_eq_some_iff.1 hwhole
    obtain rfl := written?_closed hp hq
    exact matches_group_end p
  start_group_end := by
    intro text whole hgrammar hwhole
    obtain ⟨p, hp⟩ := Option.ne_none_iff_exists'.1 (mt grammar_eq_none_iff.2 hgrammar)
    obtain ⟨q, hq, rfl⟩ := grammar_eq_some_iff.1 hwhole
    obtain ⟨closed, hclosed⟩ : ∃ closed, written? ("(?:" ++ text ++ ")$") = some closed := by
      rw [← Option.isSome_iff_exists, ← isSome_written?_anchored, hq]
      rfl
    obtain rfl := written?_anchored hp hq
    obtain rfl := written?_closed hp hclosed
    exact ⟨_, grammar_eq_some_iff.2 ⟨_, hclosed, rfl⟩, matches_start _⟩

end RouterPlan.Pattern
