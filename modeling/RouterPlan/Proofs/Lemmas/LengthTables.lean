import Mathlib.Data.List.GetD
import RouterPlan.Pattern.Lengths

/-!
# Tables of lengths

A table of lengths stands for a set of stretches of a text (`Lengths.Has`). What the operations on tables make is what they are meant
to make of these sets: stretches one after another, any number of times, from some places on, and the places where they end.
-/

namespace RouterPlan.Pattern

/-- A set of stretches of a text, each by its place and its length. -/
abbrev Stretches :=
  Nat → Nat → Prop

namespace Stretches

/-- A stretch of the first set with one of the second after it. -/
def Then (R S : Stretches) : Stretches :=
  fun i n => ∃ k m, n = k + m ∧ R i k ∧ S (i + k) m

/-- So many stretches of the set, one after another. -/
def Times (R : Stretches) : Nat → Stretches
  | 0 => fun _ n => n = 0
  | times + 1 => R.Then (R.Times times)

/-- The stretches that start at one of the first `bound` places end there too. -/
def Within (R : Stretches) (bound : Nat) : Prop :=
  ∀ i n, i < bound → R i n → i + n < bound

variable {R S : Stretches} {bound : Nat}

theorem Within.then (hR : R.Within bound) (hS : S.Within bound) : (R.Then S).Within bound := by
  rintro i n hi ⟨k, m, rfl, hk, hm⟩
  have hend := hS (i + k) m (hR i k hi hk) hm
  omega

theorem Within.times (hR : R.Within bound) (times : Nat) : (R.Times times).Within bound := by
  induction times with
  | zero =>
    intro i n hi hn
    rw [show n = 0 from hn]
    exact hi
  | succ times ih => exact hR.then ih

/-- Sets that agree on the places of a text make the same rows there. -/
theorem times_congr (hR : R.Within bound) (h : ∀ i n, i < bound → (S i n ↔ R i n)) (times : Nat) {i n : Nat} (hi : i < bound) :
    S.Times times i n ↔ R.Times times i n := by
  induction times generalizing i n with
  | zero => exact Iff.rfl
  | succ times ih =>
    constructor
    · rintro ⟨k, m, rfl, hk, hm⟩
      have hR' := (h i k hi).1 hk
      exact ⟨k, m, rfl, hR', (ih (hR i k hi hR')).1 hm⟩
    · rintro ⟨k, m, rfl, hk, hm⟩
      exact ⟨k, m, rfl, (h i k hi).2 hk, (ih (hR i k hi hk)).2 hm⟩

/-- A row that takes up characters starts with a stretch that does; empty ones before it may be left out. -/
theorem Times.eq_zero_or {times i n : Nat} (h : R.Times times i n) :
    n = 0 ∨ ∃ k m times, n = k + 1 + m ∧ R i (k + 1) ∧ R.Times times (i + (k + 1)) m := by
  induction times generalizing i n with
  | zero => exact .inl h
  | succ times ih =>
    obtain ⟨k, m, rfl, hk, hm⟩ := h
    cases k with
    | zero =>
      rw [Nat.zero_add]
      exact ih hm
    | succ k => exact .inr ⟨k, m, times, rfl, hk, hm⟩

end Stretches

/-! ## The tables -/

namespace Lengths

/-- The stretches that a table holds. -/
def Has (table : Lengths) : Stretches :=
  fun i n => (table.getD i 0).testBit n = true

@[simp] theorem not_has_nil (i n : Nat) : ¬Has [] i n := by
  simp [Has]

@[simp] theorem has_cons_zero (here : Nat) (later : Lengths) (n : Nat) : Has (here :: later) 0 n ↔ here.testBit n = true := by
  simp [Has]

@[simp] theorem has_cons_succ (here : Nat) (later : Lengths) (i n : Nat) : Has (here :: later) (i + 1) n ↔ later.Has i n := by
  simp [Has]

@[simp] theorem has_tail (table : Lengths) (i n : Nat) : Has table.tail i n ↔ table.Has (i + 1) n := by
  cases table <;> simp

theorem Has.lt {table : Lengths} {i n : Nat} (h : table.Has i n) : i < table.length := by
  refine Nat.lt_of_not_le fun hle => ?_
  rw [Has, List.getD_eq_default _ _ hle] at h
  simp at h

/-- A number shifted by one place has the bits one place further on. -/
theorem testBit_shiftLeft_one (x n : Nat) : (x <<< 1).testBit n = true ↔ ∃ m, n = m + 1 ∧ x.testBit m = true := by
  cases n with
  | zero => simp
  | succ n => simp [Nat.testBit_shiftLeft]

theorem testBit_shiftRight_one (x n : Nat) : (x >>> 1).testBit n = x.testBit (n + 1) := by
  rw [Nat.testBit_shiftRight, Nat.add_comm]

theorem testBit_extend (lengths : Nat) (table : Lengths) (n : Nat) :
    (extend lengths table).testBit n = true ↔ ∃ k m, n = k + m ∧ lengths.testBit k = true ∧ table.Has k m := by
  induction table generalizing lengths n with
  | nil => simp [extend]
  | cons here later ih =>
    unfold extend
    split
    · rename_i hzero
      simp [hzero]
    · rw [Nat.testBit_or, Bool.or_eq_true, testBit_shiftLeft_one]
      constructor
      · rintro (hhere | ⟨m, rfl, hlater⟩)
        · split at hhere
          · rename_i hbit
            exact ⟨0, n, (Nat.zero_add n).symm, hbit, (has_cons_zero here later n).2 hhere⟩
          · simp at hhere
        · obtain ⟨k, m, rfl, hk, hm⟩ := (ih (lengths >>> 1) _).1 hlater
          rw [testBit_shiftRight_one] at hk
          exact ⟨k + 1, m, by omega, hk, (has_cons_succ here later k m).2 hm⟩
      · rintro ⟨k, m, rfl, hk, hm⟩
        cases k with
        | zero =>
          left
          rw [if_pos hk, Nat.zero_add]
          exact (has_cons_zero here later m).1 hm
        | succ k =>
          refine .inr ⟨k + m, by omega, (ih (lengths >>> 1) _).2 ⟨k, m, rfl, ?_, (has_cons_succ here later k m).1 hm⟩⟩
          rwa [testBit_shiftRight_one]

@[simp] theorem length_followedBy (table seconds : Lengths) : (table.followedBy seconds).length = table.length := by
  induction table generalizing seconds with
  | nil => rfl
  | cons first firsts ih => rw [followedBy, List.length_cons, ih, List.length_cons]

theorem has_followedBy (table seconds : Lengths) (i n : Nat) :
    (table.followedBy seconds).Has i n ↔ table.Has.Then seconds.Has i n := by
  induction table generalizing seconds i with
  | nil => simp [followedBy, Stretches.Then]
  | cons first firsts ih =>
    unfold followedBy
    cases i with
    | zero => simp [testBit_extend, Stretches.Then]
    | succ i => simp [ih, Stretches.Then, Nat.add_right_comm]

theorem has_either {table other : Lengths} (h : table.length = other.length) (i n : Nat) :
    (table.either other).Has i n ↔ table.Has i n ∨ other.Has i n := by
  unfold either
  induction table generalizing other i with
  | nil =>
    cases other with
    | nil => simp
    | cons here later => simp at h
  | cons here later ih =>
    cases other with
    | nil => simp at h
    | cons here' later' => cases i <;> simp [ih (Nat.succ.inj h)]

@[simp] theorem length_empties (places : Places) : (empties places).length = places.length :=
  List.length_map _

theorem has_empties (places : Places) (i n : Nat) : (empties places).Has i n ↔ places.getD i false = true ∧ n = 0 := by
  unfold empties
  induction places generalizing i with
  | nil => simp
  | cons place places ih =>
    cases i with
    | zero => cases place <;> simp [Nat.testBit_one_eq_true_iff_self_eq_zero]
    | succ i => simpa using ih i

theorem length_startingAt {places : Places} {table : Lengths} (h : places.length ≤ table.length) :
    (table.startingAt places).length = places.length := by
  rw [startingAt, List.length_zipWith, Nat.min_eq_left h]

theorem has_startingAt (places : Places) (table : Lengths) (i n : Nat) :
    (table.startingAt places).Has i n ↔ places.getD i false = true ∧ table.Has i n := by
  unfold startingAt
  induction places generalizing table i with
  | nil => simp
  | cons place places ih =>
    cases table with
    | nil => simp
    | cons here later =>
      cases i with
      | zero => cases place <;> simp
      | succ i => simpa using ih later i

@[simp] theorem length_star (table : Lengths) : (star table).length = table.length := by
  induction table with
  | nil => rfl
  | cons here later ih => rw [star, List.length_cons, ih, List.length_cons]

/-- Rows of stretches from a later place on do not use the first one. -/
theorem times_has_cons (here : Nat) (later : Lengths) (times i n : Nat) :
    (Has (here :: later)).Times times (i + 1) n ↔ later.Has.Times times i n := by
  induction times generalizing i n with
  | zero => exact Iff.rfl
  | succ times ih => simp [Stretches.Times, Stretches.Then, ← ih, Nat.add_right_comm]

/-- Rows of any number of stretches. A stretch must not end after the table, where the empty row is not in it. -/
theorem has_star {table : Lengths} (h : table.Has.Within table.length) (i n : Nat) :
    (star table).Has i n ↔ i < table.length ∧ ∃ times, table.Has.Times times i n := by
  induction table generalizing i n with
  | nil => simp [star]
  | cons here later ih =>
    have hlater : (Has later).Within later.length := by
      intro j m hj hm
      have hend := h (j + 1) m (Nat.succ_lt_succ hj) ((has_cons_succ here later j m).2 hm)
      rw [List.length_cons] at hend
      omega
    unfold star
    cases i with
    | succ i =>
      rw [has_cons_succ, ih hlater, List.length_cons, Nat.succ_lt_succ_iff]
      simp only [times_has_cons]
    | zero =>
      simp only [has_cons_zero, Nat.testBit_or, Bool.or_eq_true, testBit_shiftLeft_one, testBit_extend, ih hlater,
        Nat.testBit_one_eq_true_iff_self_eq_zero, List.length_cons, Nat.zero_lt_succ, true_and]
      constructor
      · rintro (rfl | ⟨_, rfl, k, m, rfl, hk, -, times, hm⟩)
        · exact ⟨0, rfl⟩
        · rw [testBit_shiftRight_one] at hk
          refine ⟨times + 1, k + 1, m, by omega, (has_cons_zero here later (k + 1)).2 hk, ?_⟩
          rw [Nat.zero_add]
          exact (times_has_cons here later times k m).2 hm
      · rintro ⟨times, htimes⟩
        obtain rfl | ⟨k, m, times', rfl, hk, hm⟩ := htimes.eq_zero_or
        · exact .inl rfl
        · have hend := h 0 (k + 1) (Nat.zero_lt_succ _) hk
          rw [Nat.zero_add] at hm
          refine .inr ⟨k + m, by omega, k, m, rfl, ?_, ?_, times', (times_has_cons here later times' k m).1 hm⟩
          · rw [testBit_shiftRight_one]
            exact (has_cons_zero here later (k + 1)).1 hk
          · rw [List.length_cons] at hend
            omega

/-- The places where stretches end: those that go on from before, and those of the table. -/
theorem getD_ends (running : Nat) (table : Lengths) (j : Nat) :
    (table.ends running).getD j false = true ↔ running.testBit j = true ∨ ∃ i k, j = i + k ∧ table.Has i k := by
  induction table generalizing running j with
  | nil =>
    have hrange : running ≠ 0 → (((List.range (running.log2 + 1)).map (running.testBit ·)).getD j false = running.testBit j) := by
      intro hne
      by_cases hj : j < running.log2 + 1
      · simp [List.getD_eq_getElem?_getD, hj]
      · have hsmall : running < 2 ^ j := (Nat.log2_lt hne).1 (by omega)
        rw [Nat.testBit_lt_two_pow hsmall, List.getD_eq_default _ _ (by simpa using hj)]
    unfold ends
    split
    · rename_i hzero
      simp [hzero]
    · rename_i hne
      simp only [not_has_nil, and_false, exists_const, or_false]
      rw [hrange hne]
  | cons here later ih =>
    -- Where no end is listed from here on the list stops, which is the same to `getD`.
    have hcons : ∀ (isEnd : Bool) (places : Places),
        (if isEnd || !places.isEmpty then isEnd :: places else []).getD j false = (isEnd :: places).getD j false := by
      intro isEnd places
      cases isEnd <;> cases places <;> cases j <;> simp
    unfold ends
    dsimp only
    rw [hcons]
    cases j with
    | zero =>
      rw [List.getD_cons_zero, Nat.testBit_or, Bool.or_eq_true]
      refine or_congr_right ⟨fun hhere => ⟨0, 0, rfl, (has_cons_zero here later 0).2 hhere⟩, ?_⟩
      rintro ⟨i, k, hik, hk⟩
      obtain ⟨rfl, rfl⟩ : i = 0 ∧ k = 0 := by omega
      exact (has_cons_zero here later 0).1 hk
    | succ j =>
      rw [List.getD_cons_succ, ih, testBit_shiftRight_one, Nat.testBit_or, Bool.or_eq_true, or_assoc]
      refine or_congr_right ⟨?_, ?_⟩
      · rintro (hhere | ⟨i, k, rfl, hk⟩)
        · exact ⟨0, j + 1, (Nat.zero_add _).symm, (has_cons_zero here later _).2 hhere⟩
        · exact ⟨i + 1, k, by omega, (has_cons_succ here later i k).2 hk⟩
      · rintro ⟨i, k, hik, hk⟩
        cases i with
        | zero =>
          rw [Nat.zero_add] at hik
          exact .inl (hik ▸ (has_cons_zero here later k).1 hk)
        | succ i => exact .inr ⟨i, k, by omega, (has_cons_succ here later i k).1 hk⟩

/-- The last place that is listed is an end. -/
theorem getLast?_ends (running : Nat) (table : Lengths) : (table.ends running).getLast? ≠ some false := by
  induction table generalizing running with
  | nil =>
    unfold ends
    split
    · simp
    · rename_i hne
      simp [List.range_succ, Nat.testBit_log2 hne]
  | cons here later ih =>
    unfold ends
    dsimp only
    have hlater := ih ((running ||| here) >>> 1)
    revert hlater
    generalize ends ((running ||| here) >>> 1) later = places
    cases (running ||| here).testBit 0 <;> cases places <;> simp

/-- No more places are listed than the text has. -/
theorem length_ends_le {table : Lengths} {bound : Nat} (h : table.Has.Within bound) (hbound : table.length ≤ bound) :
    (table.ends 0).length ≤ bound := by
  refine Nat.le_of_not_lt fun hlong => ?_
  have hlast := getLast?_ends 0 table
  rw [List.getLast?_eq_getElem?, List.getElem?_eq_getElem (by omega)] at hlast
  have hend : (table.ends 0).getD ((table.ends 0).length - 1) false = true := by
    rw [List.getD_eq_getElem _ _ (by omega)]
    simpa using hlast
  obtain hrunning | ⟨i, k, hik, hk⟩ := (getD_ends 0 table _).1 hend
  · simp at hrunning
  · have := h i k (Nat.lt_of_lt_of_le hk.lt hbound) hk
    omega

/-- One stretch before rows of stretches makes rows that are longer by one. -/
theorem has_followedBy_rows {once table : Lengths} (h : once.Has.Within once.length) {P : Nat → Prop} (low : Nat)
    (htable : ∀ i n, table.Has i n ↔ i < once.length ∧ ∃ times, P times ∧ once.Has.Times (low + times) i n) (i n : Nat) :
    (once.followedBy table).Has i n ↔ i < once.length ∧ ∃ times, P times ∧ once.Has.Times (low + 1 + times) i n := by
  rw [has_followedBy]
  constructor
  · rintro ⟨k, m, rfl, hk, hm⟩
    obtain ⟨-, times, htimes, hrow⟩ := (htable (i + k) m).1 hm
    refine ⟨hk.lt, times, htimes, ?_⟩
    rw [Nat.add_right_comm]
    exact ⟨k, m, rfl, hk, hrow⟩
  · rintro ⟨hi, times, htimes, hrow⟩
    rw [Nat.add_right_comm] at hrow
    obtain ⟨k, m, rfl, hk, hm⟩ := hrow
    exact ⟨k, m, rfl, hk, (htable (i + k) m).2 ⟨h i k hi hk, times, htimes, hm⟩⟩

theorem has_repeat_followedBy {once table : Lengths} (h : once.Has.Within once.length) {P : Nat → Prop}
    (htable : ∀ i n, table.Has i n ↔ i < once.length ∧ ∃ times, P times ∧ once.Has.Times times i n) (low i n : Nat) :
    (Nat.repeat once.followedBy low table).Has i n ↔
      i < once.length ∧ ∃ times, P times ∧ once.Has.Times (low + times) i n := by
  induction low generalizing i n with
  | zero =>
    simp only [Nat.zero_add]
    exact htable i n
  | succ low ih => exact has_followedBy_rows h low ih i n

theorem length_repeat_followedBy {once table : Lengths} (h : table.length = once.length) (low : Nat) :
    (Nat.repeat once.followedBy low table).length = once.length := by
  cases low with
  | zero => exact h
  | succ low => exact length_followedBy once _

/-- Rows of at most `more` stretches. -/
theorem has_repeat_either {once empties : Lengths} (h : once.Has.Within once.length) (hlength : empties.length = once.length)
    (hempties : ∀ i n, empties.Has i n ↔ i < once.length ∧ n = 0) (more i n : Nat) :
    (Nat.repeat (fun table => empties.either (once.followedBy table)) more empties).Has i n ↔
      i < once.length ∧ ∃ times, times ≤ more ∧ once.Has.Times times i n := by
  induction more generalizing i n with
  | zero =>
    rw [Nat.repeat, hempties]
    simp only [Nat.le_zero, exists_eq_left]
    rfl
  | succ more ih =>
    have hrows := has_followedBy_rows h 0 (by simpa using ih) i n
    rw [Nat.repeat, has_either (by rw [length_followedBy, hlength]), hempties, hrows, ← and_or_left]
    refine and_congr_right fun _ => ?_
    constructor
    · rintro (rfl | ⟨times, htimes, hrow⟩)
      · exact ⟨0, Nat.zero_le _, rfl⟩
      · exact ⟨0 + 1 + times, by omega, hrow⟩
    · rintro ⟨times, htimes, hrow⟩
      cases times with
      | zero => exact .inl hrow
      | succ times => exact .inr ⟨times, Nat.le_of_succ_le_succ htimes, by rwa [Nat.zero_add, Nat.add_comm]⟩

/-- The table holds the stretches of a set that start at one of the starts, and no others. -/
structure Holds (table : Lengths) (starts : Places) (R : Stretches) : Prop where
  length : table.length = starts.length
  has : ∀ i n, table.Has i n ↔ starts.getD i false = true ∧ R i n

namespace Holds

variable {table other : Lengths} {starts : Places} {R S : Stretches} {bound : Nat}

theorem empties (starts : Places) : (empties starts).Holds starts fun _ n => n = 0 :=
  ⟨length_empties starts, has_empties starts⟩

theorem nil (R : Stretches) : Holds [] [] R :=
  ⟨rfl, by simp⟩

theorem either (h : table.Holds starts R) (h' : other.Holds starts S) :
    (table.either other).Holds starts fun i n => R i n ∨ S i n := by
  refine ⟨?_, fun i n => ?_⟩
  · rw [Lengths.either, List.length_zipWith, h.length, h'.length, Nat.min_self]
  · rw [has_either (h.length.trans h'.length.symm), h.has, h'.has, ← and_or_left]

theorem length_ends_le (h : table.Holds starts R) (hR : R.Within bound) (hstarts : starts.length ≤ bound) :
    (table.ends 0).length ≤ bound :=
  Lengths.length_ends_le (fun i n hi hn => hR i n hi ((h.has i n).1 hn).2) (h.length ▸ hstarts)

/-- The second table is only needed from the places on where stretches of the first one end. -/
theorem followedBy (h : table.Holds starts R) (h' : other.Holds (table.ends 0) S) :
    (table.followedBy other).Holds starts (R.Then S) := by
  refine ⟨by rw [length_followedBy, h.length], fun i n => ?_⟩
  rw [has_followedBy]
  constructor
  · rintro ⟨k, m, rfl, hk, hm⟩
    obtain ⟨hstart, hR⟩ := (h.has i k).1 hk
    exact ⟨hstart, k, m, rfl, hR, ((h'.has (i + k) m).1 hm).2⟩
  · rintro ⟨hstart, k, m, rfl, hk, hm⟩
    have hhere := (h.has i k).2 ⟨hstart, hk⟩
    exact ⟨k, m, rfl, hhere, (h'.has (i + k) m).2 ⟨(getD_ends 0 table _).2 (.inr ⟨i, k, rfl, hhere⟩), hm⟩⟩

end Holds

end Lengths

end RouterPlan.Pattern
