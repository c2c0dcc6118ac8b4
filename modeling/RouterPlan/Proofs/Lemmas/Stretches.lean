import RouterPlan.Pattern.Search
import RouterPlan.Proofs.Lemmas.LengthTables

/-!
# What patterns describe

`Pattern.Describes` says which stretches of a text a pattern describes, part by part. The search computes them for all places of the
text at once, in tables of lengths; the tables hold these stretches and no others (`Pattern.holds_lengths`), so that a pattern is found
in a text exactly if it describes some stretch of it (`Pattern.isFoundIn_iff`).
-/

namespace RouterPlan.Pattern

/-- The character before a place of a text; there is none at the start. -/
def charBefore (text : List Char) : Nat → Option Char
  | 0 => none
  | i + 1 => text[i]?

/-- The stretches of a text that a pattern describes. -/
def Describes (text : List Char) : Pattern → Stretches
  | empty => fun _ n => n = 0
  | assert assertion => fun i n => n = 0 ∧ assertion.holds (charBefore text i) text[i]? = true
  | one set => fun i n => n = 1 ∧ text[i]?.any set.contains = true
  | seq first second => (first.Describes text).Then (second.Describes text)
  | alt left right => fun i n => left.Describes text i n ∨ right.Describes text i n
  | rep body low high => fun i n =>
    ∃ extra, (∀ most ∈ high, extra ≤ most - low) ∧ (body.Describes text).Times (low + extra) i n
  | group _ body => body.Describes text

/-- What a pattern describes ends within the text. -/
theorem describes_within (text : List Char) (p : Pattern) : (p.Describes text).Within (text.length + 1) := by
  induction p with
  | empty =>
    intro i n hi hn
    rw [show n = 0 from hn]
    exact hi
  | assert assertion =>
    rintro i n hi ⟨rfl, -⟩
    exact hi
  | one set =>
    rintro i n hi ⟨rfl, hset⟩
    obtain ⟨c, hc, -⟩ := (Option.any_eq_true _ _).1 hset
    have := (List.getElem?_eq_some_iff.1 hc).1
    omega
  | seq first second hfirst hsecond => exact hfirst.then hsecond
  | alt left right hleft hright =>
    rintro i n hi (h | h)
    · exact hleft i n hi h
    · exact hright i n hi h
  | rep body low high hbody =>
    rintro i n hi ⟨extra, -, hrow⟩
    exact hbody.times (low + extra) i n hi hrow
  | group captures body hbody => exact hbody

@[simp] theorem length_surroundings (before : Option Char) (text : List Char) :
    (surroundings before text).length = text.length + 1 := by
  induction text generalizing before with
  | nil => rfl
  | cons c cs ih => rw [surroundings, List.length_cons, ih, List.length_cons]

theorem getElem?_surroundings (before : Option Char) (text : List Char) {i : Nat} (h : i < text.length + 1) :
    (surroundings before text)[i]? = some (if i = 0 then before else charBefore text i, text[i]?) := by
  induction text generalizing before i with
  | nil =>
    obtain rfl : i = 0 := by simpa using h
    rfl
  | cons c cs ih =>
    unfold surroundings
    cases i with
    | zero => rfl
    | succ i =>
      rw [List.getElem?_cons_succ, ih _ (by simpa using h)]
      cases i <;> rfl

/-- A table that is made place by place, from what stands before and after the place. -/
theorem holds_zipWith {text : List Char} {starts : Places} (h : starts.length ≤ text.length + 1)
    (f : Bool → Option Char × Option Char → Nat) (hf : ∀ place, f false place = 0) :
    Lengths.Holds (List.zipWith f starts (surroundings none text)) starts
      fun i n => (f true (charBefore text i, text[i]?)).testBit n = true := by
  refine ⟨by rw [List.length_zipWith, length_surroundings, Nat.min_eq_left h], fun i n => ?_⟩
  unfold Lengths.Has
  rw [List.getD_eq_getElem?_getD, List.getD_eq_getElem?_getD, List.getElem?_zipWith]
  by_cases hi : i < starts.length
  · rw [List.getElem?_eq_getElem hi, getElem?_surroundings none text (Nat.lt_of_lt_of_le hi h)]
    have hbefore : (if i = 0 then none else charBefore text i) = charBefore text i := by
      cases i <;> rfl
    rw [hbefore]
    cases starts[i] <;> simp [hf]
  · rw [List.getElem?_eq_none (Nat.le_of_not_lt hi)]
    simp

theorem length_everywhere (text : List Char) : ((surroundings none text).map fun _ => true).length ≤ text.length + 1 := by
  simp

/-- All places of a text, as starts. -/
theorem getD_everywhere (text : List Char) (i : Nat) :
    ((surroundings none text).map fun _ => true).getD i false = true ↔ i < text.length + 1 := by
  rw [List.getD_eq_getElem?_getD, List.getElem?_map]
  by_cases hi : i < text.length + 1
  · simp [hi]
  · rw [List.getElem?_eq_none (by simpa using hi)]
    simp [hi]

/-- Rows of the stretches of a table, as a repetition makes them: as many as there have to be, and then as many more as there may. -/
theorem repeated_spec {once empties : Lengths} (h : once.Has.Within once.length) (hlength : empties.length = once.length)
    (hempties : ∀ i n, empties.Has i n ↔ i < once.length ∧ n = 0) (low : Nat) (high : Option Nat) :
    let optional := match high with
      | none => once.star
      | some high => repeatStep (fun table => empties.either (once.followedBy table)) (high - low) empties
    let rows := repeatStep once.followedBy low optional
    rows.length = once.length ∧ ∀ i n, rows.Has i n ↔
      i < once.length ∧ ∃ extra, (∀ most ∈ high, extra ≤ most - low) ∧ once.Has.Times (low + extra) i n := by
  intro optional rows
  have hrows : rows = Nat.repeat once.followedBy low optional := repeatStep_eq _ _ _
  have hoptional : optional.length = once.length ∧ ∀ i n, optional.Has i n ↔
      i < once.length ∧ ∃ extra, (∀ most ∈ high, extra ≤ most - low) ∧ once.Has.Times extra i n := by
    cases high with
    | none =>
      refine ⟨Lengths.length_star once, fun i n => (Lengths.has_star h i n).trans ?_⟩
      simp
    | some most =>
      have hoptional : optional = Nat.repeat (fun table => empties.either (once.followedBy table)) (most - low) empties :=
        repeatStep_eq _ _ _
      rw [hoptional]
      refine ⟨?_, fun i n => (Lengths.has_repeat_either h hlength hempties (most - low) i n).trans ?_⟩
      · cases most - low with
        | zero => exact hlength
        | succ more => simp [Nat.repeat, Lengths.either, hlength]
      · simp
  rw [hrows]
  exact ⟨Lengths.length_repeat_followedBy hoptional.1 low, Lengths.has_repeat_followedBy h hoptional.2 low⟩

/-- The table of a repetition, from the table of its body for all places of the text. -/
theorem holds_rep {text : List Char} {starts : Places} (h : starts.length ≤ text.length + 1) {body : Pattern}
    (hbody : (body.lengths (surroundings none text) ((surroundings none text).map fun _ => true)).Holds
      ((surroundings none text).map fun _ => true) (body.Describes text)) (low : Nat) (high : Option Nat) :
    (lengths (surroundings none text) starts (rep body low high)).Holds starts ((rep body low high).Describes text) := by
  have hlength := hbody.length
  have honce := hbody.has
  rw [List.length_map, length_surroundings] at hlength
  simp only [getD_everywhere] at honce
  have hwithin := describes_within text body
  have hempties : ∀ i n, Lengths.Has (Lengths.empties ((surroundings none text).map fun _ => true)) i n ↔
      i < text.length + 1 ∧ n = 0 := by
    intro i n
    rw [Lengths.has_empties, getD_everywhere]
  rw [← hlength] at hempties hwithin
  obtain ⟨hrowsLength, hrows⟩ := repeated_spec (fun i n hi hn => hwithin i n hi ((honce i n).1 hn).2)
    ((Lengths.length_empties _).trans hbody.length.symm) hempties low high
  unfold lengths
  split
  · rename_i hempty
    rw [List.isEmpty_iff.1 hempty]
    exact .nil _
  · refine ⟨Lengths.length_startingAt (Nat.le_trans h (Nat.le_of_eq (hrowsLength.trans hlength).symm)), fun i n => ?_⟩
    refine (Lengths.has_startingAt starts _ i n).trans (and_congr_right fun hstart => (hrows i n).trans ?_)
    have hi : i < text.length + 1 := by
      refine Nat.lt_of_not_le fun hle => ?_
      rw [List.getD_eq_default _ _ (Nat.le_trans h hle)] at hstart
      cases hstart
    rw [hlength, and_iff_right hi]
    refine exists_congr fun extra => and_congr_right fun _ => ?_
    exact Stretches.times_congr (describes_within text body) (fun j k hj => by rw [honce, and_iff_right hj]) _ hi

/-- The table of a pattern holds the stretches that it describes from the starts on. -/
theorem holds_lengths (text : List Char) (p : Pattern) {starts : Places} (h : starts.length ≤ text.length + 1) :
    (p.lengths (surroundings none text) starts).Holds starts (p.Describes text) := by
  induction p generalizing starts with
  | empty => exact .empties starts
  | assert assertion =>
    unfold lengths Lengths.empties
    rw [List.map_zipWith]
    have hplaces := holds_zipWith h (fun start place =>
      if start && assertion.holds place.1 place.2 then 1 else 0) fun _ => rfl
    refine ⟨hplaces.length, fun i n => (hplaces.has i n).trans ?_⟩
    cases hholds : assertion.holds (charBefore text i) text[i]? <;>
      simp [Describes, hholds, Nat.testBit_one_eq_true_iff_self_eq_zero]
  | one set =>
    have hplaces := holds_zipWith h (fun start place => if start && place.2.any set.contains then 2 else 0) fun _ => rfl
    refine ⟨hplaces.length, fun i n => (hplaces.has i n).trans ?_⟩
    have htwo : Nat.testBit 2 n = true ↔ n = 1 := by
      rw [show 2 = 1 <<< 1 from rfl, Lengths.testBit_shiftLeft_one]
      simp [Nat.testBit_one_eq_true_iff_self_eq_zero]
    cases hset : text[i]?.any set.contains <;> simp [Describes, hset, htwo]
  | seq first second hfirst hsecond =>
    unfold lengths
    split
    · rename_i hempty
      rw [List.isEmpty_iff.1 hempty]
      exact .nil _
    · have hends := (hfirst h).length_ends_le (describes_within text first) h
      exact (hfirst h).followedBy (hsecond hends)
  | alt left right hleft hright => exact (hleft h).either (hright h)
  | rep body low high hbody => exact holds_rep h (hbody (length_everywhere text)) low high
  | group captures body hbody => exact hbody h

/-- A pattern is found in a text if it describes a stretch of it. -/
theorem isFoundIn_iff (p : Pattern) (text : String) :
    p.isFoundIn text = true ↔ ∃ i n, i ≤ text.toList.length ∧ p.Describes text.toList i n := by
  have hhas := (holds_lengths text.toList p (length_everywhere text.toList)).has
  simp only [getD_everywhere, Nat.lt_succ_iff] at hhas
  unfold isFoundIn
  simp only [List.any_eq_true, bne_iff_ne, ← hhas]
  constructor
  · rintro ⟨here, hmem, hne⟩
    obtain ⟨n, hbit⟩ := Nat.exists_testBit_of_ne_zero hne
    obtain ⟨i, hi, rfl⟩ := List.getElem_of_mem hmem
    exact ⟨i, n, by rwa [Lengths.Has, List.getD_eq_getElem _ _ hi]⟩
  · rintro ⟨i, n, hbit⟩
    have hi := hbit.lt
    rw [Lengths.Has, List.getD_eq_getElem _ _ hi] at hbit
    refine ⟨_, List.getElem_mem hi, fun hzero => ?_⟩
    rw [hzero] at hbit
    simp at hbit

end RouterPlan.Pattern
