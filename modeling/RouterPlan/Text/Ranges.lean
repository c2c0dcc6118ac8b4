/-!
# Tables of code points

A class of characters is written as the list of its runs of code points, lowest first. `inRanges` looks a character up;
the tables themselves stand with the classes they define (`isBlank`, `isDecimal`, `isWordChar`, `isPrintable`). Tables are
united with `uniteRanges` and turned into their opposite with `otherRanges`.
-/

namespace RouterPlan.Text

/-- Whether `n` lies in one of the runs of an ascending table. The search stops at the first run that starts after `n`. -/
def inRanges (n : Nat) : List (Nat × Nat) → Bool
  | [] => false
  | (low, high) :: runs => if n < low then false else n ≤ high || inRanges n runs

/-- A table with one more run, which takes in the runs that it overlaps or touches. -/
def addRange (low high : Nat) : List (Nat × Nat) → List (Nat × Nat)
  | [] => [(low, high)]
  | run :: runs =>
    if high + 1 < run.1 then (low, high) :: run :: runs
    else if run.2 + 1 < low then run :: addRange low high runs
    else addRange (min run.1 low) (max run.2 high) runs

/-- What lies in one of two tables. -/
def uniteRanges (runs others : List (Nat × Nat)) : List (Nat × Nat) :=
  others.foldr (fun run runs => addRange run.1 run.2 runs) runs

/-- The greatest code point. -/
def lastCodePoint : Nat :=
  0x10FFFF

/-- The code points from `start` on that lie in no run of an ascending table. -/
def otherRangesFrom (start : Nat) : List (Nat × Nat) → List (Nat × Nat)
  | [] => if start ≤ lastCodePoint then [(start, lastCodePoint)] else []
  | (low, high) :: runs =>
    if start < low then (start, low - 1) :: otherRangesFrom (high + 1) runs else otherRangesFrom (high + 1) runs

/-- The code points that lie in no run of an ascending table. -/
def otherRanges (runs : List (Nat × Nat)) : List (Nat × Nat) :=
  otherRangesFrom 0 runs

/-- A number that is found lies in some run. -/
theorem exists_mem_of_inRanges {n : Nat} {runs : List (Nat × Nat)} (h : inRanges n runs = true) :
    ∃ run ∈ runs, run.1 ≤ n ∧ n ≤ run.2 := by
  induction runs with
  | nil => cases h
  | cons run runs ih =>
    obtain ⟨low, high⟩ := run
    rw [inRanges] at h
    split at h
    · cases h
    · rename_i hlow
      rcases Bool.or_eq_true_iff.1 h with hhigh | hrest
      · exact ⟨(low, high), List.mem_cons_self, Nat.le_of_not_lt hlow, of_decide_eq_true hhigh⟩
      · obtain ⟨run, hmem, hrun⟩ := ih hrest
        exact ⟨run, List.mem_cons_of_mem _ hmem, hrun⟩

end RouterPlan.Text
