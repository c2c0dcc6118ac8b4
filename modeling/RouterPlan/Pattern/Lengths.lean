/-!
# Stretches of a text by their lengths

A set of stretches of a text is kept as a table: for each place of the text, from the first to the last, the lengths of
those that start there. The lengths are the bits of a number. Tables are joined as the stretches are, one after another
(`followedBy`) and any number of times (`star`).
-/

namespace RouterPlan.Pattern

/-- A step done so many times. Once it changes nothing, the rest of the times is left out. -/
def repeatStep {α : Type} [DecidableEq α] (step : α → α) : Nat → α → α
  | 0, x => x
  | n + 1, x => if step x = x then x else repeatStep step n (step x)

/-- A step that changes nothing may be left out. -/
theorem repeatStep_eq {α : Type} [DecidableEq α] (step : α → α) (n : Nat) (x : α) :
    repeatStep step n x = n.repeat step x := by
  have hcomm : ∀ n x, Nat.repeat step n (step x) = step (Nat.repeat step n x) := by
    intro n
    induction n with
    | zero => simp [Nat.repeat]
    | succ n ih => intro x; simp [Nat.repeat, ih]
  induction n generalizing x with
  | zero => rfl
  | succ n ih =>
    simp only [repeatStep, Nat.repeat]
    split
    · rename_i h
      rw [← hcomm, h]
      clear ih
      induction n with
      | zero => rfl
      | succ n ih => rw [Nat.repeat, ← ih, h]
    · rw [ih, hcomm]

/-- Some places of a text: for each place from one on whether it is one of them. Places after the end of the list are
not. -/
abbrev Places :=
  List Bool

/-- For each place from one on, the lengths of the stretches that start there, as the bits of a number. No stretches start
after the end of the list. -/
abbrev Lengths :=
  List Nat

namespace Lengths

/-- The lengths of a stretch whose length is in `lengths` and one of the table after it. -/
def extend (lengths : Nat) : Lengths → Nat
  | [] => 0
  | here :: later =>
    if lengths = 0 then 0
    else (if lengths.testBit 0 then here else 0) ||| extend (lengths >>> 1) later <<< 1

/-- Stretches of the first table, each with one of the second after it. -/
def followedBy : Lengths → Lengths → Lengths
  | [], _ => []
  | first :: firsts, seconds => extend first seconds :: followedBy firsts seconds.tail

/-- Stretches of the table one after another, any number of them. -/
def star : Lengths → Lengths
  | [] => []
  | here :: later =>
    let later := star later
    (1 ||| extend (here >>> 1) later <<< 1) :: later

/-- Stretches that are in one of two tables. -/
def either (table other : Lengths) : Lengths :=
  List.zipWith (· ||| ·) table other

/-- The places where stretches of the table end; those that go on from before end at the bits of `running`. -/
def ends (running : Nat) : Lengths → Places
  | [] => if running = 0 then [] else (List.range (running.log2 + 1)).map (running.testBit ·)
  | here :: later =>
    let running := running ||| here
    let isEnd := running.testBit 0
    let later := ends (running >>> 1) later
    if isEnd || !later.isEmpty then isEnd :: later else []

/-- The empty stretches at some places. -/
def empties (places : Places) : Lengths :=
  places.map fun place => if place then 1 else 0

/-- The stretches that start at some places. -/
def startingAt (places : Places) (table : Lengths) : Lengths :=
  List.zipWith (fun place here => if place then here else 0) places table

end Lengths

end RouterPlan.Pattern
