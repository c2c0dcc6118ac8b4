import RouterPlan.Text.Ranges

/-!
# Sequences of byte ranges

A set of characters is read byte by byte: each of its runs is cut into sequences of byte ranges, so that the texts with
one byte from each range in turn are the UTF-8 forms of some characters of the run (`byteSequences`). A `Trie` holds
sequences with their common starts put together.
-/

namespace RouterPlan.Pattern

/-- Ranges of bytes, one after another. -/
abbrev ByteSequence :=
  List (Nat × Nat)

/-- How many numbers so many digits of six bits write. -/
def digitUnit : Nat → Nat
  | 0 => 1
  | digits + 1 => 64 * digitUnit digits

/-- The sequences that write the numbers from `low` to `high` in a byte that counts up from `mark` and `digits` bytes of
six bits after it. -/
def numberSequences (mark low high : Nat) : Nat → List ByteSequence
  | 0 => [[(mark + low, mark + high)]]
  | digits + 1 =>
    let unit := digitUnit (digits + 1)
    let first := low / unit
    let last := high / unit
    let under (lead low high : Nat) : List ByteSequence :=
      (numberSequences 0x80 low high digits).map ((mark + lead, mark + lead) :: ·)
    if first = last then under first (low % unit) (high % unit)
    else
      let cutLow := low % unit != 0
      let cutHigh := high % unit + 1 != unit
      let start := if cutLow then first + 1 else first
      let stop := if cutHigh then last else last + 1
      (if cutLow then under first (low % unit) (unit - 1) else []) ++
        (if start < stop then [(mark + start, mark + stop - 1) :: List.replicate (digits + 1) (0x80, 0xBF)] else []) ++
        if cutHigh then under last 0 (high % unit) else []

/-- The code points with one form in UTF-8: the least and the greatest, how many bytes follow the first, and the mark of
the first. Surrogates have none. -/
def utf8Forms : List (Nat × Nat × Nat × Nat) :=
  [(0, 0x7F, 0, 0), (0x80, 0x7FF, 1, 0xC0), (0x800, 0xD7FF, 2, 0xE0), (0xE000, 0xFFFF, 2, 0xE0),
    (0x10000, 0x10FFFF, 3, 0xF0)]

/-- The sequences for the code points of a run. -/
def byteSequences (run : Nat × Nat) : List ByteSequence :=
  utf8Forms.flatMap fun (low, high, digits, mark) =>
    let low := max low run.1
    let high := min high run.2
    if low ≤ high then numberSequences mark low high digits else []

/-- Sequences by their first range: each range with the sequences after it. -/
inductive Trie where
  | nil
  | cons (range : Nat × Nat) (below rest : Trie)
deriving DecidableEq, Repr

namespace Trie

/-- The trie of one sequence. -/
def ofSequence (sequence : ByteSequence) : Trie :=
  sequence.foldr (fun range below => cons range below nil) nil

/-- The trie with one more sequence. -/
def insert (sequence : ByteSequence) : Trie → Trie
  | nil => ofSequence sequence
  | cons range below rest =>
    match sequence with
    | [] => cons range below rest
    | first :: more =>
      if first = range then cons range (below.insert more) rest else cons range below (rest.insert sequence)

/-- The trie of a list of sequences. -/
def ofSequences (sequences : List ByteSequence) : Trie :=
  sequences.foldl (fun trie sequence => trie.insert sequence) nil

/-- How many ranges the first ones are. -/
def width : Trie → Nat
  | nil => 0
  | cons _ _ rest => rest.width + 1

/-- How many ranges there are in all. -/
def edges : Trie → Nat
  | nil => 0
  | cons _ below rest => below.edges + rest.edges + 1

/-- The tries below the ranges, as far as they are not empty. -/
def inner : Trie → List Trie
  | nil => []
  | cons _ below rest => (if below = nil then [] else below :: below.inner) ++ rest.inner

/-- The trie, if it is not empty, and those below its ranges. -/
def nodes (trie : Trie) : List Trie :=
  if trie = nil then [] else trie :: trie.inner

end Trie

end RouterPlan.Pattern
