import RouterPlan.Pattern.Basic
import RouterPlan.Pattern.Trie

/-!
# How large a pattern is

A pattern may be written in a few characters and still describe an automaton of many states. `Pattern.size` counts the
bytes of an automaton that reads texts in one direction, with a repetition written out as often as its bounds say.
`Pattern.isTooLarge` refuses patterns of which either automaton is larger than `sizeLimit`.
-/

namespace RouterPlan.Pattern

/-- Which way an automaton reads a text. -/
inductive Direction where
  | forward
  | backward
deriving DecidableEq, Repr

/-- The bytes of a state of its own. -/
def stateSize : Nat :=
  32

/-- The bytes of a reference to another state. -/
def referenceSize : Nat :=
  4

/-- The bytes of a state that chooses among `n` others. -/
def choiceSize (n : Nat) : Nat :=
  stateSize + n * referenceSize

/-- The bytes of a state that goes on by one of `n` ranges of bytes. -/
def branchSize (n : Nat) : Nat :=
  stateSize + 8 * n

/-- The numbers added up. -/
def total (sizes : List Nat) : Nat :=
  sizes.foldl (· + ·) 0

/-- The bytes of the states for one character out of the runs. In ASCII one state tells them all. Beyond it, an automaton
that reads forward has each inner part of the trie once, and one that reads backward has a state a range. -/
def runsSize (direction : Direction) (runs : List (Nat × Nat)) : Nat :=
  if runs.all (·.2 < 0x80) then stateSize + branchSize runs.length
  else
    let sequences := runs.flatMap byteSequences
    let trie := Trie.ofSequences sequences
    match direction with
    | .forward => stateSize + total (trie.nodes.eraseDups.map fun node => branchSize node.width)
    | .backward => stateSize + choiceSize sequences.length + stateSize * trie.edges

/-- The bytes of the states for one of the words, where each is a text of several characters or the only one. -/
def wordsSize (direction : Direction) (words : List (List Char)) : Nat :=
  let encode (word : List Char) : ByteSequence :=
    let bytes := word.flatMap fun c => (String.utf8EncodeChar c).map fun byte => (byte.toNat, byte.toNat)
    match direction with
    | .forward => bytes
    | .backward => bytes.reverse
  let nodes := (Trie.ofSequences (words.map encode)).nodes
  stateSize + total (nodes.map fun node =>
    choiceSize 1 + if node.width = 1 then stateSize else branchSize node.width)

/-- What is known of the states for a pattern, while it may still be one of several alternatives. -/
structure Extent where
  /-- The bytes of the alternatives' states. -/
  states : Nat
  /-- How many alternatives there are. -/
  branches : Nat := 1
  /-- The alternatives, if each of them is a text. -/
  words : Option (List (List Char)) := none
  /-- The characters of the alternatives, if each of them is one of several characters. -/
  set : Option CharSet := none

namespace Extent

/-- A pattern that takes no character and asserts nothing, which has no states of its own. -/
def nothing : Extent :=
  { states := 0, words := some [[]] }

/-- Whether the pattern takes no character and asserts nothing. -/
def isNothing (e : Extent) : Bool :=
  e.words == some [[]]

/-- The bytes of all the states. -/
def size (direction : Direction) (e : Extent) : Nat :=
  if e.branches = 1 then e.states
  else
    match e.words, e.set with
    | some words, _ =>
      if words.all (·.length = 1) then
        runsSize direction (words.flatten.foldr (fun c runs => Text.addRange c.toNat c.toNat runs) [])
      else wordsSize direction words
    | none, some set => runsSize direction set.runs
    | none, none => choiceSize e.branches + stateSize + e.states

/-- The bytes of all the states where at least one is needed. -/
def sizeAlone (direction : Direction) (e : Extent) : Nat :=
  if e.isNothing then stateSize else e.size direction

/-- One pattern after another. -/
def followedBy (direction : Direction) (first second : Extent) : Extent :=
  if first.isNothing then second
  else if second.isNothing then first
  else
    let words := match first.words, second.words with
      | some [start], some [rest] => some [start ++ rest]
      | _, _ => none
    { states := first.size direction + second.size direction, words }

/-- One pattern or another. -/
def orElse (left right : Extent) : Extent :=
  let branch (e : Extent) : Extent := if e.isNothing then { states := stateSize } else e
  let left := branch left
  let right := branch right
  { states := left.states + right.states, branches := left.branches + right.branches,
    words := do return (← left.words) ++ (← right.words), set := do return .union (← left.set) (← right.set) }

/-- A set of characters; with one character in it, it is a text. -/
def ofSet (direction : Direction) (set : CharSet) : Extent :=
  match set.runs with
  | [(low, high)] =>
    let c := Char.ofNat low
    if low = high then { states := stateSize * c.utf8Size, words := some [[c]] }
    else { states := runsSize direction [(low, high)], set }
  | runs => { states := runsSize direction runs, set }

end Extent

/-- Whether the pattern only describes the empty text. -/
def takesNothing : Pattern → Bool
  | empty => true
  | assert _ => true
  | one _ => false
  | seq first second => first.takesNothing && second.takesNothing
  | alt left right => left.takesNothing && right.takesNothing
  | rep body _ high => high == some 0 || body.takesNothing
  | group _ body => body.takesNothing

/-- Whether the pattern describes the empty text at some place. -/
def mayTakeNothing : Pattern → Bool
  | empty => true
  | assert _ => true
  | one _ => false
  | seq first second => first.mayTakeNothing && second.mayTakeNothing
  | alt left right => left.mayTakeNothing || right.mayTakeNothing
  | rep body low _ => low == 0 || body.mayTakeNothing
  | group _ body => body.mayTakeNothing

/-- The bytes of the states for a repetition of a body of `size` bytes: the body as often as it has to be there, and then
with a choice before or after each further time. -/
def repeatedSize (size low : Nat) (high : Option Nat) (mayTakeNothing : Bool) : Nat :=
  match low, high with
  | 0, none => if mayTakeNothing then size + 2 * choiceSize 2 + stateSize else size + choiceSize 2
  | low, none => low * size + choiceSize 2
  | low, some high =>
    if low = high then low * size
    else if low = 0 ∧ high = 1 then size + choiceSize 2 + stateSize
    else (if low = 0 then stateSize else low * size) + stateSize + (high - low) * (size + choiceSize 2)

/-- What is known of the states for a pattern. A body that takes nothing is repeated once at most. -/
def extent (direction : Direction) : Pattern → Extent
  | empty => .nothing
  | assert _ => { states := stateSize }
  | one set => .ofSet direction set
  | seq first second => (first.extent direction).followedBy direction (second.extent direction)
  | alt left right => (left.extent direction).orElse (right.extent direction)
  | rep body low high =>
    let inside := body.extent direction
    let low := if body.takesNothing then min low 1 else low
    let high := if body.takesNothing then some (min (high.getD 1) 1) else high
    if high = some 0 then .nothing
    else if low = 1 ∧ high = some 1 then inside
    else { states := repeatedSize (inside.sizeAlone direction) low high body.mayTakeNothing }
  | group captures body =>
    let inside := body.extent direction
    if !captures then inside
    else
      match direction with
      | .forward => { states := inside.sizeAlone direction + 2 * stateSize }
      | .backward => { states := inside.sizeAlone direction }

/-- The bytes of an automaton that finds the pattern: its own states, one to start and one to end with, and in the forward
direction those that remember where it was found. -/
def size (direction : Direction) (p : Pattern) : Nat :=
  (group true p).extent direction |>.size direction |> (· + 2 * stateSize)

/-- How many bytes an automaton may have. -/
def sizeLimit : Nat :=
  0xA00000

/-- Whether the pattern is too large to be used. -/
def isTooLarge (p : Pattern) : Bool :=
  sizeLimit < p.size .forward || sizeLimit < p.size .backward

end RouterPlan.Pattern
