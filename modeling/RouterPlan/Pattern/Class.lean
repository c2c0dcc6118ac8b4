import RouterPlan.Pattern.Escape

/-!
# Classes in brackets

A class lists characters, ranges and sets, and may hold classes of its own. The operators `&&`, `--` and `~~` join such
lists, from left to right. `OpenClass` is a class of which the closing bracket has not been read; `readClass` reads one
with all that stands in it.
-/

namespace RouterPlan.Pattern

/-- What joins two lists of a class. -/
inductive SetOperator where
  | intersection
  | difference
  | symmetricDifference
deriving DecidableEq, Repr

namespace SetOperator

/-- The character that the operator has twice. -/
def ofChar? : Char → Option SetOperator
  | '&' => some intersection
  | '-' => some difference
  | '~' => some symmetricDifference
  | _ => none

/-- The set of the operator. -/
def join (a b : CharSet) : SetOperator → CharSet
  | intersection => .inter a b
  | difference => a.difference b
  | symmetricDifference => a.symmetricDifference b

end SetOperator

/-- A set as it is written, and how many levels of brackets, lists and operators are in it. -/
structure WrittenSet where
  set : CharSet
  depth : Nat := 0
deriving DecidableEq, Repr

/-- A class up to a place in it. -/
structure OpenClass where
  negated : Bool := false
  /-- What stands before the last operator. -/
  left : Option (SetOperator × WrittenSet) := none
  /-- The set of the list after it. -/
  list : CharSet := .none
  /-- How many items the list has. -/
  count : Nat := 0
  /-- The depth of its deepest item. -/
  depth : Nat := 0
  /-- Whether nothing but hyphens has been read, so that a hyphen is itself, and a closing bracket in front is too. -/
  fresh : Bool := true
deriving DecidableEq, Repr

namespace OpenClass

/-- The class with one more item. -/
def add (c : OpenClass) (item : WrittenSet) (fresh : Bool) : OpenClass :=
  { c with list := if c.count = 0 then item.set else .union c.list item.set, count := c.count + 1,
           depth := max c.depth item.depth, fresh }

/-- The set of all that has been read. -/
def value (flags : Flags) (c : OpenClass) : WrittenSet :=
  let list : WrittenSet := ⟨c.list, if 1 < c.count then c.depth + 1 else c.depth⟩
  match c.left with
  | none => list
  | some (operator, left) => ⟨operator.join (flags.fold left.set) (flags.fold list.set), max left.depth list.depth + 1⟩

/-- The class after an operator. -/
def operate (flags : Flags) (c : OpenClass) (operator : SetOperator) : OpenClass :=
  { negated := c.negated, left := some (operator, c.value flags), fresh := false }

/-- The whole class, if it does not go beyond ASCII where it must not. -/
def close? (flags : Flags) (c : OpenClass) : Option WrittenSet := do
  let inside := c.value flags
  let set := flags.fold inside.set
  return ⟨← flags.admit? (if c.negated then .complement set else set), inside.depth + 1⟩

end OpenClass

/-- A class after its opening bracket, and the text after the caret that it may have in front. -/
def openClass (flags : Flags) (cs : List Char) : OpenClass × List Char :=
  match flags.skip cs with
  | '^' :: cs => ({ negated := true }, cs)
  | cs => ({}, cs)

/-- The sets that have a name, which colons and brackets stand around. -/
def namedRanges : List (String × List (Char × Char)) :=
  [("alnum", [('0', '9'), ('A', 'Z'), ('a', 'z')]), ("alpha", [('A', 'Z'), ('a', 'z')]), ("ascii", [('\x00', '\x7f')]),
    ("blank", [('\t', '\t'), (' ', ' ')]), ("cntrl", [('\x00', '\x1f'), ('\x7f', '\x7f')]), ("digit", [('0', '9')]),
    ("graph", [('!', '~')]), ("lower", [('a', 'z')]), ("print", [(' ', '~')]),
    ("punct", [('!', '/'), (':', '@'), ('[', '\x60'), ('\x7b', '~')]), ("space", [('\t', '\r'), (' ', ' ')]),
    ("upper", [('A', 'Z')]), ("word", [('0', '9'), ('A', 'Z'), ('_', '_'), ('a', 'z')]),
    ("xdigit", [('0', '9'), ('A', 'F'), ('a', 'f')])]

/-- The set that a name between colons and brackets writes, without the opening bracket, and the text after it. A caret
in front of the name stands for the characters that are not in the set. -/
def readNamedSet (flags : Flags) (cs : List Char) : Option (CharSet × List Char) := do
  let ':' :: cs := cs | none
  let negated := cs.head? == some '^'
  let (name, rest) := (if negated then cs.drop 1 else cs).span (· != ':')
  let ':' :: ']' :: rest := rest | none
  let set := flags.fold (.ofRanges (← namedRanges.lookup (String.ofList name)))
  return (if negated then .complement set else set, rest)

/-- What a class has at the start of a text: a character, or a set, and the text after it. -/
def readClassAtom (flags : Flags) : List Char → Option (Escape × List Char)
  | [] => none
  | '\\' :: cs => Escape.read flags cs
  | c :: cs => some (.literal c, cs)

/-- Whether a hyphen stands here and a range goes on after it: not so before a closing bracket or another hyphen. -/
def rangeRest? (flags : Flags) : List Char → Option (List Char)
  | '-' :: cs =>
    match flags.skip cs with
    | ']' :: _ => none
    | '-' :: _ => none
    | cs => some cs
  | _ => none

/-- An item of a class, which is a range if a hyphen and another character follow. -/
def readClassItem (flags : Flags) (cs : List Char) : Option (CharSet × List Char) := do
  let (first, rest) ← readClassAtom flags cs
  let rest := flags.skip rest
  match first, rangeRest? flags rest with
  | .literal low, some rest => do
    let (.literal high, rest) ← readClassAtom flags rest | none
    if low ≤ high ∧ flags.admitsChar high then some (.range low high, rest) else none
  | .literal c, none => if flags.admitsChar c then some (.single c, rest) else none
  | .set set, none => return (set, rest)
  | _, _ => none

/-- Reads the rest of a class and of the classes `around` it, with one item, operator or bracket for each unit of fuel. -/
def classItems (flags : Flags) (around : List OpenClass) (c : OpenClass) : Nat → List Char →
    Option (WrittenSet × List Char)
  | 0, _ => none
  | fuel + 1, cs =>
    match flags.skip cs with
    | [] => none
    | next :: rest =>
      if c.fresh ∧ (next = '-' ∨ next = ']' ∧ c.count = 0) then
        classItems flags around (c.add ⟨.single next, 0⟩ (next == '-')) fuel rest
      else if next = ']' then
        match around, c.close? flags with
        | _, none => none
        | [], some closed => some (closed, rest)
        | outer :: around, some closed => classItems flags around (outer.add closed false) fuel rest
      else if next = '[' then
        match readNamedSet flags rest with
        | some (set, rest) => do classItems flags around (c.add ⟨← flags.admit? set, 0⟩ false) fuel rest
        | none =>
          let (inner, rest) := openClass flags rest
          classItems flags (c :: around) inner fuel rest
      else
        match SetOperator.ofChar? next, rest.head? == some next with
        | some operator, true => classItems flags around (c.operate flags operator) fuel (rest.drop 1)
        | _, _ => do
          let (item, rest) ← readClassItem flags (next :: rest)
          classItems flags around (c.add ⟨item, 0⟩ false) fuel rest

/-- A class after its opening bracket, and the text after it. -/
def readClass (flags : Flags) (cs : List Char) : Option (WrittenSet × List Char) :=
  let (c, rest) := openClass flags cs
  classItems flags [] c (cs.length + 1) rest

end RouterPlan.Pattern
