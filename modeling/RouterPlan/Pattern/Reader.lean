import RouterPlan.Pattern.Class
import RouterPlan.Pattern.Size

/-!
# Reading patterns

The written form of patterns: literal characters, `.`, classes in brackets, `\d` and its like, groups, `|`, the
assertions `^` and `$`, and the repetitions `*`, `+`, `?` and `{m,n}`. A text is read part by part, with a stack of open
groups (`readParts`). What is not well formed has no pattern, and neither has what is nested too deep or too large.
-/

namespace RouterPlan.Pattern

/-- A part of a written pattern. -/
structure Part where
  pattern : Pattern
  /-- How many levels of groups, repetitions, rows, alternatives and brackets are in it. -/
  depth : Nat := 0
  /-- Whether a repetition may follow it. -/
  repeatable : Bool := true
deriving DecidableEq, Repr

/-- A group under construction. -/
structure Group where
  captures : Bool := true
  /-- How the next part is read. -/
  flags : Flags := {}
  /-- The alternatives before the last bar. -/
  alternatives : Option Part := none
  /-- The parts after it, last first. -/
  parts : List Part := []
deriving DecidableEq, Repr

namespace Group

/-- The group with one more part. -/
def push (g : Group) (part : Part) : Group :=
  { g with parts := part :: g.parts }

/-- The parts after the last bar in a row. -/
def row (g : Group) : Part :=
  match g.parts with
  | [] => { pattern := empty }
  | [part] => part
  | last :: parts =>
    let depth := parts.foldl (fun depth part => max depth part.depth) last.depth
    { pattern := parts.foldl (fun rest part => seq part.pattern rest) last.pattern, depth := depth + 1 }

/-- The alternatives up to here, the row after the last bar among them; their depth is that of the deepest one. -/
def allAlternatives (g : Group) : Part :=
  match g.alternatives with
  | none => g.row
  | some left => { pattern := alt left.pattern g.row.pattern, depth := max left.depth g.row.depth }

/-- The group after a bar. -/
def bar (g : Group) : Group :=
  { g with alternatives := some g.allAlternatives, parts := [] }

/-- What the group has inside. -/
def inside (g : Group) : Part :=
  let all := g.allAlternatives
  if g.alternatives.isSome then { all with depth := all.depth + 1 } else all

/-- The whole group as a part. -/
def close (g : Group) : Part :=
  { pattern := group g.captures g.inside.pattern, depth := g.inside.depth + 1 }

/-- The group with its last part repeated. -/
def times? (g : Group) (low : Nat) (high : Option Nat) : Option Group :=
  match g.parts with
  | [] => none
  | part :: parts =>
    if part.repeatable then
      some { g with parts := { pattern := rep part.pattern low high, depth := part.depth + 1 } :: parts }
    else none

end Group

/-- The greatest count of a repetition, plus one. -/
def countBound : Nat :=
  0x100000000

/-- A number in the braces of a repetition, blanks around it allowed. -/
def readCount (flags : Flags) (cs : List Char) : Option Nat :=
  let digits := Text.trim cs
  let digits := if flags.spaced then digits.filter (!Text.isBlank ·) else digits
  let n := Nat.ofDigitChars 10 digits 0
  if digits.isEmpty || !digits.all Char.isDigit || countBound ≤ n then none else some n

/-- The bounds of a repetition after its opening brace, and the text after it. -/
def readCounts (flags : Flags) (cs : List Char) : Option ((Nat × Option Nat) × List Char) := do
  let (inside, '}' :: rest) := cs.span (· != '}') | none
  match inside.span (· != ',') with
  | (low, []) =>
    let low ← readCount flags low
    return ((low, some low), flags.skip rest)
  | (low, _ :: high) =>
    let low ← readCount flags low
    if (flags.skip high).isEmpty then return ((low, none), flags.skip rest)
    let high ← readCount flags high
    if low ≤ high then return ((low, some high), flags.skip rest) else none

/-- The bounds of a repetition that starts here, if one does, and the text after it. How eager a repetition is changes no
answer, so the question mark that may follow it is left out. -/
def readTimes (flags : Flags) (c : Char) (cs : List Char) : Option ((Nat × Option Nat) × List Char) :=
  let read := match c with
    | '*' => some ((0, none), cs)
    | '+' => some ((1, none), cs)
    | '?' => some ((0, some 1), cs)
    | '{' => readCounts flags cs
    | _ => none
  read.map fun (times, rest) => (times, if rest.head? = some '?' then rest.drop 1 else rest)

/-- The part that starts with a character other than a parenthesis, a bar or a repetition, and the text after it. -/
def readPart (flags : Flags) (c : Char) (cs : List Char) : Option (Part × List Char) :=
  match c with
  | '.' => (flags.admit? flags.dot).map fun set => ({ pattern := one set }, cs)
  | '^' => some ({ pattern := assert flags.caret }, cs)
  | '$' => some ({ pattern := assert flags.dollar }, cs)
  | '[' => (readClass flags cs).map fun (set, rest) => ({ pattern := one set.set, depth := set.depth }, rest)
  | '\\' => do
    match ← Escape.read flags cs with
    | (.literal c, rest) => return ({ pattern := one (← flags.literal? c) }, rest)
    | (.set set, rest) => return ({ pattern := one set }, rest)
    | (.assertion a, rest) => return ({ pattern := assert a }, rest)
  | c => (flags.literal? c).map fun set => ({ pattern := one set }, cs)

/-- What an opening parenthesis starts. -/
inductive Opening where
  | group (g : Group)
  /-- A group with a name, which no other may have. -/
  | named (name : List Char) (g : Group)
  /-- No group, but other flags for the rest of the group around it. -/
  | setting (flags : Flags)
deriving DecidableEq, Repr

/-- Whether a character may stand in the name of a group. -/
def isNameChar (isFirst : Bool) (c : Char) : Bool :=
  c == '_' || (Text.isWordChar c && !(isFirst && Text.isDecimal c)) ||
    (!isFirst && (c == '.' || c == '[' || c == ']'))

/-- The name of a group up to its closing angle bracket, and the text after it. -/
def readName (cs : List Char) : Option (List Char × List Char) := do
  let (first :: more, _ :: rest) := cs.span (· != '>') | none
  if isNameChar true first && more.all (isNameChar false) then some (first :: more, rest) else none

/-- Reads what follows an opening parenthesis. No group looks ahead or behind. -/
def readOpening (flags : Flags) (cs : List Char) : Option (Opening × List Char) :=
  match flags.skip cs with
  | '?' :: 'P' :: '<' :: cs => (readName cs).map fun (name, rest) => (.named name { flags }, rest)
  | '?' :: '<' :: cs => (readName cs).map fun (name, rest) => (.named name { flags }, rest)
  | '?' :: cs =>
    match flags.read true [] cs with
    | some (flags, ':' :: rest) => some (.group { captures := false, flags }, rest)
    | some (flags, _ :: rest) => if cs.head? = some ')' then none else some (.setting flags, rest)
    | _ => none
  | cs => some (.group { flags }, cs)

/-- Reads the rest of the group `current` and of those `around` it, with one part, bar or parenthesis for each unit of
fuel; `names` are the groups' names so far. A repetition needs something before it in its group. -/
def readParts (names : List (List Char)) (around : List Group) (current : Group) : Nat → List Char → Option Part
  | 0, _ => none
  | fuel + 1, cs =>
    match current.flags.skip cs with
    | [] => if around.isEmpty then some current.inside else none
    | '(' :: cs =>
      match readOpening current.flags cs with
      | none => none
      | some (.group g, rest) => readParts names (current :: around) g fuel rest
      | some (.named name g, rest) =>
        if names.contains name then none else readParts (name :: names) (current :: around) g fuel rest
      | some (.setting flags, rest) =>
        readParts names around { current.push { pattern := empty, repeatable := false } with flags } fuel rest
    | ')' :: cs =>
      match around with
      | [] => none
      | outer :: around => readParts names around (outer.push current.close) fuel cs
    | '|' :: cs => readParts names around current.bar fuel cs
    | c :: cs =>
      if c = '*' ∨ c = '+' ∨ c = '?' ∨ c = '{' then do
        let ((low, high), rest) ← readTimes current.flags c cs
        readParts names around (← current.times? low high) fuel rest
      else do
        let (part, rest) ← readPart current.flags c cs
        readParts names around (current.push part) fuel rest

/-- How deep a pattern may be nested. -/
def depthLimit : Nat :=
  250

/-- The pattern that a text writes, if it is well formed and within the limits. -/
def ofText? (text : String) : Option Pattern := do
  let cs := text.toList
  let part ← readParts [] [] {} (cs.length + 1) cs
  if depthLimit < part.depth || part.pattern.isTooLarge then none else some part.pattern

end RouterPlan.Pattern
