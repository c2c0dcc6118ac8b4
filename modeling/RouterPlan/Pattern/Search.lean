import RouterPlan.Pattern.Basic
import RouterPlan.Pattern.Lengths

/-!
# Finding a pattern in a text

A pattern is found if it describes some stretch of the text (`Pattern.isFoundIn`). The stretches that a pattern describes
are found from those of its parts, for all places of the text at once (`Pattern.lengths`); only stretches from places
where one is looked for are kept.
-/

namespace RouterPlan.Pattern

/-- The places of a text, each as the character before it and the one after it. -/
def surroundings (before : Option Char) : List Char → List (Option Char × Option Char)
  | [] => [(before, none)]
  | c :: cs => (before, some c) :: surroundings (some c) cs

/-- The stretches that the pattern describes and that start at one of the `starts`. -/
def lengths (text : List (Option Char × Option Char)) (starts : Places) : Pattern → Lengths
  | empty => .empties starts
  | assert assertion =>
    .empties (List.zipWith (fun start (before, after) => start && assertion.holds before after) starts text)
  | one set => List.zipWith (fun start (_, after) => if start && after.any set.contains then 2 else 0) starts text
  | seq first second =>
    if starts.isEmpty then []
    else
      let firsts := first.lengths text starts
      firsts.followedBy (second.lengths text (firsts.ends 0))
  | alt left right => (left.lengths text starts).either (right.lengths text starts)
  | rep body low high =>
    if starts.isEmpty then []
    else
      let everywhere := text.map fun _ => true
      let once := body.lengths text everywhere
      let empties := Lengths.empties everywhere
      let optional := match high with
        | none => once.star
        | some high => repeatStep (fun table => empties.either (once.followedBy table)) (high - low) empties
      (repeatStep once.followedBy low optional).startingAt starts
  | group _ body => body.lengths text starts

/-- Whether the pattern describes some stretch of the text. -/
def isFoundIn (p : Pattern) (text : String) : Bool :=
  let text := surroundings none text.toList
  (p.lengths text (text.map fun _ => true)).any (· != 0)

end RouterPlan.Pattern
