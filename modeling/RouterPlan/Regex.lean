/-!
# Regular expressions

The patterns of order rules are regular expressions, which a package outside this library compiles and looks for in texts. Nothing here
says how it does so: the library is written for any such package (`RegexEngine`), and a program runs with one of them. What the
documentation of the package says of expressions, as far as it matters for order rules, is a hypothesis where it is used
(`RegexEngine.Documented`).
-/

namespace RouterPlan

/-- A compiled expression. -/
structure Regex where
  /-- Whether the expression is found anywhere in a text. -/
  isMatch : String → Bool

/-- A package that compiles regular expressions. -/
class RegexEngine where
  /-- The expression that a text writes, unless the text is refused: it may be no expression, or one that is too large. -/
  compile? : String → Option Regex

/-- Which texts are expressions, and which stretches of a text each of them matches, from one place of the text to another. -/
abbrev RegexGrammar :=
  String → Option (List Char → Nat → Nat → Prop)

/-- What the documentation says of the package: how it compiles and finds expressions, and what the constructs mean that order rules
add to their patterns. These are `(?:x)`, a group of what is in it, `xy`, the one followed by the other, and `^` and `$`, the start
and the end of a text. -/
structure RegexEngine.Documented [RegexEngine] (grammar : RegexGrammar) : Prop where
  /-- What is no expression is refused. -/
  refuses : ∀ {text}, grammar text = none → RegexEngine.compile? text = none
  /-- An expression is found in a text exactly if it matches some stretch of it. -/
  isMatch_iff : ∀ {text regex matched}, RegexEngine.compile? text = some regex → grammar text = some matched →
    ∀ s : String, regex.isMatch s = true ↔ ∃ i j, matched s.toList i j
  /-- A group with an end behind it matches what is in the group, up to the end of the text. -/
  group_end : ∀ {text matched whole}, grammar text = some matched → grammar ("(?:" ++ text ++ ")$") = some whole →
    ∀ s i j, whole s i j ↔ matched s i j ∧ j = s.length
  /-- A start before them, if that can be read, matches what they match from the start of the text on. -/
  start_group_end : ∀ {text whole}, grammar text ≠ none → grammar ("^(?:" ++ text ++ ")$") = some whole →
    ∃ rest, grammar ("(?:" ++ text ++ ")$") = some rest ∧ ∀ s i j, whole s i j ↔ i = 0 ∧ rest s i j

end RouterPlan
