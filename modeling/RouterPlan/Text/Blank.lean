import RouterPlan.Text.Ranges

/-!
# Blank characters, trimming and fields

Blank means the Unicode property White_Space, wherever this library trims a text or cuts it at blanks. A field is a
longest stretch of a text without a separator (`fields`); trimming drops the blanks at the ends (`trim`).
-/

namespace RouterPlan.Text

/-- The code points of the Unicode property White_Space. -/
def blankRanges : List (Nat × Nat) :=
  [(0x9, 0xD), (0x20, 0x20), (0x85, 0x85), (0xA0, 0xA0), (0x1680, 0x1680), (0x2000, 0x200A), (0x2028, 0x2029),
    (0x202F, 0x202F), (0x205F, 0x205F), (0x3000, 0x3000)]

/-- A character of the Unicode property White_Space. -/
def isBlank (c : Char) : Bool :=
  inRanges c.toNat blankRanges

/-- The blanks in front are dropped. -/
def trimStart (cs : List Char) : List Char :=
  cs.dropWhile isBlank

/-- The blanks at the end are dropped. -/
def trimEnd (cs : List Char) : List Char :=
  (cs.reverse.dropWhile isBlank).reverse

/-- The blanks at both ends are dropped. -/
def trim (cs : List Char) : List Char :=
  trimEnd (trimStart cs)

/-- The text between separators, empty pieces included: one piece more than there are separators. -/
def pieces (isSeparator : Char → Bool) : List Char → List (List Char)
  | [] => [[]]
  | c :: cs =>
    if isSeparator c then [] :: pieces isSeparator cs
    else
      match pieces isSeparator cs with
      | [] => [[c]]
      | piece :: rest => (c :: piece) :: rest

/-- The non-empty text between separators. -/
def fields (isSeparator : Char → Bool) (cs : List Char) : List (List Char) :=
  (pieces isSeparator cs).filter (!·.isEmpty)

/-- Whether `part` occurs in a text. -/
def occursIn (part : List Char) : List Char → Bool
  | [] => part.isEmpty
  | c :: cs => part.isPrefixOf (c :: cs) || occursIn part cs

/-- Nothing is blank at the ends of a trimmed text. -/
theorem head?_trimStart (cs : List Char) : ∀ c, (trimStart cs).head? = some c → isBlank c = false := by
  intro c h
  have := List.head?_dropWhile_not isBlank cs
  simp only [trimStart] at h
  rw [h] at this
  simpa using this

end RouterPlan.Text
