import RouterPlan.Text.Blank

/-!
# Paths of sections

A section is named by the segments on the way to it from the root, as in `/ip firewall filter`.
-/

namespace RouterPlan

/-- The place of a section: its name segments from the root down. -/
structure Path where
  segments : List String
deriving DecidableEq, Repr

namespace Path

/-- The path of the root section. -/
def root : Path :=
  ⟨[]⟩

instance : Inhabited Path :=
  ⟨root⟩

/-- Paths compare segment by segment. -/
instance : Ord Path where
  compare := compareOn segments

instance : Std.TransOrd Path :=
  inferInstanceAs (Std.TransCmp (compareOn segments))

instance : Std.LawfulEqOrd Path where
  eq_of_compare {a b} h := by
    have hsegments : a.segments = b.segments := Std.LawfulEqOrd.eq_of_compare h
    cases a
    cases b
    exact congrArg mk hsegments

/-- The path that a text writes: slashes in front are dropped, and blanks separate the segments. -/
def ofText (text : String) : Path :=
  ⟨(Text.fields Text.isBlank ((Text.trim text.toList).dropWhile (· == '/'))).map String.ofList⟩

/-- Whether this is the path of the root section. -/
def isRoot (path : Path) : Bool :=
  path.segments.isEmpty

/-- The last segment; the root has none. -/
def name? (path : Path) : Option String :=
  path.segments.getLast?

/-- The path of the child called `name`. -/
def child (path : Path) (name : String) : Path :=
  ⟨path.segments ++ [name]⟩

/-- The path without its last segment; the root has no parent. -/
def parent? (path : Path) : Option Path :=
  if path.segments.isEmpty then none else some ⟨path.segments.dropLast⟩

/-- The path as it is written. -/
def text (path : Path) : String :=
  "/" ++ " ".intercalate path.segments

@[simp] theorem name?_child (path : Path) (name : String) : (path.child name).name? = some name := by
  simp [name?, child]

@[simp] theorem parent?_child (path : Path) (name : String) : (path.child name).parent? = some path := by
  simp [parent?, child]

end Path

end RouterPlan
