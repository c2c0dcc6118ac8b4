import RouterPlan.Text.Blank

/-!
# Locations of files, as they are written

A location is a text of names with slashes between them. Here is what can be said of it without looking at any file:
its last name and the location of the directory around it.
-/

namespace RouterPlan.Location

/-- The parts between slashes. -/
def parts (location : String) : List String :=
  (Text.pieces (· == '/') location.toList).map String.ofList

/-- The location without the slashes at its end; slashes alone are kept. -/
def withoutEndSlashes (location : String) : String :=
  let cs := (location.toList.reverse.dropWhile (· == '/')).reverse
  if cs.isEmpty then location else String.ofList cs

/-- The parts without those at the end that stand for nothing: empty ones, and a dot that is not the first part. -/
def trimParts (parts : List String) : List String :=
  match parts with
  | [] => []
  | first :: rest => first :: (rest.reverse.dropWhile fun part => part == "" || part == ".").reverse

/-- The name of the file, unless the location ends in no name. -/
def fileName? (location : String) : Option String :=
  match (trimParts (parts location)).getLast? with
  | some name => if name == "" || name == "." || name == ".." then none else some name
  | none => none

/-- The location of the directory around a file with a name; a dot where there is none. -/
def directory (location : String) : String :=
  match trimParts (trimParts (parts location)).dropLast with
  | [] => "."
  | [""] => "/"
  | parts => "/".intercalate parts

end RouterPlan.Location
