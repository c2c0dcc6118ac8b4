import RouterPlan.Cli.Location

/-!
# Files

What the command line needs of files: to read a text, to write one, and to find the one place that a location leads to.
`Disk` is a set of files in memory that does this.
-/

namespace RouterPlan

/-- Why a file cannot be used. -/
inductive FileError where
  | notFound
  | notADirectory
  | isADirectory
  /-- The location, or a name in it, is longer than any can be. -/
  | nameTooLong
  /-- The file is no text in UTF-8. -/
  | notText
  /-- Anything else, as the system tells it. -/
  | other (message : String)
deriving DecidableEq, Repr

/-- The wording of the error. -/
def FileError.message : FileError → String
  | notFound => "No such file or directory (os error 2)"
  | notADirectory => "Not a directory (os error 20)"
  | isADirectory => "Is a directory (os error 21)"
  | nameTooLong => "File name too long (os error 36)"
  | notText => "stream did not contain valid UTF-8"
  | other message => message

/-- Access to files in the world of `m`. -/
structure Files (m : Type → Type) where
  read : String → m (Except FileError String)
  write : String → String → m (Except FileError Unit)
  /-- The place that a location leads to: two locations of one file have the same. -/
  resolve : String → m (Except FileError String)

/-- What stands at a place of a disk. -/
inductive Node where
  | directory
  /-- A file; its bytes need not be a text. -/
  | file (text : Option String)
deriving DecidableEq, Repr

/-- Files in memory. A place is the list of names that lead to it. -/
structure Disk where
  nodes : List (List String × Node)
  /-- The place where locations without a slash in front start. -/
  home : List String
deriving DecidableEq, Repr

namespace Disk

/-- How many bytes a name may have. -/
def nameLimit : Nat :=
  255

/-- How many bytes a location may have at which a file is opened. -/
def locationLimit : Nat :=
  4095

/-- What stands at a place. Every place above the home is a directory. -/
def node? (disk : Disk) (place : List String) : Option Node :=
  if place.isPrefixOf disk.home then some .directory else disk.nodes.lookup place

/-- The place that parts of a location lead to from another one; whatever is passed through is a directory. The last
part need not exist. -/
def follow (disk : Disk) (place : List String) : List String → Except FileError (List String)
  | [] => .ok place
  | part :: parts =>
    match disk.node? place with
    | none => .error .notFound
    | some (.file _) => .error .notADirectory
    | some .directory =>
      if part = "" ∨ part = "." then disk.follow place parts
      else if part = ".." then disk.follow place.dropLast parts
      else if nameLimit < part.utf8ByteSize then .error .nameTooLong
      else disk.follow (place ++ [part]) parts

/-- The place that a location leads to, whether something stands there or not. -/
def locate (disk : Disk) (location : String) : Except FileError (List String) :=
  if location.isEmpty then .error .notFound
  else disk.follow (if location.startsWith "/" then [] else disk.home) (Location.parts location)

/-- The place of something that is there, and what it is. -/
def find (disk : Disk) (location : String) : Except FileError (List String × Node) := do
  let place ← disk.locate location
  match disk.node? place with
  | some node => return (place, node)
  | none => .error .notFound

/-- Fails for a location that is too long to open a file at. -/
def checkLength (location : String) : Except FileError Unit :=
  if locationLimit < location.utf8ByteSize then .error .nameTooLong else .ok ()

/-- The text of the file at a location. -/
def read (disk : Disk) (location : String) : Except FileError String := do
  checkLength location
  match ← disk.find location with
  | (_, .file (some text)) => return text
  | (_, .file none) => .error .notText
  | (_, .directory) => .error .isADirectory

/-- The place at a location, as a text. -/
def resolve (disk : Disk) (location : String) : Except FileError String := do
  return "/" ++ "/".intercalate (← disk.find location).1

/-- The disk with something put at a place. -/
def put (disk : Disk) (place : List String) (node : Node) : Disk :=
  if (disk.nodes.lookup place).isSome then
    { disk with nodes := disk.nodes.map fun entry => if entry.1 == place then (place, node) else entry }
  else { disk with nodes := disk.nodes ++ [(place, node)] }

/-- Writes a text to the file at a location, which is made if it is missing. A slash at the end asks for a directory, and
none is made. -/
def write (disk : Disk) (location text : String) : Except FileError Unit × Disk :=
  let slash := location.endsWith "/"
  match checkLength location >>= fun () => disk.locate (Location.withoutEndSlashes location) with
  | .error cause => (.error cause, disk)
  | .ok place =>
    match disk.node? place, slash with
    | some .directory, _ => (.error .isADirectory, disk)
    | some (.file _), true => (.error .notADirectory, disk)
    | none, true => (.error .isADirectory, disk)
    | _, false => (.ok (), disk.put place (.file (some text)))

/-- Access to the files of a disk. -/
def files : Files (StateM Disk) where
  read location := do return (← get).read location
  write location text := modifyGet fun disk => disk.write location text
  resolve location := do return (← get).resolve location

end Disk

end RouterPlan
