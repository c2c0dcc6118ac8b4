/-!
# Outlines

A configuration and an edit script have the same shape: entries in a hierarchy, each with a name, and children in the
order in which they were made. An outline is such a hierarchy. It is read in document order, each entry before its
children (`Outline.entries`), and a path leads from the root down by the names of the entries (`Outline.find?`). Editing
at a path makes the entries that are missing on the way (`Outline.editAt`).
-/

namespace RouterPlan

/-- A row of entries, each with the row of its children. -/
inductive Forest (α : Type) where
  | nil
  | cons (entry : α) (below rest : Forest α)
deriving DecidableEq

/-- A hierarchy: an entry and the row of its children. -/
structure Outline (α : Type) where
  root : α
  below : Forest α := .nil
deriving DecidableEq

/-- How entries are named, and how a child is made that is not there yet. -/
structure Growth (α : Type) where
  name? : α → Option String
  child : α → String → α

namespace Forest

variable {α β : Type}

/-- The entries in document order. -/
def entries : Forest α → List α
  | nil => []
  | cons entry below rest => entry :: (below.entries ++ rest.entries)

/-- The outlines of a row, from left to right. -/
def outlines : Forest α → List (Outline α)
  | nil => []
  | cons entry below rest => ⟨entry, below⟩ :: rest.outlines

/-- The outlines of a row and those within them, in document order. -/
def subOutlines : Forest α → List (Outline α)
  | nil => []
  | cons entry below rest => ⟨entry, below⟩ :: (below.subOutlines ++ rest.subOutlines)

/-- The row of outlines. -/
def ofOutlines : List (Outline α) → Forest α
  | [] => nil
  | outline :: outlines => cons outline.root outline.below (ofOutlines outlines)

/-- Edits the first outline of a row whose entry passes a test, or a fresh one at the end of the row. -/
def editFirst {m : Type → Type} [Monad m] (test : α → Bool) (fresh : α) (edit : Outline α → m (β × Outline α)) :
    Forest α → m (β × Forest α)
  | nil => do
    let (result, outline) ← edit ⟨fresh, nil⟩
    return (result, cons outline.root outline.below nil)
  | cons entry below rest =>
    if test entry then do
      let (result, outline) ← edit ⟨entry, below⟩
      return (result, cons outline.root outline.below rest)
    else do
      let (result, rest) ← rest.editFirst test fresh edit
      return (result, cons entry below rest)

end Forest

namespace Outline

variable {α β : Type}

/-- The entries in document order, the root first. -/
def entries (outline : Outline α) : List α :=
  outline.root :: outline.below.entries

/-- The outline and those within it, in document order. -/
def subOutlines (outline : Outline α) : List (Outline α) :=
  outline :: outline.below.subOutlines

/-- The outlines of the children. -/
def children (outline : Outline α) : List (Outline α) :=
  outline.below.outlines

/-- The outline of the first child with a name. -/
def child? (growth : Growth α) (outline : Outline α) (name : String) : Option (Outline α) :=
  outline.children.find? (fun child => growth.name? child.root == some name)

/-- The part of an outline at a path. -/
def find? (growth : Growth α) : List String → Outline α → Option (Outline α)
  | [], outline => some outline
  | name :: names, outline => (outline.child? growth name).bind (find? growth names)

/-- Edits the child with a name, which is made if it is missing. -/
def editChild {m : Type → Type} [Monad m] (growth : Growth α) (name : String)
    (edit : Outline α → m (β × Outline α)) (outline : Outline α) : m (β × Outline α) := do
  let (result, below) ← outline.below.editFirst (fun entry => growth.name? entry == some name)
    (growth.child outline.root name) edit
  return (result, { outline with below })

/-- Edits the entry at a path; what is missing on the way is made. -/
def editAt (growth : Growth α) (edit : α → β × α) : List String → Outline α → β × Outline α
  | [], outline => (edit outline.root).map id ({ outline with root := · })
  | name :: names, outline => Id.run (outline.editChild growth name fun child => pure (editAt growth edit names child))

end Outline

end RouterPlan
