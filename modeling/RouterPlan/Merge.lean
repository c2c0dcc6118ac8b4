import RouterPlan.Configuration
import RouterPlan.Script.Basic

/-!
# Merging towards a target

What takes a configuration to a target, section by section: settings first, then items that the target lacks are taken
out, items that are missing are put in, and last, where order counts, a scan from the front moves each item that is out
of place. Every command is carried out before the next one is found, so its positions are right when it runs. Only the
sections of the target are visited.
-/

namespace RouterPlan

namespace Section

/-- Puts in settings one by one; the commands are those of the settings that changed something. -/
def putSettings : List (Identifier × Values) → Section → List Command × Section
  | [], s => ([], s)
  | (target, values) :: settings, s =>
    let (command, s) := s.set target values
    let (commands, s) := putSettings settings s
    (command.toList ++ commands, s)

/-- Takes out items one by one. -/
def deleteAll : List Item → Section → Except IntegrityError (List Command × Section)
  | [], s => .ok ([], s)
  | item :: items, s => do
    let (command, s) ← s.delete item
    let (commands, s) ← deleteAll items s
    return (command :: commands, s)

/-- Puts in the items that are missing, of a target list whose first item here has position `position`. -/
def insertMissing (position : Nat) : List Item → Section → Except IntegrityError (List Command × Section)
  | [], s => .ok ([], s)
  | item :: items, s =>
    if s.items.contains item then insertMissing (position + 1) items s
    else do
      let placed := s.mode.allowsPlacement && position < s.items.length
      let (command, s) ← s.insert item (if placed then some position else none)
      let (commands, s) ← insertMissing (position + 1) items s
      return (command :: commands, s)

/-- Moves items until those from `position` on stand as in the target. Each move settles one position. -/
def reorder (position : Nat) : List Item → Section → Except IntegrityError (List Command × Section)
  | [], s => .ok ([], s)
  | item :: items, s =>
    if s.items[position]? = some item then reorder (position + 1) items s
    else do
      let (command, s) ← s.move item (some position)
      let (commands, s) ← reorder (position + 1) items s
      return (command :: commands, s)

/-- Moves items until all stand as in the target, which has as many. -/
def reorderAll (s : Section) (items : List Item) : Except IntegrityError (List Command × Section) :=
  if s.items.length = items.length then reorder 0 items s
  else .error (.itemCountMismatch s.path s.items.length items.length)

/-- Takes a section to a target section, and gives the commands in the order in which they were carried out. -/
def mergeWith (s target : Section) : Except IntegrityError (List Command × Section) := do
  let (set, s) := putSettings target.settings.entries s
  let (removed, s) ← deleteAll (s.items.filter (!target.items.contains ·)) s
  let (added, s) ← insertMissing 0 target.items s
  let (moved, s) ← if s.mode.isOrdered then s.reorderAll target.items else .ok ([], s)
  return (set ++ removed ++ added ++ moved, s)

end Section

namespace Configuration

/-- Takes the children of a section to those of a target, and gives the batches of the children. -/
def mergeBelow (order : OrderTable) : Forest Section → Outline Section →
    Except IntegrityError (Forest Batch × Outline Section)
  | .nil, current => .ok (.nil, current)
  | .cons target below rest, current =>
    match target.path.name? with
    | none => mergeBelow order rest current
    | some name => do
      let (batch, current) ← current.editChild (Section.growth order) name fun child => do
        let (commands, s) ← child.root.mergeWith target
        let (batches, child) ← mergeBelow order below { child with root := s }
        return (Outline.mk { path := s.path, mode := s.mode, commands : Batch } batches, child)
      let (batches, current) ← mergeBelow order rest current
      return (.cons batch.root batch.below batches, current)

/-- Takes a configuration to a target. The script is what was carried out. -/
def merge (c target : Configuration) : Except IntegrityError (Script × Configuration) := do
  let (commands, s) ← c.outline.root.mergeWith target.outline.root
  let (batches, outline) ← mergeBelow c.order target.outline.below { c.outline with root := s }
  return (⟨⟨{ path := s.path, mode := s.mode, commands }, batches⟩⟩, { c with outline })

/-- The script that takes a configuration to a target. -/
def diff (base target : Configuration) : Except IntegrityError Script := do
  return (← base.merge target).1

end Configuration

end RouterPlan
