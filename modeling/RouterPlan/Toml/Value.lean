/-!
# TOML documents

What a TOML text holds. Headers and dotted keys both make tables, and may not redo what was made another way: a table has
at most one header, a dotted key only goes through tables that dotted keys made, and values written in line are closed.
`Table.define`, `Table.openHeader` and `Table.appendHeader` are the three ways in which a text adds to its document.
-/

namespace RouterPlan.Toml

/-- A value. Of numbers, truth values and dates only the presence is kept. -/
inductive Value where
  | text (s : String)
  | scalar
  | array (items : List Value)
  /-- A table written in line. -/
  | inline (fields : List (String × Value))
  /-- A table of a header or of dotted keys. It is implied while no header of its own has opened it. -/
  | table (implied dotted : Bool) (fields : List (String × Value))
  /-- An array of tables, each opened by a header of its own. -/
  | tables (elements : List (List (String × Value)))

/-- Whether the value is an array or a table with nothing in it. -/
def Value.isHollow : Value → Bool
  | array [] => true
  | inline [] => true
  | table _ _ [] => true
  | tables [] => true
  | _ => false

/-- The fields of a table, in the order in which they were made. -/
abbrev Table := List (String × Value)

namespace Table

/-- The table with the value of a key changed in place, or put at the end. -/
def put (key : String) (value : Value) : Table → Table
  | [] => [(key, value)]
  | field :: fields => if field.1 = key then (key, value) :: fields else field :: put key value fields

/-- Edits the table that a path leads to. Tables that are missing on the way are made, implied or dotted; a path goes
through the last table of an array of tables. -/
def editAt (dotted : Bool) (edit : Table → Option Table) : List String → Table → Option Table
  | [], fields => edit fields
  | key :: keys, fields =>
    match fields.lookup key with
    | none => do
      let below ← editAt dotted edit keys []
      return fields.put key (.table true dotted below)
    | some (.table implied made below) =>
      if dotted && !(implied && (made || !keys.isEmpty)) then none
      else do
        let below ← editAt dotted edit keys below
        return fields.put key (.table implied made below)
    | some (.tables elements) =>
      match elements.getLast?, dotted && keys.isEmpty with
      | some last, false => do
        let last ← editAt dotted edit keys last
        return fields.put key (.tables (elements.dropLast ++ [last]))
      | _, _ => none
    | some _ => none

/-- The table with a key given its value; a key has only one. -/
def add (key : String) (value : Value) (fields : Table) : Option Table :=
  if (fields.lookup key).isSome then none else some (fields.put key value)

/-- The table with a dotted key given its value. -/
def define (keys : List String) (value : Value) (fields : Table) : Option Table := do
  let key ← keys.getLast?
  editAt true (add key value) keys.dropLast fields

/-- The document with the table of a header. -/
def openHeader (keys : List String) (document : Table) : Option Table := do
  let key ← keys.getLast?
  let mark (fields : Table) : Option Table :=
    match fields.lookup key with
    | none => some (fields.put key (.table false false []))
    | some (.table true false below) => some (fields.put key (.table false false below))
    | some _ => none
  editAt false mark keys.dropLast document

/-- The document with one more table in the array of a header. -/
def appendHeader (keys : List String) (document : Table) : Option Table := do
  let key ← keys.getLast?
  let more (fields : Table) : Option Table :=
    match fields.lookup key with
    | none => some (fields.put key (.tables [[]]))
    | some (.tables elements) => some (fields.put key (.tables (elements ++ [[]])))
    | some _ => none
  editAt false more keys.dropLast document

end Table

end RouterPlan.Toml
