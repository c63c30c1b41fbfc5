import TorchLogic.Document.Toml

/-!
# TOML statements

A document is a list of statements: headers, which open a table or a row of a list of tables, and
entries, which give a key of the open table a value. This module makes the statements into a table.

Every table is defined once. A header may open a table that is new or so far only implied. An entry
may reach through tables that entries made, but neither through a closed value nor through a table
with a header; and it may add to the table that it reaches only if entries made that table. A key is
given a value once.
-/

namespace TorchLogic.Toml

/-- **A statement of a document.** -/
inductive Statement
  /-- Opens the table at a path. -/
  | header (path : List String) (key : String)
  /-- Opens a new row of the list of tables at a path. -/
  | row (path : List String) (key : String)
  /-- Gives a value to a key, which is named by a path from the open table. -/
  | entry (path : List String) (value : Toml)

/-- The entries of a table, in the order in which their keys are first named. -/
abbrev Fields : Type := List (String × Toml)

/-- Changes the value of a key, which may be absent. -/
def alter (key : String) (change : Option Toml → Option Toml) : Fields → Option Fields
  | [] => (change none).map fun v => [(key, v)]
  | (name, old) :: rest =>
    if name = key then (change (some old)).map fun v => (name, v) :: rest
    else (alter key change rest).map ((name, old) :: ·)

/-- **Changes the fields inside a value**: those of a table, if its origin allows it, those of the
last row of a list of tables, or those of a new table where there is no value. -/
def inside (new : Origin) (allowed : Origin → Bool) (change : Fields → Option Fields) :
    Option Toml → Option Toml
  | none => (change []).map (.table new)
  | some (.table origin fields) =>
    if allowed origin then (change fields).map (.table origin) else none
  | some (.rows tables) =>
    match tables.getLast? with
    | some (.table origin fields) =>
      if allowed origin then
        (change fields).map fun fields => .rows (tables.dropLast ++ [.table origin fields])
      else none
    | _ => none
  | some _ => none

/-- Changes the fields of the table at a path of headers. -/
def follow (change : Fields → Option Fields) : List String → Fields → Option Fields
  | [], fields => change fields
  | key :: path, fields =>
    alter key (inside .implied (fun origin => origin != .inline) (follow change path)) fields

/-- The table that a header opens, in place of what was there. -/
def opened : Option Toml → Option Toml
  | none => some (.table .header [])
  | some (.table .implied fields) => some (.table .header fields)
  | some _ => none

/-- The list of tables that a header of a row makes longer. -/
def extended : Option Toml → Option Toml
  | none => some (.rows [.table .row []])
  | some (.rows tables) => some (.rows (tables ++ [.table .row []]))
  | some _ => none

/-- Whether an entry may reach into a table of the given origin. It may pass through any table that
has no header and no braces, and through the rows of a list, but the last table must be one that
entries made. -/
def reachable (isLast : Bool) (origin : Origin) : Bool :=
  origin == .dotted || (!isLast && (origin == .implied || origin == .row))

/-- **Gives a value to the key at the end of a path.** -/
def assign (value : Toml) : List String → Fields → Option Fields
  | [], _ => none
  | [key], fields =>
    alter key (fun old => match old with | none => some value | some _ => none) fields
  | key :: path, fields =>
    alter key (inside .dotted (reachable path.tail.isEmpty) (assign value path)) fields

/-- A document in the making: the path of the open table, and all fields so far. -/
structure Draft where
  /-- The path of the open table. -/
  place : List String
  /-- The fields of the document. -/
  fields : Fields

/-- A draft with one more statement. -/
def Draft.add (d : Draft) : Statement → Option Draft
  | .header path key => do
    some ⟨path ++ [key], ← follow (alter key opened) path d.fields⟩
  | .row path key => do
    some ⟨path ++ [key], ← follow (alter key extended) path d.fields⟩
  | .entry path value => do
    -- An entry may sit anywhere below the open table, which stays open.
    some ⟨d.place, ← follow (assign value path) d.place d.fields⟩

/-- **The table that a list of statements makes**, if each of them is allowed where it stands. -/
def ofStatements? (statements : List Statement) : Option Toml := do
  let draft ← statements.foldlM Draft.add ⟨[], []⟩
  some (.table .header draft.fields)

/-- The table in braces that a list of entries makes. -/
def ofEntries? (entries : List (List String × Toml)) : Option Toml := do
  let fields ← entries.foldlM (fun fields (path, value) => assign value path fields) []
  some (.table .inline fields)

end TorchLogic.Toml
