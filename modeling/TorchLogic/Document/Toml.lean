import TorchLogic.Document.Datum

/-!
# TOML values

The values of TOML, as far as the library looks into them. Fractional numbers, dates and times are
legal and never wanted, so they are all one value, `Toml.unreadable`.

A table remembers how it came about, because that decides who may still add to it while a document
is read; to a reader of the finished document all tables are alike. A list that is written in
brackets is closed, while rows with headers of their own make a list that grows by further headers.

A choice without data is written as its name, or as a table whose only entry has that name and holds
nothing.
-/

namespace TorchLogic

/-- **How a table came about.** -/
inductive Toml.Origin
  /-- It is written in braces. -/
  | inline
  /-- It has a header. -/
  | header
  /-- It is a row, with a header of its own, of a list of tables. -/
  | row
  /-- A header names it on the way to another table. -/
  | implied
  /-- An entry names it on the way to a key. -/
  | dotted
  deriving DecidableEq

/-- **A TOML value.** -/
inductive Toml
  | boolean (value : Bool)
  | integer (value : Int)
  | text (value : String)
  /-- A list in brackets. -/
  | list (items : List Toml)
  /-- A list of tables with headers of their own. -/
  | rows (tables : List Toml)
  | table (origin : Toml.Origin) (fields : List (String × Toml))
  /-- A fractional number, a date or a time. -/
  | unreadable

namespace Toml

/-- The items of a list of either kind. -/
def sequence? : Toml → Option (List Toml)
  | list items => some items
  | rows tables => some tables
  | _ => none

/-- Whether a value is a table or a list with nothing in it. -/
def isVacant : Toml → Bool
  | list [] => true
  | rows [] => true
  | table _ [] => true
  | _ => false

/-- How TOML values are looked at. -/
def view : Datum.View Toml where
  integer?
    | integer n => some n
    | _ => none
  boolean?
    | boolean b => some b
    | _ => none
  text?
    | text s => some s
    | _ => none
  list? := sequence?
  fields?
    | table _ fields => some fields
    | _ => none
  choice?
    | text s => some s
    | table _ [(name, value)] => if value.isVacant then some name else none
    | _ => none
  exact := false

instance : Datum Toml := view.datum

end Toml

end TorchLogic
