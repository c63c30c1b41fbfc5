import TorchLogic.Document.Datum

/-!
# JSON values

The values of JSON, as far as the library looks into them. Whole numbers are kept as such; any other
number keeps its written form only. A text with half of a surrogate pair in it is no text, and an
object with such a name is no set of fields: both are `Json.unreadable`, which is legal where the
value is not looked at and illegal everywhere else.

An object that is read keeps its fields in the order in which they are written, repetitions
included; an object that is made has them in alphabetical order. A choice without data is written as
its name, or as an object whose only field has that name and the value null.
-/

namespace TorchLogic

/-- **A JSON value.** -/
inductive Json
  | null
  | boolean (value : Bool)
  | integer (value : Int)
  /-- A number with a fraction or an exponent, or negative zero, as it is written. -/
  | decimal (written : String)
  | text (value : String)
  | list (items : List Json)
  | object (fields : List (String × Json))
  /-- A well-formed value whose texts are not all texts. -/
  | unreadable

namespace Json

/-- A value that may be absent; absence is written as null. -/
def ofOption (v : Option Json) : Json := v.getD null

/-- The list of the JSON values of a list. -/
def listOf {β : Type} (write : β → Json) (items : List β) : Json := list (items.map write)

/-- The JSON value of a natural number. -/
def natural (n : Nat) : Json := integer n

/-- An object with its fields in alphabetical order. -/
def sorted (fields : List (String × Json)) : Json :=
  object (fields.mergeSort fun a b => a.1 ≤ b.1)

/-- How JSON values are looked at. -/
def view : Datum.View Json where
  integer?
    | integer n => some n
    | _ => none
  boolean?
    | boolean b => some b
    | _ => none
  text?
    | text s => some s
    | _ => none
  list?
    | list items => some items
    | _ => none
  fields?
    | object fields => some fields
    | _ => none
  choice?
    | text s => some s
    | object [(name, null)] => some name
    | _ => none
  exact := true

instance : Datum Json := view.datum

instance : Datum.Writer Json where
  integer := integer
  boolean := boolean
  text := text
  choice := text
  listOf := listOf
  tuple := list
  record := sorted
  entries name write es := sorted (es.map fun e => (name e.1, write e.2))

end Json

end TorchLogic
