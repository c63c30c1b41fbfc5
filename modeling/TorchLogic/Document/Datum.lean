/-!
# Data formats

What the library relies on of a data format and of the code that puts data into its values and gets
data out of them. The library says which data it keeps: a position is three numbers, a layout has
four named fields. How numbers, lists and fields are found in a value and written into one is the
business of the format, and is taken as given: a format is anything that has these ways to read
(`Datum`) and to write (`Datum.Writer`).

What such a format promises is said apart from it. What is read is in the value
(`Datum.Lawful`), and what was written is read back (`Datum.ReadsBack`).

The two formats that the library comes with differ little, and each of them is made of a view of its
values (`Datum.View`): how a choice may be spelled, and whether a list that stands for a fixed
number of things may hold more of them.
-/

namespace TorchLogic

/-- **A data format**, by the ways to read one of its values. -/
class Datum (α : Type) where
  /-- A whole number. -/
  integer? : α → Option Int
  /-- A whole number from `low` up to but not including `high`. -/
  bounded? (low high : Int) : α → Option Int
  /-- A truth value. -/
  boolean? : α → Option Bool
  /-- A text. -/
  text? : α → Option String
  /-- The name of a choice that carries no data. -/
  choice? : α → Option String
  /-- The items of a list. -/
  list? : α → Option (List α)
  /-- A list, every item of which can be read. -/
  listOf? {β : Type} (item? : α → Option β) : α → Option (List β)
  /-- The items of a list that stands for exactly `count` things. -/
  tuple? (count : Nat) : α → Option (List α)
  /-- The named fields, in the order in which they are written. -/
  fields? : α → Option (List (String × α))
  /-- The fields with the given names, each present or absent. -/
  fields (names : List String) : α → Option (List (Option α))
  /-- The entries of a map whose keys are names, all of which can be read. -/
  entries? {κ β : Type} (key? : String → Option κ) (value? : α → Option β) :
    α → Option (List (κ × β))

namespace Datum

/-- **A data format**, by the ways to write one of its values. -/
class Writer (α : Type) where
  integer : Int → α
  boolean : Bool → α
  text : String → α
  /-- A choice that carries no data, by its name. -/
  choice : String → α
  listOf {β : Type} (write : β → α) : List β → α
  /-- A fixed number of things. -/
  tuple : List α → α
  /-- Named fields. -/
  record : List (String × α) → α
  /-- A map whose keys are names. -/
  entries {κ β : Type} (name : κ → String) (write : β → α) : List (κ × β) → α

/-! ### What a format promises -/

/-- **What is read is in the value**: numbers are within the bounds that were asked for, a list is
read item by item and a map entry by entry. -/
structure Lawful (α : Type) [Datum α] : Prop where
  bounded?_eq_some_iff : ∀ {low high n : Int} {v : α},
    bounded? low high v = some n ↔ integer? v = some n ∧ low ≤ n ∧ n < high
  listOf?_eq_some_iff : ∀ {β : Type} {item? : α → Option β} {v : α} {values : List β},
    listOf? item? v = some values ↔
      ∃ items, list? v = some items ∧ items.map item? = values.map some
  entries?_eq_some_iff : ∀ {κ β : Type} {key? : String → Option κ} {value? : α → Option β} {v : α}
    {es : List (κ × β)}, entries? key? value? v = some es ↔
      ∃ written, fields? v = some written ∧
        written.map (fun e => (key? e.1, value? e.2)) = es.map fun e => (some e.1, some e.2)

/-- **What was written is read back**, one kind of value at a time. -/
structure ReadsBack (α : Type) [Datum α] [Writer α] : Prop where
  integer : ∀ n : Int, integer? (Writer.integer n : α) = some n
  boolean : ∀ b : Bool, boolean? (Writer.boolean b : α) = some b
  text : ∀ s : String, text? (Writer.text s : α) = some s
  choice : ∀ name : String, choice? (Writer.choice name : α) = some name
  listOf : ∀ {β : Type} (write : β → α) (values : List β),
    list? (Writer.listOf write values) = some (values.map write)
  tuple : ∀ items : List α, tuple? items.length (Writer.tuple items) = some items
  /-- Fields are found by their names, as long as no name is written twice. -/
  record : ∀ written : List (String × α), (written.map Prod.fst).Nodup →
    fields (written.map Prod.fst) (Writer.record written) = some (written.map fun e => some e.2)
  /-- The entries of a map are all written, but maybe in another order. -/
  entries : ∀ {κ β : Type} (name : κ → String) (write : β → α) (es : List (κ × β)),
    (es.map fun e => name e.1).Nodup →
    ∃ written, fields? (Writer.entries name write es) = some written ∧
      written.Perm (es.map fun e => (name e.1, write e.2))

/-! ### Formats by a view of their values -/

/-- **The ways to look at a value**, and how strict the format is about lists. -/
structure View (α : Type) where
  integer? : α → Option Int
  boolean? : α → Option Bool
  text? : α → Option String
  list? : α → Option (List α)
  /-- The value as named fields, in the order in which they are written. -/
  fields? : α → Option (List (String × α))
  /-- The value as the name of a choice that carries no data. -/
  choice? : α → Option String
  /-- Whether a list that stands for a fixed number of things may hold no more than those. -/
  exact : Bool

namespace View

variable {α : Type} (view : View α)

def bounded? (low high : Int) (v : α) : Option Int :=
  match view.integer? v with
  | some n => if low ≤ n ∧ n < high then some n else none
  | none => none

def listOf? {β : Type} (item? : α → Option β) (v : α) : Option (List β) :=
  match view.list? v with
  | some items => items.mapM item?
  | none => none

def tuple? (count : Nat) (v : α) : Option (List α) :=
  match view.list? v with
  | some items =>
    if items.length < count || (view.exact && count < items.length) then none
    else some (items.take count)
  | none => none

/-- **The fields with the given names.** Named fields may come in any order, those with other names
are passed over, and a name that is written twice is refused. A list holds the fields in the order
of the names. -/
def fields (names : List String) (v : α) : Option (List (Option α)) :=
  match view.list? v with
  | some items =>
    if view.exact && names.length < items.length then none
    else some ((List.range names.length).map (items[·]?))
  | none =>
    match view.fields? v with
    | some written =>
      names.mapM fun name =>
        match written.filter (·.1 == name) with
        | [] => some none
        | [field] => some (some field.2)
        | _ => none
    | none => none

def entries? {κ β : Type} (key? : String → Option κ) (value? : α → Option β) (v : α) :
    Option (List (κ × β)) :=
  match view.fields? v with
  | some written => written.mapM fun (name, value) => do some (← key? name, ← value? value)
  | none => none

/-- **The format of a view.** -/
@[reducible] def datum : Datum α where
  integer? := view.integer?
  bounded? := view.bounded?
  boolean? := view.boolean?
  text? := view.text?
  choice? := view.choice?
  list? := view.list?
  listOf? := view.listOf?
  tuple? := view.tuple?
  fields? := view.fields?
  fields := view.fields
  entries? := view.entries?

end View

end Datum

end TorchLogic
