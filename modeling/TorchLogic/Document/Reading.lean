import TorchLogic.Board.Resolve
import TorchLogic.Document.Datum
import TorchLogic.Gate
import TorchLogic.Layout.Basic
import TorchLogic.TruthTable.Record

/-!
# Reading the library's values

Each value of the library that is kept in files, read from any data format. Sides, facings, roles
and styles are choices by name; a position is three whole numbers; the rest are named fields. All
fields must be present, except that a layout may leave out any of its own.
-/

namespace TorchLogic.Datum

variable {α : Type} [Datum α]

/-- A choice by name. -/
def named? {β : Type} (ofName? : String → Option β) (v : α) : Option β :=
  (choice? v).bind ofName?

/-- A facing by name. -/
def facing? (v : α) : Option Facing := named? Facing.ofName? v

/-- A side by name. -/
def side? (v : α) : Option Side := named? Side.ofName? v

/-- A role by name. -/
def role? (v : α) : Option SocketRole := named? SocketRole.ofName? v

/-- A style by name. -/
def style? (v : α) : Option Style := named? Style.ofName? v

/-- A coordinate, which has 32 bits. -/
def coordinate? (v : α) : Option Int := bounded? (-2147483648) 2147483648 v

/-- A place in a layout, which has 64 bits. -/
def index? (v : α) : Option Nat := (bounded? 0 18446744073709551616 v).map Int.toNat

/-- A number of pieces, which has 32 bits. -/
def pieces? (v : α) : Option Nat := (bounded? 0 4294967296 v).map Int.toNat

/-- A position as three coordinates. -/
def position? (v : α) : Option Position := do
  match ← tuple? 3 v with
  | [x, y, z] => some ⟨← coordinate? x, ← coordinate? y, ← coordinate? z⟩
  | _ => none

/-- A socket by its facing and its role. -/
def socket? (v : α) : Option Socket := do
  match ← fields ["facing", "state"] v with
  | [some facing, some role] => some ⟨← facing? facing, ← role? role⟩
  | _ => none

/-- A cost by its three numbers. -/
def cost? (v : α) : Option Cost := do
  match ← fields ["terracotta", "dust", "torches"] v with
  | [some terracotta, some dust, some torches] =>
    some ⟨← pieces? terracotta, ← pieces? dust, ← pieces? torches⟩
  | _ => none

/-- A record of a table, whether or not it is one of a table. -/
def record? (v : α) : Option TruthTable.Record := do
  match ← fields ["inputs", "outputs", "mappings"] v with
  | [some inputs, some outputs, some rows] =>
    some ⟨← listOf? side? inputs, ← listOf? side? outputs, ← listOf? (listOf? boolean?) rows⟩
  | _ => none

/-- A table by its record. -/
def table? (v : α) : Option TruthTable := do
  let record ← record? v
  record.table.toOption

/-- A nested circuit of a layout. -/
def placement? (v : α) : Option Placement := do
  match ← fields ["layer", "row", "column", "facing", "table"] v with
  | [some layer, some row, some column, some facing, some table] =>
    some ⟨⟨← index? layer, ← index? row, ← index? column⟩, ← facing? facing, ← table? table⟩
  | _ => none

/-- The roles of the sides that are listed; of two entries for a side the later counts. -/
def sockets? (v : α) : Option (Facing → Option SocketRole) := do
  let entries ← entries? Facing.ofName? role? v
  some fun f => (entries.reverse.find? fun e => e.1 == f).map (·.2)

/-- A field that may be left out. -/
def orDefault? {β : Type} (default : β) (read? : α → Option β) : Option α → Option β
  | none => some default
  | some v => read? v

/-- **A layout.** -/
def layout? (v : α) : Option Layout := do
  match ← fields ["origin", "sockets", "layers", "circuits"] v with
  | [origin, sockets, layers, circuits] =>
    some {
      origin := ← orDefault? ⟨0, 0, 0⟩ position? origin
      sockets := ← orDefault? (fun _ => none) sockets? sockets
      layers := ← orDefault? [] (listOf? (listOf? text?)) layers
      circuits := ← orDefault? [] (listOf? placement?) circuits }
  | _ => none

end TorchLogic.Datum
