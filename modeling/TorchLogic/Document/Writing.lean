import TorchLogic.Board.Resolve
import TorchLogic.Document.Json
import TorchLogic.Gate
import TorchLogic.Layout.Basic
import TorchLogic.TruthTable.Record

/-!
# Writing the library's values

Each value of the library that is kept in files, written in any data format. Sides, facings, roles
and styles are choices by name; a position is three whole numbers; the rest are named fields. All
fields are written.
-/

namespace TorchLogic

open Datum

section Format

variable {α : Type} [Writer α]

/-- A facing, by name. -/
def Facing.write (f : Facing) : α := Writer.choice f.name

/-- A side, by name. -/
def Side.write (s : Side) : α := Writer.choice s.name

/-- A role, by name. -/
def SocketRole.write (r : SocketRole) : α := Writer.choice r.name

/-- A style, by name. -/
def Style.write (s : Style) : α := Writer.choice s.name

/-- A natural number. -/
def Datum.natural (n : Nat) : α := Writer.integer n

/-- A position, as its coordinates. -/
def Position.write (p : Position) : α :=
  Writer.tuple [Writer.integer p.x, Writer.integer p.y, Writer.integer p.z]

/-- A socket, as its facing and its role. -/
def Socket.write (s : Socket) : α :=
  Writer.record [("facing", s.facing.write), ("state", s.role.write)]

/-- A cost, as its three numbers. -/
def Cost.write (c : Cost) : α :=
  Writer.record [("terracotta", natural c.terracotta), ("dust", natural c.dust),
    ("torches", natural c.torches)]

/-- A record, as its three lists. -/
def TruthTable.Record.write (r : TruthTable.Record) : α :=
  Writer.record [("inputs", Writer.listOf Side.write r.inputs),
    ("outputs", Writer.listOf Side.write r.outputs),
    ("mappings", Writer.listOf (Writer.listOf Writer.boolean) r.rows)]

/-- A table, as its record. -/
def TruthTable.write (t : TruthTable) : α := t.record.write

/-- A nested circuit of a layout. -/
def Placement.write (p : Placement) : α :=
  Writer.record [("layer", natural p.cell.layer), ("row", natural p.cell.row),
    ("column", natural p.cell.column), ("facing", p.facing.write), ("table", p.table.write)]

/-- The sides that are listed with a role, clockwise from north. -/
def Layout.listedSockets (sockets : Facing → Option SocketRole) : List (Facing × SocketRole) :=
  Facing.all.filterMap fun f => (sockets f).map (f, ·)

/-- **A layout.** Only the sides that it lists are written. -/
def Layout.write (l : Layout) : α :=
  Writer.record [("origin", l.origin.write),
    ("sockets", Writer.entries Facing.name SocketRole.write (listedSockets l.sockets)),
    ("layers", Writer.listOf (Writer.listOf Writer.text) l.layers),
    ("circuits", Writer.listOf Placement.write l.circuits)]

end Format

/-! ### In JSON -/

def Facing.json (f : Facing) : Json := f.write

def Side.json (s : Side) : Json := s.write

def SocketRole.json (r : SocketRole) : Json := r.write

def Style.json (s : Style) : Json := s.write

def Position.json (p : Position) : Json := p.write

def Socket.json (s : Socket) : Json := s.write

def Cost.json (c : Cost) : Json := c.write

def TruthTable.Record.json (r : TruthTable.Record) : Json := r.write

def TruthTable.json (t : TruthTable) : Json := t.write

def Placement.json (p : Placement) : Json := p.write

def Layout.json (l : Layout) : Json := l.write

end TorchLogic
