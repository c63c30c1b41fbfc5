import TorchLogic.Board.Basic
import TorchLogic.Layout.Basic

/-!
# The world of a layout

A layout becomes a world in four steps, and the first defect is the error: the board must lie within
the limits of the world, no cell may have two circuit entries, the glyphs are read layer by layer,
row by row and column by column, and no circuit entry may be left over.
-/

namespace TorchLogic.Layout

/-- The largest coordinate that a layout may reach, either way. -/
def worldLimit : Int := 30000000

/-- Rows to a layer, and glyphs to a row. -/
def gridSize : Nat := 8

/-- A place in a layout as a coordinate of 32 bits, of which the highest is the sign. -/
def coordinate (n : Nat) : Int := (n : Int).bmod 4294967296

/-- **Where a cell is in the world.** -/
def position (l : Layout) (c : Cell) : Position :=
  l.origin.offset (coordinate c.column) (coordinate c.layer + 1) (coordinate c.row)

/-- The role of each side, empty if it is not listed. -/
def role (l : Layout) (f : Facing) : SocketRole := (l.sockets f).getD .empty

/-- Whether a coordinate is within the limits. -/
def inRange (n : Int) : Bool := -worldLimit ≤ n && n ≤ worldLimit

/-- **Whether the corner of the board and the level above the last layer are within the
limits.** -/
def fits (l : Layout) : Bool :=
  inRange l.origin.x && inRange l.origin.y && inRange l.origin.z
    && (l.layers.length : Int) ≤ worldLimit && inRange (l.origin.y + l.layers.length + 1)

/-- The first cell that an earlier entry names, too. -/
def duplicate? (earlier : List Cell) : List Placement → Option Cell
  | [] => none
  | p :: rest => if p.cell ∈ earlier then some p.cell else duplicate? (p.cell :: earlier) rest

/-- The first of the cells of a list of entries. -/
def firstCell? : List Placement → Option Cell
  | [] => none
  | p :: rest =>
    match firstCell? rest with
    | none => some p.cell
    | some c => if c.before p.cell then some c else some p.cell

/-- **What a glyph stands for.** -/
inductive Glyph
  | block (b : Block)
  | circuit
  deriving DecidableEq

def Glyph.ofChar? : Char → Option Glyph
  | '.' => some (.block .air)
  | '+' => some (.block .wire)
  | '#' => some (.block .solid)
  | '*' => some (.block .torch)
  | '^' => some (.block (.wallTorch .north))
  | '>' => some (.block (.wallTorch .east))
  | 'v' => some (.block (.wallTorch .south))
  | '<' => some (.block (.wallTorch .west))
  | 'C' => some .circuit
  | _ => none

/-- A world in the making, and the circuit entries that no glyph has used yet. -/
structure Site where
  world : World
  unused : List Placement

/-- Puts down what a glyph stands for. -/
def placeGlyph (l : Layout) (s : Site) (c : Cell) (glyph : Char) : Except LayoutError Site :=
  match Glyph.ofChar? glyph with
  | none => .error (.unknownGlyph c glyph)
  | some (.block .air) => .ok s
  | some (.block b) => .ok { s with world := s.world.setBlock (l.position c) b }
  | some .circuit =>
    match s.unused.find? fun p => p.cell == c with
    | none => .error (.missingCircuit c)
    | some p =>
      -- The entry is used up; what is left at the end has no glyph.
      .ok ⟨s.world.placeCircuit (l.position c) p.facing p.table,
        s.unused.filter fun p => p.cell != c⟩

/-- Puts down a row, glyph by glyph. -/
def placeRow (l : Layout) (layer : Nat) (s : Site) (row : Nat) (glyphs : String) :
    Except LayoutError Site :=
  if glyphs.length = gridSize then
    glyphs.toList.zipIdx.foldlM (fun s (glyph, column) => l.placeGlyph s ⟨layer, row, column⟩ glyph)
      s
  else .error (.rowWidth layer row glyphs.length)

/-- Puts down a layer, row by row. -/
def placeLayer (l : Layout) (s : Site) (layer : Nat) (rows : List String) :
    Except LayoutError Site :=
  if rows.length = gridSize then
    rows.zipIdx.foldlM (fun s (glyphs, row) => l.placeRow layer s row glyphs) s
  else .error (.rowCount layer rows.length)

/-- **The world of a layout**, or the first thing wrong with it. -/
def world (l : Layout) : Except LayoutError World :=
  if l.fits then
    match duplicate? [] l.circuits with
    | some c => .error (.duplicateCircuit c)
    | none => do
      let laid := World.empty.layBoard l.origin l.role
      let s ← l.layers.zipIdx.foldlM (fun s (rows, layer) => l.placeLayer s layer rows)
        ⟨laid, l.circuits⟩
      match firstCell? s.unused with
      | some c => .error (.strayCircuit c)
      | none => .ok s.world
  else .error (.originOutOfRange l.origin)

end TorchLogic.Layout
