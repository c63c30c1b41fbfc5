import TorchLogic.Text.CharLiteral
import TorchLogic.TruthTable.Basic
import TorchLogic.World.Position

/-!
# Layouts

A layout describes one board and the components stacked on it: where the north-west corner is, what
the sides are used for, the glyphs of each layer, and the nested circuits. Each layer has eight rows
from north to south, each of eight glyphs from west to east; the first layer stands directly on the
breadboard.

| glyph | block |
|---|---|
| full stop | air |
| plus sign | wire |
| number sign | solid block |
| asterisk | torch |
| circumflex, greater-than sign, `v`, less-than sign | wall torch facing north, east, south, west |
| `C` | nested circuit, with an entry for its cell |
-/

namespace TorchLogic

/-- **A place in the layers of a layout.** -/
structure Cell where
  /-- Counted from the breadboard up. -/
  layer : Nat
  /-- Counted from the north. -/
  row : Nat
  /-- Counted from the west. -/
  column : Nat
  deriving DecidableEq

namespace Cell

/-- Whether a cell comes before another: by layer, then row, then column. -/
def before (a b : Cell) : Bool :=
  a.layer < b.layer
    || (a.layer == b.layer && (a.row < b.row || (a.row == b.row && a.column < b.column)))

def render (c : Cell) : String :=
  "layer " ++ toString c.layer ++ " row " ++ toString c.row ++ " column " ++ toString c.column

end Cell

/-- **A nested circuit of a layout.** -/
structure Placement where
  cell : Cell
  /-- Where its front looks. -/
  facing : Facing
  table : TruthTable
  deriving DecidableEq

/-- **A layout.** -/
structure Layout where
  /-- The north-west corner of the board. -/
  origin : Position
  /-- The role of each side that is listed. -/
  sockets : Facing → Option SocketRole
  /-- The rows of glyphs of each layer. -/
  layers : List (List String)
  circuits : List Placement

/-- The two formats of layout files. -/
inductive Layout.Format
  | json
  | toml
  deriving DecidableEq

/-- **What can be wrong with a layout.** -/
inductive LayoutError
  /-- The text is no layout in its format. -/
  | malformed (format : Layout.Format)
  | rowCount (layer count : Nat)
  | rowWidth (layer row width : Nat)
  | unknownGlyph (cell : Cell) (glyph : Char)
  | missingCircuit (cell : Cell)
  | duplicateCircuit (cell : Cell)
  /-- The board or its layers would leave the world. -/
  | originOutOfRange (origin : Position)
  /-- An entry is for a cell without a circuit glyph. -/
  | strayCircuit (cell : Cell)
  deriving DecidableEq

def LayoutError.message : LayoutError → String
  | malformed .json => "invalid JSON layout"
  | malformed .toml => "invalid TOML layout"
  | rowCount layer count =>
    "layer " ++ toString layer ++ " has " ++ toString count ++ " rows, expected 8"
  | rowWidth layer row width =>
    "layer " ++ toString layer ++ " row " ++ toString row ++ " has " ++ toString width
      ++ " glyphs, expected 8"
  | unknownGlyph cell glyph =>
    "unknown glyph " ++ Text.charLiteral glyph ++ " at " ++ cell.render
  | missingCircuit cell => "no circuit defined for " ++ cell.render
  | duplicateCircuit cell => "more than one circuit defined for " ++ cell.render
  | originOutOfRange origin => "origin " ++ origin.render ++ " is out of range"
  | strayCircuit cell => "circuit at " ++ cell.render ++ " has no C glyph"

end TorchLogic
