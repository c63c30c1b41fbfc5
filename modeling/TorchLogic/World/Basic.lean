import Std.Data.HashMap
import TorchLogic.Counting
import TorchLogic.TruthTable.Basic
import TorchLogic.World.Block
import TorchLogic.World.Position

/-!
# The world

Which block stands where, and which table belongs to which nested circuit. A position that nothing
was ever put at holds air.

A world is known through `World.block` and `World.table?`. Replacing a block (`World.setBlock`)
forgets the table at its position unless the new block is a circuit. Putting breadboard blocks down
(`World.setBreadboard`) leaves the tables alone.
-/

namespace TorchLogic

/-- **The blocks of the world** and the tables of its nested circuits. -/
structure World where
  /-- The blocks that are not air. -/
  blocks : Std.HashMap Position Block
  /-- The tables of nested circuits. -/
  tables : Std.HashMap Position TruthTable

namespace World

/-- The world without blocks. -/
def empty : World := ⟨∅, ∅⟩

/-- The block at a position. -/
def block (w : World) (p : Position) : Block := w.blocks[p]?.getD .air

/-- The table kept for a position. -/
def table? (w : World) (p : Position) : Option TruthTable := w.tables[p]?

/-- **Replaces the block at a position.** Its table goes, unless the new block is a circuit. -/
def setBlock (w : World) (p : Position) (b : Block) : World where
  blocks := if b = .air then w.blocks.erase p else w.blocks.insert p b
  tables := if b.isCircuit then w.tables else w.tables.erase p

/-- Puts a breadboard block down; tables stay as they are. -/
def setBreadboard (w : World) (p : Position) (style : Style) : World where
  blocks := w.blocks.insert p (.breadboard style)
  tables := w.tables

/-- Puts a nested circuit down, with its table. -/
def placeCircuit (w : World) (p : Position) (facing : Facing) (t : TruthTable) : World where
  blocks := w.blocks.insert p (.circuit facing)
  tables := w.tables.insert p t

/-! ### Blocks and tables after each operation -/

@[simp] theorem block_empty (p : Position) : empty.block p = .air := by simp [empty, block]

@[simp] theorem table?_empty (p : Position) : empty.table? p = none := by simp [empty, table?]

theorem block_setBlock (w : World) (p q : Position) (b : Block) :
    (w.setBlock p b).block q = if p = q then b else w.block q := by
  by_cases air : b = .air
  · by_cases eq : p = q <;> simp [setBlock, block, air, Std.HashMap.getElem?_erase, eq]
  · by_cases eq : p = q <;> simp [setBlock, block, air, Std.HashMap.getElem?_insert, eq]

theorem table?_setBlock (w : World) (p q : Position) (b : Block) :
    (w.setBlock p b).table? q =
      if p = q ∧ b.isCircuit = false then none else w.table? q := by
  by_cases circuit : b.isCircuit = true
  · simp [setBlock, table?, circuit]
  · by_cases eq : p = q <;> simp [setBlock, table?, circuit, Std.HashMap.getElem?_erase, eq]

theorem block_setBreadboard (w : World) (p q : Position) (style : Style) :
    (w.setBreadboard p style).block q = if p = q then .breadboard style else w.block q := by
  by_cases eq : p = q <;> simp [setBreadboard, block, Std.HashMap.getElem?_insert, eq]

@[simp] theorem table?_setBreadboard (w : World) (p q : Position) (style : Style) :
    (w.setBreadboard p style).table? q = w.table? q := rfl

theorem block_placeCircuit (w : World) (p q : Position) (facing : Facing) (t : TruthTable) :
    (w.placeCircuit p facing t).block q = if p = q then .circuit facing else w.block q := by
  by_cases eq : p = q <;> simp [placeCircuit, block, Std.HashMap.getElem?_insert, eq]

theorem table?_placeCircuit (w : World) (p q : Position) (facing : Facing) (t : TruthTable) :
    (w.placeCircuit p facing t).table? q = if p = q then some t else w.table? q := by
  by_cases eq : p = q <;> simp [placeCircuit, table?, Std.HashMap.getElem?_insert, eq]

/-! ### Finitely many blocks -/

/-- The positions that hold something other than air are among these. -/
def positions (w : World) : List Position := w.blocks.keys

theorem mem_positions {w : World} {p : Position} (h : w.block p ≠ .air) : p ∈ w.positions := by
  rw [positions, Std.HashMap.mem_keys, Std.HashMap.mem_iff_isSome_getElem?]
  cases eq : w.blocks[p]? with
  | none => simp [block, eq] at h
  | some b => rfl

end World

end TorchLogic
