import TorchLogic.TruthTable.Basic

/-!
# Shapes and signatures

The shape of a table is what is left of it when its sides are forgotten: how many inputs it has,
and its columns from the smallest to the greatest. A signature is a shape in writing, as in
`2->1;` followed by the rows of each column in braces. Two tables with the same signature behave
alike up to the naming of their sides.

The price of a table follows its columns: one torch for each row that is on, one piece of dust for
each row that is off.
-/

namespace TorchLogic

/-- **The number of inputs and, for each column, the rows that are on.** -/
structure Shape where
  inputs : Nat
  /-- The rows that are on in each column. -/
  columns : List (List Nat)
  deriving DecidableEq

/-- The signature of a shape: the number of inputs, the number of columns, and the columns. -/
def Shape.signature (s : Shape) : String :=
  toString s.inputs ++ "->" ++ toString s.columns.length ++ ";"
    ++ ",".intercalate (s.columns.map Column.renderRows)

/-- What a circuit block costs. -/
structure Cost where
  /-- Pieces of casing. -/
  terracotta : Nat
  dust : Nat
  torches : Nat
  deriving DecidableEq

namespace TruthTable

def sortedColumns (t : TruthTable) : List Column :=
  t.columns.mergeSort fun a b => (a.compare b).isLE

/-- **The shape of a table.** -/
def shape (t : TruthTable) : Shape := ⟨t.inputs.length, t.sortedColumns.map Column.onRows⟩

/-- **The signature of a table**, which does not mention its sides. -/
def signature (t : TruthTable) : String := t.shape.signature

/-- One piece of casing, a torch for each row that is on, and dust for each row that is off. -/
def cost (t : TruthTable) : Cost :=
  let torches := t.columns.foldr (fun c n => c.ones + n) 0
  ⟨1, t.rowCount * t.columns.length - torches, torches⟩

end TruthTable

end TorchLogic
