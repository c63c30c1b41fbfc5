import TorchLogic.TruthTable.Basic

/-!
# Records of truth tables

The form in which a table is kept: its sides, and for each output the list of its rows. A record
may hold anything; `TruthTable.Record.table` accepts exactly those that `TruthTable.record`
writes.
-/

namespace TorchLogic.TruthTable

/-- **A written table.** Nothing is promised about the lists. -/
structure Record where
  inputs : List Side
  outputs : List Side
  /-- For each output, its state in every row. -/
  rows : List (List Bool)
  deriving DecidableEq

def record (t : TruthTable) : Record :=
  ⟨t.inputs, t.outputs, t.columns.map (·.toRows t.rowCount)⟩

/-- The first list, counted from `index`, that has not exactly `rows` entries. -/
def rowCountFault? (rows index : Nat) : List (List Bool) → Option TableError
  | [] => none
  | column :: rest =>
    if column.length ≠ rows then some (.columnWidth index rows column.length)
    else rowCountFault? rows (index + 1) rest

/-- **The table of a record**, or the first thing wrong with it: the sides, then the number of rows
of each list, then the number of lists. -/
def Record.table (r : Record) : Except TableError TruthTable :=
  match sideFault? r.inputs r.outputs with
  | some fault => .error fault
  | none =>
    match rowCountFault? (assignmentCount r.inputs.length) 0 r.rows with
    | some fault => .error fault
    | none => ofColumns r.inputs r.outputs (r.rows.map Column.ofRows)

end TorchLogic.TruthTable
