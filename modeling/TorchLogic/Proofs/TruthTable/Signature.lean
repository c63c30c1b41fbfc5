import Mathlib.Data.List.Perm.Basic
import TorchLogic.Proofs.TruthTable.Apply
import TorchLogic.TruthTable.Shape

/-!
# Signatures and what tables compute

The columns of a table are determined by the order of its inputs and by what it computes
(`TruthTable.columns_eq`), so a table is determined by its sides and by what it computes
(`TruthTable.ext_apply`). Its signature is determined by the number of inputs and by the columns in
any order (`TruthTable.signature_eq_of_perm`).

A circuit that does the same as another, turned, has the same columns, if it lists its inputs in the
same order (`TruthTable.columnOf_turn`).
-/

namespace TorchLogic

variable {sides : List Side} {row : Nat}

namespace Signals

/-- **Signals that select a row.** What they are on sides that are not listed does not matter. -/
def ofRow (sides : List Side) (row : Nat) : Signals :=
  .ofFn fun side => row.testBit (sides.idxOf side)

/-- Signals are other signals turned. -/
theorem exists_turn_eq (signals : Signals) : ∃ before : Signals, before.turn = signals :=
  ⟨signals.turn.turn.turn, rfl⟩

/-- Turned sides are numbered as the sides are. -/
theorem ofRow_turn (sides : List Side) (row : Nat) :
    ofRow (sides.map Side.clockwise) row = (ofRow sides row).turn := by
  refine ext_get fun side => ?_
  obtain ⟨before, rfl⟩ : ∃ before : Side, before.clockwise = side :=
    ⟨side.clockwise.clockwise.clockwise, by cases side <;> rfl⟩
  have place : (sides.map Side.clockwise).idxOf before.clockwise = sides.idxOf before := by
    induction sides with
    | nil => rfl
    | cons first rest ih =>
      simp only [List.map_cons, List.idxOf_cons, ih, beq_eq_decide, Side.clockwise_inj]
  rw [get_turn, ofRow, ofRow, get_ofFn, get_ofFn, place]

end Signals

namespace Column

theorem isLE_compare_iff (a b : Column) :
    (a.compare b).isLE = true ↔ a.bits.toNat ≤ b.bits.toNat :=
  Nat.isLE_compare

/-- Two ascending lists of the same columns are equal. -/
theorem eq_of_perm_of_pairwise {l l' : List Column} (perm : l.Perm l')
    (ascending : l.Pairwise fun a b => (a.compare b).isLE = true)
    (ascending' : l'.Pairwise fun a b => (a.compare b).isLE = true) : l = l' := by
  refine List.Perm.eq_of_pairwise (fun a b _ _ ab ba => ?_) ascending ascending' perm
  have same : a.bits.toNat = b.bits.toNat :=
    Nat.le_antisymm ((isLE_compare_iff a b).1 ab) ((isLE_compare_iff b a).1 ba)
  exact congrArg Column.mk (BitVec.toNat_inj.1 same)

end Column

namespace TruthTable

/-- Every row is selected by signals. -/
theorem rowOf_ofRow (nodup : sides.Nodup) (lt : row < assignmentCount sides.length) :
    rowOf (.ofRow sides row) sides = row := by
  refine Nat.eq_of_testBit_eq fun j => ?_
  rw [testBit_rowOf]
  by_cases inside : j < sides.length
  · rw [List.getElem?_eq_getElem inside, Option.any_some, Signals.ofRow, Signals.get_ofFn,
      nodup.idxOf_getElem]
  · have high : sides.length ≤ j := Nat.le_of_not_lt inside
    have small : row < 2 ^ j := Nat.lt_of_lt_of_le lt (Nat.pow_le_pow_right Nat.two_pos high)
    rw [List.getElem?_eq_none high, Option.any_none, Nat.testBit_lt_two_pow small]

/-! ### Columns -/

/-- **The column of a side**, for what a circuit with given inputs computes. -/
def columnOf (inputs : List Side) (f : Signals → Signals) (side : Side) : Column :=
  Column.ofFn (assignmentCount inputs.length) fun row => (f (.ofRow inputs row)).get side

theorem eq_columnOf {t : TruthTable} {k : Nat} {side : Side} {c : Column}
    (output : t.outputs[k]? = some side) (column : t.columns[k]? = some c) :
    c = columnOf t.inputs t.apply side := by
  refine Column.ext_get fun row => ?_
  rw [columnOf, Column.get_ofFn, get_apply _ output column, TruthTable.row]
  by_cases inside : row < assignmentCount t.inputs.length ∧ row < Column.height
  · rw [rowOf_ofRow t.inputs_nodup inside.1, decide_eq_true inside, Bool.true_and]
  -- No column reaches past the last row.
  · rw [decide_eq_false inside, Bool.false_and]
    rw [not_and_or, Nat.not_lt, Nat.not_lt] at inside
    rcases inside with past | high
    · exact (c.bitLength_le_iff _).1 (t.columns_fit c (List.mem_of_getElem? column)) row past
    · exact Column.get_eq_false_of_le high

/-- **The columns of a table** follow from its sides and from what it computes. -/
theorem columns_eq (t : TruthTable) : t.columns = t.outputs.map (columnOf t.inputs t.apply) := by
  refine List.ext_getElem (by rw [List.length_map, t.columns_length]) fun k inside inside' => ?_
  have output : k < t.outputs.length := by rwa [← t.columns_length]
  rw [List.getElem_map]
  exact eq_columnOf (List.getElem?_eq_getElem output) (List.getElem?_eq_getElem inside)

/-- Each output has the column of its side. -/
theorem mem_zip_columns {t : TruthTable} {side : Side} (output : side ∈ t.outputs) :
    (side, columnOf t.inputs t.apply side) ∈ t.outputs.zip t.columns := by
  rw [t.columns_eq, List.zip_map_right]
  refine List.mem_map.2 ⟨(side, side), ?_, rfl⟩
  obtain ⟨k, place⟩ := List.getElem?_of_mem output
  exact List.mem_of_getElem? (List.getElem?_zip_eq_some.2 ⟨place, place⟩)

/-- **A table is determined by its sides and by what it computes.** -/
theorem ext_apply {t u : TruthTable} (inputs : t.inputs = u.inputs)
    (outputs : t.outputs = u.outputs)
    (apply : ∀ signals, t.apply signals = u.apply signals) : t = u := by
  have columns : t.columns = u.columns := by
    rw [t.columns_eq, u.columns_eq, inputs, outputs, funext apply]
  cases t
  cases u
  cases inputs
  cases outputs
  cases columns
  rfl

/-! ### Signatures -/

/-- Sorting puts the columns in ascending order. -/
theorem pairwise_sortedColumns (t : TruthTable) :
    t.sortedColumns.Pairwise fun a b => (a.compare b).isLE = true := by
  refine List.pairwise_mergeSort (fun a b c => ?_) (fun a b => ?_) t.columns
  · rw [Column.isLE_compare_iff, Column.isLE_compare_iff, Column.isLE_compare_iff]
    exact Nat.le_trans
  · rw [Bool.or_eq_true, Column.isLE_compare_iff, Column.isLE_compare_iff]
    exact Nat.le_total _ _

theorem sortedColumns_perm (t : TruthTable) : t.sortedColumns.Perm t.columns :=
  List.mergeSort_perm _ _

/-- Sorting forgets the order of the columns. -/
theorem sortedColumns_eq_of_perm {t u : TruthTable} (perm : t.columns.Perm u.columns) :
    t.sortedColumns = u.sortedColumns :=
  Column.eq_of_perm_of_pairwise (t.sortedColumns_perm.trans (perm.trans u.sortedColumns_perm.symm))
    t.pairwise_sortedColumns u.pairwise_sortedColumns

/-- **The signature is determined by the number of inputs and the columns**, in any order. -/
theorem signature_eq_of_perm {t u : TruthTable} (inputs : t.inputs.length = u.inputs.length)
    (columns : t.columns.Perm u.columns) : t.signature = u.signature := by
  rw [signature, signature, shape, shape, inputs, sortedColumns_eq_of_perm columns]

/-! ### Turning -/

/-- **A circuit that does the same, turned, has the same column** on the turned side. -/
theorem columnOf_turn {f g : Signals → Signals}
    (turned : ∀ signals, g signals.turn = (f signals).turn) (inputs : List Side) (side : Side) :
    columnOf (inputs.map Side.clockwise) g side.clockwise = columnOf inputs f side := by
  simp only [columnOf, List.length_map, Signals.ofRow_turn, turned, Signals.get_turn]

end TruthTable

end TorchLogic
