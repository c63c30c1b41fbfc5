import TorchLogic.Proofs.TruthTable.Signature

/-!
# Muted inputs

A table in which some inputs are muted has the sides of the old one, and its columns read in each
row what the old ones read in the row in which the muted inputs are off (`TruthTable.muted`). So it
does what the old table does when these inputs are off (`TruthTable.apply_muted`), and if no input
is muted, it is the old table (`TruthTable.muted_eq_self`).
-/

namespace TorchLogic

variable {mute : Side → Bool} {inputs : List Side}

/-- Signals with some sides turned off. -/
def Signals.muted (signals : Signals) (mute : Side → Bool) : Signals :=
  .ofFn fun side => signals.get side && !mute side

@[simp] theorem Signals.get_muted (signals : Signals) (mute : Side → Bool) (side : Side) :
    (signals.muted mute).get side = (signals.get side && !mute side) :=
  get_ofFn _ side

namespace TruthTable

/-- Inputs alone select the row. -/
theorem rowOf_congr {signals signals' : Signals}
    (same : ∀ side ∈ inputs, signals.get side = signals'.get side) :
    rowOf signals inputs = rowOf signals' inputs := by
  refine Nat.eq_of_testBit_eq fun j => ?_
  rw [testBit_rowOf, testBit_rowOf]
  cases place : inputs[j]? with
  | none => rfl
  | some side => exact same side (List.mem_of_getElem? place)

/-- What is off and what is on matters for inputs alone. -/
theorem apply_congr {t : TruthTable} {signals signals' : Signals}
    (same : ∀ side ∈ t.inputs, signals.get side = signals'.get side) :
    t.apply signals = t.apply signals' := by
  rw [apply, apply, row, row, rowOf_congr same]

/-- **The row in which muted inputs are off**, and the others as they are in the given row. -/
def mutedRow (inputs : List Side) (mute : Side → Bool) (row : Nat) : Nat :=
  rowOf ((Signals.ofRow inputs row).muted mute) inputs

theorem testBit_mutedRow (nodup : inputs.Nodup) (row j : Nat) :
    (mutedRow inputs mute row).testBit j =
      inputs[j]?.any fun side => row.testBit j && !mute side := by
  rw [mutedRow, testBit_rowOf]
  by_cases inside : j < inputs.length
  · simp only [List.getElem?_eq_getElem inside, Option.any_some, Signals.get_muted, Signals.ofRow,
      Signals.get_ofFn, nodup.idxOf_getElem]
  · simp only [List.getElem?_eq_none (Nat.le_of_not_lt inside), Option.any_none]

theorem mutedRow_rowOf (nodup : inputs.Nodup) (signals : Signals) :
    mutedRow inputs mute (rowOf signals inputs) = rowOf (signals.muted mute) inputs := by
  refine Nat.eq_of_testBit_eq fun j => ?_
  rw [testBit_mutedRow nodup, testBit_rowOf, testBit_rowOf]
  cases inputs[j]? with
  | none => rfl
  | some side => rw [Option.any_some, Option.any_some, Option.any_some, Signals.get_muted]

/-- **The table in which some inputs count as off.** -/
def muted (t : TruthTable) (mute : Side → Bool) : TruthTable where
  inputs := t.inputs
  outputs := t.outputs
  columns := t.columns.map fun c => .ofFn t.rowCount fun row => c.get (mutedRow t.inputs mute row)
  sides_nodup := t.sides_nodup
  columns_length := by rw [List.length_map, t.columns_length]
  columns_fit := by
    intro c mem
    obtain ⟨old, -, rfl⟩ := List.mem_map.1 mem
    refine (Column.bitLength_le_iff _ _).2 fun row past => ?_
    rw [Column.get_ofFn, decide_eq_false fun inside => Nat.not_lt.2 past inside.1, Bool.false_and]

/-- **The table does what the old one does when the muted inputs are off.** -/
theorem apply_muted (t : TruthTable) (mute : Side → Bool) (signals : Signals) :
    (t.muted mute).apply signals = t.apply (signals.muted mute) := by
  refine apply_eq_of_map_columns rfl rfl fun c => ?_
  calc
    (Column.ofFn t.rowCount fun row => c.get (mutedRow t.inputs mute row)).get
        (rowOf signals t.inputs)
      = c.get (mutedRow t.inputs mute (rowOf signals t.inputs)) :=
        get_ofFn_rowOf t.inputs_nodup _ signals
    _ = c.get (rowOf (signals.muted mute) t.inputs) := by rw [mutedRow_rowOf t.inputs_nodup]

/-- A table in which no input is muted is as it was. -/
theorem muted_eq_self {t : TruthTable} (heard : ∀ side ∈ t.inputs, mute side = false) :
    t.muted mute = t := by
  refine ext_apply rfl rfl fun signals => ?_
  rw [apply_muted]
  refine apply_congr fun side input => ?_
  rw [Signals.get_muted, heard side input, Bool.not_false, Bool.and_true]

end TruthTable

end TorchLogic
