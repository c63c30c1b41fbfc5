import Mathlib.Data.List.Permutation
import TorchLogic.Proofs.TruthTable.Muted

/-!
# Tables with their inputs in another order

The inputs of a table can be listed in any order, if the rows of its columns are moved accordingly
(`TruthTable.rewire`). The table then does what it did (`TruthTable.apply_rewire`), and there is no
other table with the inputs in this order that does (`TruthTable.Rewired.eq_rewire`).

Where the inputs have moved is told by a list of places: for each old input, its place in the new
list. This list alone says how the rows move (`TruthTable.rowAt`), whatever the sides are called,
and it runs through all the places there are (`TruthTable.Rewired.places`).
-/

namespace TorchLogic

variable {t u : TruthTable} {inputs : List Side}

namespace TruthTable

/-- **The row whose bits stand in given places of another row.** -/
def rowAt : List Nat → Nat → Nat
  | [], _ => 0
  | place :: rest, row => (row.testBit place).toNat + 2 * rowAt rest row

/-- The row of some signals for some of the inputs stands in the places that these have among all.
-/
theorem rowAt_rowOf {sides : List Side} (listed : ∀ side ∈ sides, side ∈ inputs)
    (signals : Signals) :
    rowAt (sides.map inputs.idxOf) (rowOf signals inputs) = rowOf signals sides := by
  induction sides with
  | nil => rfl
  | cons side rest ih =>
    have place : inputs[inputs.idxOf side]? = some side :=
      List.getElem?_idxOf (listed side List.mem_cons_self)
    -- The bit of an input is the state of its side.
    have state : (rowOf signals inputs).testBit (inputs.idxOf side) = signals.get side := by
      rw [testBit_rowOf, place, Option.any_some]
    have others := ih fun other mem => listed other (List.mem_cons_of_mem _ mem)
    rw [List.map_cons, rowAt, state, rowOf, others]

end TruthTable

/-- **The column in which each row has what stood in the row at the given places.** -/
def Column.rewire (places : List Nat) (c : Column) : Column :=
  .ofFn (assignmentCount places.length) fun row => c.get (TruthTable.rowAt places row)

namespace TruthTable

/-! ### Rewired tables -/

/-- **Two tables that differ in the order of their inputs.** They have the same outputs and do the
same. -/
structure Rewired (u t : TruthTable) : Prop where
  inputs : u.inputs.Perm t.inputs
  outputs : u.outputs = t.outputs
  apply : ∀ signals, u.apply signals = t.apply signals

theorem Rewired.symm (h : u.Rewired t) : t.Rewired u where
  inputs := h.inputs.symm
  outputs := h.outputs.symm
  apply signals := (h.apply signals).symm

/-- **The table with its inputs in another order.** -/
def rewire (t : TruthTable) (inputs : List Side) (perm : inputs.Perm t.inputs) : TruthTable where
  inputs := inputs
  outputs := t.outputs
  columns := t.columns.map (Column.rewire (t.inputs.map inputs.idxOf))
  sides_nodup := (perm.append_right t.outputs).nodup_iff.2 t.sides_nodup
  columns_length := by rw [List.length_map, t.columns_length]
  columns_fit := by
    intro c mem
    obtain ⟨old, -, rfl⟩ := List.mem_map.1 mem
    have count : (t.inputs.map inputs.idxOf).length = inputs.length := by
      rw [List.length_map, perm.length_eq]
    rw [← count]
    exact Column.bitLength_ofFn_le _ _

/-- **The order of the inputs does not show** in what a table does. -/
theorem apply_rewire (t : TruthTable) (perm : inputs.Perm t.inputs) (signals : Signals) :
    (t.rewire inputs perm).apply signals = t.apply signals := by
  have nodup : inputs.Nodup := perm.nodup_iff.2 t.inputs_nodup
  have count : (t.inputs.map inputs.idxOf).length = inputs.length := by
    rw [List.length_map, perm.length_eq]
  have listed : ∀ side ∈ t.inputs, side ∈ inputs := fun side mem => perm.mem_iff.2 mem
  refine apply_eq_of_map_columns rfl rfl fun c => ?_
  calc (c.rewire (t.inputs.map inputs.idxOf)).get (rowOf signals inputs)
      = c.get (rowAt (t.inputs.map inputs.idxOf) (rowOf signals inputs)) := by
        rw [Column.rewire, count]
        exact get_ofFn_rowOf nodup _ signals
    _ = c.get (rowOf signals t.inputs) := by rw [rowAt_rowOf listed]

theorem rewired_rewire (t : TruthTable) (perm : inputs.Perm t.inputs) :
    (t.rewire inputs perm).Rewired t where
  inputs := perm
  outputs := rfl
  apply := t.apply_rewire perm

namespace Rewired

variable (h : u.Rewired t)

include h

/-- No other table with the inputs in this order does the same. -/
theorem eq_rewire : u = t.rewire u.inputs h.inputs := by
  refine ext_apply rfl h.outputs fun signals => ?_
  rw [h.apply, t.apply_rewire]

/-- **The columns of a rewired table** are the old ones with their rows moved. -/
theorem columns_eq : u.columns = t.columns.map (Column.rewire (t.inputs.map u.inputs.idxOf)) :=
  congrArg columns h.eq_rewire

/-- **The places of the old inputs among the new** are all the places there are, each once. -/
theorem places : (t.inputs.map u.inputs.idxOf).Perm (List.range t.inputs.length) := by
  -- In their own list, the new inputs stand in one place after the other.
  have own : u.inputs.map u.inputs.idxOf = List.range u.inputs.length := by
    refine List.ext_getElem (by rw [List.length_map, List.length_range]) fun i _ _ => ?_
    rw [List.getElem_map, List.getElem_range, u.inputs_nodup.idxOf_getElem]
  rw [← h.inputs.length_eq, ← own]
  exact h.inputs.symm.map _

end Rewired

end TruthTable

end TorchLogic
