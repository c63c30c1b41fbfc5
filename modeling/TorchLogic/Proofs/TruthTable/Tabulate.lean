import TorchLogic.Proofs.TruthTable.Muted

/-!
# Tabulated functions

A table that is made of functions reproduces them: for any signals, an output has the value of its
function for the states of the inputs, in the order in which these are listed
(`TruthTable.tabulation_exact`).

Row `i` of a column is filled with the value of the function for the states that the bits of `i`
are, and it is looked up by the number whose bits are the states. That the two agree is
`TruthTable.assignment_rowOf`.
-/

namespace TorchLogic.TruthTable

variable {inputs outputs : List Side} {functions : List (List Bool → Bool)} {t : TruthTable}

/-- **The bits of a row number are the states that it was made of.** -/
theorem assignment_rowOf (signals : Signals) (inputs : List Side) :
    assignment inputs.length (rowOf signals inputs) = inputs.map signals.get := by
  refine List.ext_getElem ?_ fun j inside inside' => ?_
  · rw [assignment, List.length_map, List.length_range, List.length_map]
  · have listed : j < inputs.length := by rwa [List.length_map] at inside'
    simp only [assignment, List.getElem_map, List.getElem_range]
    rw [testBit_rowOf, List.getElem?_eq_getElem listed, Option.any_some]

/-- **A function is looked up in its column.** -/
theorem get_tabulate_rowOf (nodup : inputs.Nodup) (f : List Bool → Bool) (signals : Signals) :
    (tabulate inputs.length f).get (rowOf signals inputs) = f (inputs.map signals.get) :=
  calc (tabulate inputs.length f).get (rowOf signals inputs)
      = f (assignment inputs.length (rowOf signals inputs)) := get_ofFn_rowOf nodup _ signals
    _ = f (inputs.map signals.get) := by rw [assignment_rowOf]

/-- The table of some functions has the given sides, and the functions as columns. -/
theorem ofFunctions_eq_ok_iff : ofFunctions inputs outputs functions = .ok t ↔
    t.inputs = inputs ∧ t.outputs = outputs ∧
      t.columns = functions.map (tabulate inputs.length) := by
  rw [← ofColumns_eq_ok_iff, ofFunctions]
  cases sides : sideFault? inputs outputs with
  | some fault =>
    refine ⟨nofun, fun built => ?_⟩
    rw [sideFault?_of_ofColumns_eq_ok built] at sides
    cases sides
  | none => rfl

/-- Functions have a table if there is one for each output and no side is listed twice. -/
theorem exists_ofFunctions_eq_ok (distinct : (inputs ++ outputs).Nodup)
    (count : functions.length = outputs.length) :
    ∃ t, ofFunctions inputs outputs functions = .ok t ∧ t.inputs = inputs ∧ t.outputs = outputs ∧
      t.columns = functions.map (tabulate inputs.length) := by
  have columns : (functions.map (tabulate inputs.length)).length = outputs.length := by
    rw [List.length_map, count]
  have fit : ∀ c ∈ functions.map (tabulate inputs.length),
      c.bitLength ≤ assignmentCount inputs.length := by
    intro c mem
    obtain ⟨f, -, rfl⟩ := List.mem_map.1 mem
    exact Column.bitLength_ofFn_le _ _
  obtain ⟨t, -, lists⟩ := exists_ofColumns_eq_ok distinct columns fit
  exact ⟨t, ofFunctions_eq_ok_iff.2 lists, lists⟩

/-- **A table reproduces the functions that it is made of.** If no side is listed twice and there is
one function for each output, there is a table, which gives each output the value of its function
for the states of the inputs, leaves all other sides off, and looks at the inputs alone. -/
theorem tabulation_exact (inputs outputs : List Side) (functions : List (List Bool → Bool))
    (distinct : (inputs ++ outputs).Nodup) (count : functions.length = outputs.length) :
    ∃ t, ofFunctions inputs outputs functions = .ok t ∧ t.inputs = inputs ∧ t.outputs = outputs ∧
      (∀ (signals : Signals) (k : Nat) (side : Side) (f : List Bool → Bool),
        outputs[k]? = some side → functions[k]? = some f →
          (t.apply signals).get side = f (inputs.map signals.get)) ∧
      (∀ (signals : Signals), ∀ side ∉ outputs, (t.apply signals).get side = false) ∧
      ∀ signals signals' : Signals, (∀ side ∈ inputs, signals.get side = signals'.get side) →
        t.apply signals = t.apply signals' := by
  obtain ⟨t, ok, rfl, rfl, columns⟩ := exists_ofFunctions_eq_ok distinct count
  refine ⟨t, ok, rfl, rfl, ?_, ?_, ?_⟩
  · -- the row that the signals select is the one for their states
    intro signals k side f output function
    have column : t.columns[k]? = some (tabulate t.inputs.length f) := by
      rw [columns, List.getElem?_map, function, Option.map_some]
    calc (t.apply signals).get side
        = (tabulate t.inputs.length f).get (t.row signals) := get_apply signals output column
      _ = f (t.inputs.map signals.get) := get_tabulate_rowOf t.inputs_nodup f signals
  · intro signals side other
    exact get_apply_of_not_mem signals other
  · intro signals signals' same
    exact apply_congr same

/-- Two functions of two states: whether one of them is on, and whether both are. -/
def sumAndCarry : List (List Bool → Bool) :=
  [fun states => states.getD 0 false != states.getD 1 false,
    fun states => states.getD 0 false && states.getD 1 false]

/-- A half adder, with both inputs on; what is on at its outputs does not matter. -/
theorem tabulation_exact_sumAndCarry :
    ([Side.right, .left] ++ [Side.front, .back]).Nodup ∧
    sumAndCarry.length = [Side.front, .back].length ∧
      ∃ t, ofFunctions [.right, .left] [.front, .back] sumAndCarry = .ok t ∧
        (t.apply ⟨true, true, false, true⟩).get .front = false ∧
        (t.apply ⟨true, true, false, true⟩).get .back = true ∧
        (t.apply ⟨true, true, false, true⟩).get .left = false ∧
        t.apply ⟨true, true, false, true⟩ = t.apply ⟨false, true, true, true⟩ := by
  have distinct : ([Side.right, .left] ++ [Side.front, .back]).Nodup := by decide
  have count : sumAndCarry.length = [Side.front, .back].length := rfl
  obtain ⟨t, ok, -, -, outputs, others, inputs⟩ :=
    tabulation_exact [.right, .left] [.front, .back] sumAndCarry distinct count
  refine ⟨distinct, count, t, ok, ?_, ?_, ?_, ?_⟩
  · -- the sum is off and the carry on, for both inputs are on
    exact outputs _ 0 .front _ rfl rfl
  · exact outputs _ 1 .back _ rfl rfl
  · exact others _ .left (by decide)
  · exact inputs _ _ (by decide)

end TorchLogic.TruthTable
