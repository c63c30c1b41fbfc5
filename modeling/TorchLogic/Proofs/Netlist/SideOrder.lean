import TorchLogic.Code
import TorchLogic.Proofs.Netlist.Consistency
import TorchLogic.Proofs.Netlist.TruthTable

/-!
# The order of the sides of a table

A table that is worked out from a netlist names its sides as if the board faced north, but it does
not bring them into an order: they are listed as the board nodes are, and these are listed as they
were added, which is how they are numbered. So the sides of a table are in canonical order exactly
if the board nodes were added in that order (`Netlist.inCanonicalOrder_iff`), and the same circuit
added in another order has another table.

The rows follow the inputs as they are listed, whatever their order is: bit `j` of the number of a
row is the state of the `j`-th input. What a table computes for named sides does not depend on it.
-/

namespace TorchLogic

/-- **Sides in canonical order**: from the front to the right, the back and the left. -/
def Side.InCanonicalOrder (sides : List Side) : Prop := sides.Pairwise fun s s' => s.code < s'.code

instance {sides : List Side} : Decidable (Side.InCanonicalOrder sides) :=
  inferInstanceAs (Decidable (List.Pairwise _ sides))

namespace Netlist

variable {g : Netlist .reduced} {t : TruthTable}

/-- In an ascending list, what stands earlier is what is less. -/
theorem pairwise_iff_of_ascend {l : List Nat} (ascends : l.Pairwise (· < ·))
    {R : Nat → Nat → Prop} :
    l.Pairwise R ↔ ∀ a ∈ l, ∀ b ∈ l, a < b → R a b := by
  refine ⟨fun related a ha b hb lt => ?_, fun related => ?_⟩
  · obtain ⟨i, hi, rfl⟩ := List.getElem_of_mem ha
    obtain ⟨j, hj, rfl⟩ := List.getElem_of_mem hb
    refine List.pairwise_iff_getElem.1 related i j hi hj (Nat.lt_of_not_le fun le => ?_)
    -- The other way round it would not be less.
    rcases Nat.lt_or_eq_of_le le with later | rfl
    · exact Nat.lt_asymm lt (List.pairwise_iff_getElem.1 ascends j i hj hi later)
    · exact Nat.lt_irrefl _ lt
  · exact ascends.imp_of_mem fun {a b} ha hb lt => related a ha b hb lt

/-- The sides of some board nodes are in canonical order if the nodes were added in that order. -/
theorem inCanonicalOrder_map_iff {l : List Nat} (ascends : l.Pairwise (· < ·)) :
    Side.InCanonicalOrder (l.map g.boardSide) ↔
      ∀ a ∈ l, ∀ b ∈ l, a < b → (g.boardSide a).code < (g.boardSide b).code := by
  rw [Side.InCanonicalOrder, List.pairwise_map]
  exact pairwise_iff_of_ascend ascends

/-- **The sides of a table are listed as the board nodes were added**, each list in canonical order
exactly if its nodes were added in that order. The bits of the number of a row are the states of the
inputs in the same order, and the columns have in this row what the outputs have in the solution for
these states. -/
theorem inCanonicalOrder_iff (reachable : g.Reachable) (ok : g.truthTable = .ok t) :
    (t.inputs = g.inputs.map g.boardSide ∧ t.outputs = g.outputs.map g.boardSide) ∧
    (g.inputs.Pairwise (· < ·) ∧ g.outputs.Pairwise (· < ·)) ∧
    (Side.InCanonicalOrder t.inputs ↔
      ∀ a ∈ g.inputs, ∀ b ∈ g.inputs, a < b → (g.boardSide a).code < (g.boardSide b).code) ∧
    (Side.InCanonicalOrder t.outputs ↔
      ∀ a ∈ g.outputs, ∀ b ∈ g.outputs, a < b → (g.boardSide a).code < (g.boardSide b).code) ∧
    ∀ row < t.rowCount, ∃ v, g.Solves row.testBit v ∧ t.outputsAt row = g.outputs.map v := by
  have h := reachable.wellFormed
  obtain ⟨acyclic, inputs, outputs, columns⟩ := h.of_truthTable_eq_ok ok
  refine ⟨⟨inputs, outputs⟩, ⟨h.consistent.inputs_ascend, h.consistent.outputs_ascend⟩, ?_, ?_,
    fun row inside => ?_⟩
  · -- the inputs are listed in the order of their numbers, and the outputs are as well
    rw [inputs]
    exact inCanonicalOrder_map_iff h.consistent.inputs_ascend
  · rw [outputs]
    exact inCanonicalOrder_map_iff h.consistent.outputs_ascend
  · have few : g.inputs.length ≤ 4 := by
      rw [← List.length_map g.boardSide, ← inputs]
      exact TruthTable.length_le_of_nodup t.inputs_nodup
    rw [TruthTable.rowCount, inputs, List.length_map] at inside
    -- The number of the row, as a word, gives the inputs the states of the row.
    have word : (UInt64.ofNat row).toNat = row := by
      refine UInt64.toNat_ofNat_of_lt' (Nat.lt_of_lt_of_le inside ?_)
      exact Nat.pow_le_pow_right (by decide) (Nat.le_trans few (by decide : 4 ≤ 64))
    have solves := solves_settled h acyclic (Nat.lt_of_le_of_lt few (by decide)) (UInt64.ofNat row)
    rw [word] at solves
    refine ⟨_, solves, ?_⟩
    rw [TruthTable.outputsAt, columns, List.map_map]
    exact List.map_congr_left fun id _ => get_settledColumn few inside

/-- Two inputs, the one in the south before the one in the north, and an output in the east that the
one in the south drives. -/
def southFirst : Netlist .reduced :=
  [Edit.input ⟨.south, .input⟩, .input ⟨.north, .input⟩, .output ⟨.east, .output⟩,
    .connect 0 2].foldl edited empty

/-- Bit 0 of a row is the state of the input in the back, and the sides of the inputs are not in
order. -/
theorem inCanonicalOrder_iff_southFirst : southFirst.Reachable ∧
    ∃ t, southFirst.truthTable = .ok t ∧ ¬ Side.InCanonicalOrder t.inputs ∧
      ∃ v, southFirst.Solves (Nat.testBit 1) v ∧ t.outputsAt 1 = [v 2] := by
  have reachable : southFirst.Reachable := reachable_foldl_edited _ .empty
  obtain ⟨t, ok, inputs, -⟩ := truthTable_eq_ok reachable.wellFormed (by cbv) (by decide)
  obtain ⟨-, -, order, -, rows⟩ := inCanonicalOrder_iff reachable ok
  have inside : 1 < t.rowCount := by
    rw [TruthTable.rowCount, inputs]
    decide
  obtain ⟨v, solves, states⟩ := rows 1 inside
  refine ⟨reachable, t, ok, fun ordered => ?_, v, solves, states⟩
  exact absurd (order.1 ordered 0 (by decide) 1 (by decide) Nat.zero_lt_one) (by decide)

/-- **The sides of a table need not be in canonical order.** -/
theorem southFirst_not_inCanonicalOrder : southFirst.Reachable ∧ southFirst.isAcyclic = true ∧
    ∃ t, southFirst.truthTable = .ok t ∧ t.inputs = [.back, .front] ∧
      ¬ Side.InCanonicalOrder t.inputs := by
  have reachable : southFirst.Reachable := reachable_foldl_edited _ .empty
  have acyclic : southFirst.isAcyclic = true := by cbv
  obtain ⟨t, ok, inputs, -⟩ := truthTable_eq_ok reachable.wellFormed acyclic (by decide)
  have sides : t.inputs = [.back, .front] := inputs.trans (by decide)
  refine ⟨reachable, acyclic, t, ok, sides, ?_⟩
  rw [sides]
  decide

end Netlist

end TorchLogic
