import Mathlib.Data.List.Basic
import Mathlib.Data.List.Induction
import TorchLogic.TruthTable.Basic

/-!
# Reading signals and tables

Signals made from a list of entries hold what the list says of each side
(`Signals.get_ofEntries_of_mem`). A table looks up a row by the number whose bits are the states of
its inputs (`TruthTable.testBit_rowOf`), and what it computes for an output is that row of the
column of the output (`TruthTable.get_apply`). What it is made from is what it has
(`TruthTable.ofColumns_eq_ok_iff`).
-/

namespace TorchLogic

namespace Signals

variable {entries : List (Side × Bool)} {side : Side} {state : Bool}

theorem get_ofEntries_concat (entries : List (Side × Bool)) (last : Side × Bool) (side : Side) :
    (ofEntries (entries ++ [last])).get side =
      if last.1 = side then last.2 else (ofEntries entries).get side := by
  rw [ofEntries, List.foldl_concat, get_set, ofEntries]

/-- **A side holds what the entries say of it**, if they say one thing. -/
theorem get_ofEntries_of_mem (mem : (side, state) ∈ entries)
    (only : ∀ other, (side, other) ∈ entries → other = state) :
    (ofEntries entries).get side = state := by
  -- From the end, because the last entry for a side counts.
  induction entries using List.reverseRecOn with
  | nil => cases mem
  | append_singleton entries last ih =>
    rw [get_ofEntries_concat]
    split
    case isTrue eq =>
      refine only last.2 (List.mem_append_right _ (List.mem_singleton.2 ?_))
      rw [← eq]
    -- The last entry is for another side.
    case isFalse ne =>
      have earlier : (side, state) ∈ entries := by
        rcases List.mem_append.1 mem with old | new
        · exact old
        · rw [← List.mem_singleton.1 new] at ne
          exact absurd rfl ne
      exact ih earlier fun other mem => only other (List.mem_append_left _ mem)

/-- A side of which the entries say nothing is off. -/
theorem get_ofEntries_of_not_mem (none : ∀ state, (side, state) ∉ entries) :
    (ofEntries entries).get side = false := by
  induction entries using List.reverseRecOn with
  | nil => exact get_off side
  | append_singleton entries last ih =>
    rw [get_ofEntries_concat, if_neg]
    · exact ih fun state mem => none state (List.mem_append_left _ mem)
    · intro eq
      refine none last.2 (List.mem_append_right _ (List.mem_singleton.2 ?_))
      rw [← eq]

end Signals

namespace TruthTable

/-- **Bit `j` of a row number is the state of the `j`-th side.** -/
theorem testBit_rowOf (signals : Signals) (sides : List Side) (j : Nat) :
    (rowOf signals sides).testBit j = sides[j]?.any signals.get := by
  induction sides generalizing j with
  | nil => simp [rowOf]
  | cons side rest ih =>
    cases j with
    | zero => cases h : signals.get side <;> simp [rowOf, h, Nat.testBit_zero]
    | succ j =>
      -- The state of the head is the lowest bit, and the other sides are counted from there.
      have half : ((signals.get side).toNat + 2 * rowOf signals rest) / 2 = rowOf signals rest := by
        have := Bool.toNat_le (signals.get side)
        omega
      rw [rowOf, Nat.testBit_succ, half, ih, List.getElem?_cons_succ]

theorem rowOf_lt (signals : Signals) (sides : List Side) :
    rowOf signals sides < assignmentCount sides.length := by
  induction sides with
  | nil => exact Nat.one_pos
  | cons side rest ih =>
    have := Bool.toNat_le (signals.get side)
    have double : assignmentCount (rest.length + 1) = 2 * assignmentCount rest.length := by
      rw [assignmentCount, Nat.pow_eq, Nat.pow_succ, Nat.mul_comm]
      rfl
    rw [rowOf, List.length_cons, double]
    omega

/-! ### Building a table -/

section Build

variable {inputs outputs : List Side} {columns : List Column} {t : TruthTable}

/-- **Three lists make a table exactly if there is one** that has them. -/
theorem ofColumns_eq_ok_iff : ofColumns inputs outputs columns = .ok t ↔
    t.inputs = inputs ∧ t.outputs = outputs ∧ t.columns = columns := by
  constructor
  · -- each check that fails is an error of its own
    intro ok
    unfold ofColumns at ok
    split at ok
    · cases ok
    · split at ok
      · split at ok
        · cases ok
        · cases ok
          exact ⟨rfl, rfl, rfl⟩
      · cases ok
  -- The lists of a table pass every check.
  · rintro ⟨rfl, rfl, rfl⟩
    have sides : sideFault? t.inputs t.outputs = none := sideFault?_eq_none_iff.2 t.sides_nodup
    have widths : widthFault? (assignmentCount t.inputs.length) 0 t.columns = none :=
      widthFault?_eq_none_iff.2 t.columns_fit
    unfold ofColumns
    split
    case h_1 fault found =>
      rw [sides] at found
      cases found
    case h_2 =>
      rw [dif_pos t.columns_length]
      split
      case h_1 fault found =>
        rw [widths] at found
        cases found
      case h_2 => rfl

/-- What is wrong with the sides is reported, whatever the columns are. -/
theorem ofColumns_eq_error {fault : TableError} (found : sideFault? inputs outputs = some fault) :
    ofColumns inputs outputs columns = .error fault := by
  unfold ofColumns
  split
  case h_1 fault' found' =>
    rw [found] at found'
    exact congrArg Except.error (Option.some.inj found').symm
  case h_2 none =>
    rw [found] at none
    cases none

/-- Checking the sides beforehand keeps no table out. -/
theorem sideFault?_of_ofColumns_eq_ok (ok : ofColumns inputs outputs columns = .ok t) :
    sideFault? inputs outputs = none := by
  obtain ⟨rfl, rfl, -⟩ := ofColumns_eq_ok_iff.1 ok
  exact sideFault?_eq_none_iff.2 t.sides_nodup

/-- Distinct sides and short columns make a table. -/
theorem exists_ofColumns_eq_ok (nodup : (inputs ++ outputs).Nodup)
    (count : columns.length = outputs.length)
    (fit : ∀ c ∈ columns, c.bitLength ≤ assignmentCount inputs.length) :
    ∃ t, ofColumns inputs outputs columns = .ok t ∧ t.inputs = inputs ∧ t.outputs = outputs ∧
      t.columns = columns :=
  ⟨⟨inputs, outputs, columns, nodup, count, fit⟩, ofColumns_eq_ok_iff.2 ⟨rfl, rfl, rfl⟩,
    rfl, rfl, rfl⟩

/-- A column has room for every row that distinct inputs have. -/
theorem assignmentCount_le_height (nodup : inputs.Nodup) :
    assignmentCount inputs.length ≤ Column.height :=
  Nat.pow_le_pow_right (by decide) (length_le_of_nodup nodup)

/-- **A column that is filled row by row** holds what was put into the row of some signals. -/
theorem get_ofFn_rowOf (nodup : inputs.Nodup) (f : Nat → Bool) (signals : Signals) :
    (Column.ofFn (assignmentCount inputs.length) f).get (rowOf signals inputs) =
      f (rowOf signals inputs) := by
  have inside : rowOf signals inputs < assignmentCount inputs.length := rowOf_lt signals inputs
  have low : rowOf signals inputs < Column.height :=
    Nat.lt_of_lt_of_le inside (assignmentCount_le_height nodup)
  rw [Column.get_ofFn, decide_eq_true ⟨inside, low⟩, Bool.true_and]

end Build

/-! ### Reading a table -/

/-- **An output takes its state from its column.** -/
theorem get_apply {t : TruthTable} (signals : Signals) {k : Nat} {side : Side} {c : Column}
    (output : t.outputs[k]? = some side) (column : t.columns[k]? = some c) :
    (t.apply signals).get side = c.get (t.row signals) := by
  -- Entry `i` pairs the side of output `i` with the row of column `i`.
  have entry (i : Nat) (state : Bool) :
      (t.outputs.zip (t.outputsAt (t.row signals)))[i]? = some (side, state) ↔
        t.outputs[i]? = some side ∧ (t.columns[i]?).map (·.get (t.row signals)) = some state := by
    rw [List.getElem?_zip_eq_some, outputsAt, List.getElem?_map]
  refine Signals.get_ofEntries_of_mem (List.mem_of_getElem? ((entry k _).2 ⟨output, ?_⟩)) ?_
  · rw [column, Option.map_some]
  · intro other mem
    obtain ⟨i, found⟩ := List.getElem?_of_mem mem
    obtain ⟨again, state⟩ := (entry i other).1 found
    -- No other output is on this side.
    obtain rfl : i = k := place_unique t.outputs_nodup again output
    rw [column, Option.map_some, Option.some.injEq] at state
    exact state.symm

/-- A side without an output is off. -/
theorem get_apply_of_not_mem {t : TruthTable} (signals : Signals) {side : Side}
    (none : side ∉ t.outputs) : (t.apply signals).get side = false :=
  Signals.get_ofEntries_of_not_mem fun _ mem => none (List.of_mem_zip mem).1

/-- **A table with changed columns** does for some signals what the old one does for others, if each
changed column has in its row of the ones what the old column has in its row of the others. -/
theorem apply_eq_of_map_columns {t u : TruthTable} {f : Column → Column}
    {signals signals' : Signals}
    (outputs : u.outputs = t.outputs) (columns : u.columns = t.columns.map f)
    (same : ∀ c, (f c).get (u.row signals) = c.get (t.row signals')) :
    u.apply signals = t.apply signals' := by
  have states : u.outputsAt (u.row signals) = t.outputsAt (t.row signals') := by
    rw [outputsAt, outputsAt, columns, List.map_map]
    exact List.map_congr_left fun c _ => same c
  rw [apply, apply, outputs, states]

end TruthTable

end TorchLogic
