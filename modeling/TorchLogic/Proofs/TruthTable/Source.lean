import TorchLogic.Netlist.Evaluate
import TorchLogic.Proofs.Fallible
import TorchLogic.Proofs.TruthTable.Record
import TorchLogic.Proofs.TruthTable.Tabulate
import TorchLogic.TruthTable.Shape

/-!
# Where tables come from

There are six ways to a table: the blank one, three lists, functions, a single function, a record,
and a netlist (`TruthTable.Source`). Each of them comes to three lists before anything is checked
(`TruthTable.Source.toLists`), and what it builds has these very lists
(`TruthTable.Source.lists_of_build`). So whatever has been built, its lists make a table
(`TruthTable.IsTable`): four distinct sides at most, one column for each output, and nothing on past
the last row. Three lists that make a table are accepted, and no others
(`TruthTable.exists_ofColumns_iff`).

The price of a table rests on this. Dust is counted by taking the rows that are on from the number
of all rows, which needs that no more rows are on than there are (`TruthTable.torches_le`).
-/

namespace TorchLogic

variable {t : TruthTable}

namespace TruthTable

variable {inputs outputs : List Side} {columns : List Column}

/-- **Three lists that make a table.** -/
structure IsTable (inputs outputs : List Side) (columns : List Column) : Prop where
  few : inputs.length + outputs.length ≤ 4
  /-- No side is listed twice, be it as an input, as an output, or as both. -/
  distinct : (inputs ++ outputs).Nodup
  count : columns.length = outputs.length
  /-- Nothing is on past the last row. -/
  off : ∀ c ∈ columns, ∀ row, assignmentCount inputs.length ≤ row → c.get row = false

theorem isTable (t : TruthTable) : IsTable t.inputs t.outputs t.columns where
  few := by
    rw [← List.length_append]
    exact length_le_of_nodup t.sides_nodup
  distinct := t.sides_nodup
  count := t.columns_length
  off := fun c mem => (c.bitLength_le_iff _).1 (t.columns_fit c mem)

/-- **Three lists are accepted exactly if they make a table.** -/
theorem exists_ofColumns_iff : (∃ t, ofColumns inputs outputs columns = .ok t) ↔
    IsTable inputs outputs columns := by
  constructor
  · rintro ⟨t, ok⟩
    obtain ⟨rfl, rfl, rfl⟩ := ofColumns_eq_ok_iff.1 ok
    exact t.isTable
  · intro h
    have fit : ∀ c ∈ columns, c.bitLength ≤ assignmentCount inputs.length := fun c mem =>
      (c.bitLength_le_iff _).2 (h.off c mem)
    obtain ⟨t, ok, -⟩ := exists_ofColumns_eq_ok h.distinct h.count fit
    exact ⟨t, ok⟩

/-! ### The price of a table -/

/-- In columns that are short enough, no more rows are on than there are. -/
theorem foldr_ones_le {rows : Nat} (fit : ∀ c ∈ columns, c.bitLength ≤ rows) :
    columns.foldr (fun c n => c.ones + n) 0 ≤ rows * columns.length := by
  induction columns with
  | nil => exact Nat.zero_le _
  | cons c rest ih =>
    have first : c.ones ≤ rows := Column.ones_le (fit c List.mem_cons_self)
    have others := ih fun d mem => fit d (List.mem_cons_of_mem _ mem)
    rw [List.foldr_cons, List.length_cons, Nat.mul_succ]
    omega

/-- There is no more than one torch for each row of each output. -/
theorem torches_le (t : TruthTable) :
    t.cost.torches ≤ assignmentCount t.inputs.length * t.outputs.length := by
  rw [← t.columns_length]
  exact foldr_ones_le t.columns_fit

/-- **One piece of dust or one torch** for each row of each output. -/
theorem dust_add_torches (t : TruthTable) :
    t.cost.dust + t.cost.torches = assignmentCount t.inputs.length * t.outputs.length := by
  have enough := t.torches_le
  rw [← t.columns_length] at enough ⊢
  exact Nat.sub_add_cancel enough

/-! ### The ways to a table -/

/-- **What a table is built from.** -/
inductive Source
  /-- The table of a blank circuit. -/
  | blank
  | lists (inputs outputs : List Side) (columns : List Column)
  | functions (inputs outputs : List Side) (fs : List (List Bool → Bool))
  | function (inputs : List Side) (output : Side) (f : List Bool → Bool)
  | record (r : Record)
  | netlist (g : Netlist .reduced)

namespace Source

/-- **The table that is built.** -/
def build : Source → Except NetlistError TruthTable
  | blank => .ok empty
  | lists inputs outputs columns => (ofColumns inputs outputs columns).mapError .table
  | functions inputs outputs fs => (ofFunctions inputs outputs fs).mapError .table
  | function inputs output f => (ofFunction inputs output f).mapError .table
  | record r => r.table.mapError .table
  | netlist g => g.truthTable

/-- **The three lists that a source comes to**, before anything is checked. -/
def toLists : Source → Except NetlistError (List Side × List Side × List Column)
  | blank => .ok ([], [], [])
  | lists inputs outputs columns => .ok (inputs, outputs, columns)
  | functions inputs outputs fs => .ok (inputs, outputs, fs.map (tabulate inputs.length))
  | function inputs output f => .ok (inputs, [output], [tabulate inputs.length f])
  | record r => .ok (r.inputs, r.outputs, r.rows.map Column.ofRows)
  | netlist g => do
    let inputs ← g.inputs.mapM g.northSide
    let outputs ← g.outputs.mapM g.northSide
    let columns ← g.outputs.mapM g.column
    .ok (inputs, outputs, columns)

end Source

end TruthTable

/-- A netlist that has a table has sides and columns, and these make the table. -/
theorem Netlist.lists_of_truthTable {g : Netlist .reduced} (ok : g.truthTable = .ok t) :
    ∃ inputs outputs columns, g.inputs.mapM g.northSide = .ok inputs ∧
      g.outputs.mapM g.northSide = .ok outputs ∧ g.outputs.mapM g.column = .ok columns ∧
      TruthTable.ofColumns inputs outputs columns = .ok t := by
  rw [truthTable] at ok
  split at ok
  · -- each of the lists is found before the table is made of them
    obtain ⟨inputs, ins, ok⟩ := of_bind_eq_ok ok
    obtain ⟨outputs, outs, ok⟩ := of_bind_eq_ok ok
    split at ok
    · cases ok
    · obtain ⟨columns, cols, ok⟩ := of_bind_eq_ok ok
      exact ⟨inputs, outputs, columns, ins, outs, cols, of_mapError_eq_ok ok⟩
  · cases ok

namespace TruthTable

/-- **What is built has the lists that the source comes to.** -/
theorem Source.lists_of_build {source : Source} (built : source.build = .ok t) :
    source.toLists = .ok (t.inputs, t.outputs, t.columns) := by
  cases source with
  | blank =>
    cases built
    rfl
  | lists inputs outputs columns =>
    obtain ⟨rfl, rfl, rfl⟩ := ofColumns_eq_ok_iff.1 (of_mapError_eq_ok built)
    rfl
  | functions inputs outputs fs =>
    -- the columns are tabulated
    obtain ⟨rfl, rfl, columns⟩ := ofFunctions_eq_ok_iff.1 (of_mapError_eq_ok built)
    rw [columns]
    rfl
  | function inputs output f =>
    obtain ⟨rfl, outputs, columns⟩ := ofFunctions_eq_ok_iff.1 (of_mapError_eq_ok built)
    rw [outputs, columns]
    rfl
  | record r =>
    obtain ⟨-, inputs, outputs, columns⟩ := Record.table_eq_ok_iff.1 (of_mapError_eq_ok built)
    rw [inputs, outputs, columns]
    rfl
  | netlist g =>
    -- the lists are those that evaluation has found
    obtain ⟨inputs, outputs, columns, ins, outs, cols, ok⟩ := Netlist.lists_of_truthTable built
    obtain ⟨rfl, rfl, rfl⟩ := ofColumns_eq_ok_iff.1 ok
    rw [toLists, ins, outs, cols]
    rfl

/-! ### Everything that is built -/

/-- **Whatever has been built is a table.** It has the lists that its source comes to, these make a
table, and its price is counted without going below zero: one piece of casing, and one piece of dust
or one torch for each row of each output. And three lists are accepted exactly if they make a table.
-/
theorem isTable_of_built :
    (∀ (source : Source) (t : TruthTable), source.build = .ok t →
      source.toLists = .ok (t.inputs, t.outputs, t.columns) ∧ IsTable t.inputs t.outputs t.columns ∧
      t.cost.torches ≤ assignmentCount t.inputs.length * t.outputs.length ∧
      t.cost.dust + t.cost.torches = assignmentCount t.inputs.length * t.outputs.length ∧
      t.cost.terracotta = 1) ∧
    ∀ (inputs outputs : List Side) (columns : List Column),
      (∃ t, ofColumns inputs outputs columns = .ok t) ↔ IsTable inputs outputs columns := by
  refine ⟨fun source t built => ?_, fun inputs outputs columns => exists_ofColumns_iff⟩
  exact ⟨Source.lists_of_build built, t.isTable, t.torches_le, t.dust_add_torches, rfl⟩

/-- The record of a half adder. -/
def halfAdder : Record :=
  ⟨[.right, .left], [.front, .back], [[false, true, true, false], [false, false, false, true]]⟩

theorem isTable_of_built_halfAdder : ∃ t, (Source.record halfAdder).build = .ok t ∧
    IsTable t.inputs t.outputs t.columns ∧ t.cost.torches ≤ 8 ∧
      t.cost.dust + t.cost.torches = 8 := by
  have shaped : halfAdder.WellShaped := ⟨by decide, by decide, rfl, by decide⟩
  obtain ⟨t, ok⟩ := Record.exists_table_iff.2 shaped
  have built : (Source.record halfAdder).build = .ok t := congrArg (Except.mapError .table) ok
  obtain ⟨lists, isTable, enough, all, -⟩ := isTable_of_built.1 (.record halfAdder) t built
  obtain ⟨inputs, outputs, -⟩ := Record.table_eq_ok_iff.1 ok |>.2
  rw [inputs, outputs] at enough all
  exact ⟨t, built, isTable, enough, all⟩

end TruthTable

end TorchLogic
