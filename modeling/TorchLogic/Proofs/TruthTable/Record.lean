import TorchLogic.Proofs.TruthTable.Apply
import TorchLogic.TruthTable.Record

/-!
# Records are an exact code

Every table is read back from its record, and a record that is read at all is the record of the
table that comes out (`TruthTable.Record.table_eq_ok_iff_record_eq`). So nothing is lost in writing,
and nothing is made up in reading. The records that are read are those with the shape of a table
(`TruthTable.Record.WellShaped`): distinct sides, one list for each output, and one row for each
assignment of the inputs in each list.

A record is checked twice. The sides and the lengths of the lists are checked before the lists are
made into columns, because a column is cut off after its sixteenth row and filled up with rows that
are off, so a list of the wrong length could not be told any more. The lists are then checked again
as a table, where only their number is left to be wrong.
-/

namespace TorchLogic.TruthTable

variable {t : TruthTable}

theorem rowCountFault?_eq_none_iff {rows index : Nat} {lists : List (List Bool)} :
    rowCountFault? rows index lists = none ↔ ∀ column ∈ lists, column.length = rows := by
  induction lists generalizing index with
  | nil => simp [rowCountFault?]
  | cons column rest ih =>
    rw [rowCountFault?, List.forall_mem_cons]
    split
    case isTrue other =>
      exact ⟨nofun, fun all => absurd all.1 other⟩
    case isFalse same =>
      rw [ih]
      exact ⟨fun all => ⟨Decidable.of_not_not same, all⟩, fun all => all.2⟩

namespace Record

variable {r : Record}

/-- **The shape of a table**: four sides at most, all distinct, one list of rows for each output,
and one row for each assignment of the inputs in each list. -/
structure WellShaped (r : Record) : Prop where
  few : r.inputs.length + r.outputs.length ≤ 4
  distinct : (r.inputs ++ r.outputs).Nodup
  count : r.rows.length = r.outputs.length
  heights : ∀ column ∈ r.rows, column.length = assignmentCount r.inputs.length

/-- The table that is read has the sides of the record, and its lists as columns. -/
theorem table_eq_ok_iff : r.table = .ok t ↔
    (∀ column ∈ r.rows, column.length = assignmentCount r.inputs.length) ∧ t.inputs = r.inputs ∧
      t.outputs = r.outputs ∧ t.columns = r.rows.map Column.ofRows := by
  rw [← ofColumns_eq_ok_iff, table]
  cases sides : sideFault? r.inputs r.outputs with
  | some fault =>
    -- sides that clash
    refine ⟨nofun, fun built => ?_⟩
    rw [sideFault?_of_ofColumns_eq_ok built.2] at sides
    cases sides
  | none =>
    cases heights : rowCountFault? (assignmentCount r.inputs.length) 0 r.rows with
    | some fault =>
      -- a list that is not as long as the table
      refine ⟨nofun, fun built => ?_⟩
      rw [rowCountFault?_eq_none_iff.2 built.1] at heights
      cases heights
    | none =>
      have fits := rowCountFault?_eq_none_iff.1 heights
      exact ⟨fun built => ⟨fits, built⟩, fun built => built.2⟩

/-- **Reading undoes writing, and nothing else is read.** -/
theorem table_eq_ok_iff_record_eq : r.table = .ok t ↔ t.record = r := by
  rw [table_eq_ok_iff]
  constructor
  · rintro ⟨heights, inputs, outputs, columns⟩
    have rows : t.columns.map (·.toRows t.rowCount) = r.rows := by
      rw [columns, List.map_map, List.map_congr_left, List.map_id]
      intro column mem
      have height : column.length = t.rowCount := by rw [rowCount, inputs, heights column mem]
      -- No row was cut off, as there are sixteen assignments at most.
      have room : column.length ≤ Column.height := height ▸ assignmentCount_le_height t.inputs_nodup
      rw [Function.comp_apply, ← height]
      exact Column.toRows_ofRows room
    rw [record, inputs, outputs, rows]
  · -- the columns of a table fit in its rows
    rintro rfl
    have columns : t.columns.map (Column.ofRows ∘ (·.toRows t.rowCount)) = t.columns := by
      rw [List.map_congr_left, List.map_id]
      intro c mem
      exact Column.ofRows_toRows (t.columns_fit c mem)
    refine ⟨fun column mem => ?_, rfl, rfl, ?_⟩
    · obtain ⟨c, -, rfl⟩ := List.mem_map.1 mem
      exact Column.length_toRows c t.rowCount
    · rw [record, List.map_map, columns]

/-- **A record is read exactly if it has the shape of a table.** -/
theorem exists_table_iff : (∃ t, r.table = .ok t) ↔ r.WellShaped := by
  constructor
  · -- what a table has for sides and columns is well shaped
    rintro ⟨t, ok⟩
    obtain ⟨heights, inputs, outputs, columns⟩ := table_eq_ok_iff.1 ok
    have distinct : (r.inputs ++ r.outputs).Nodup := by
      rw [← inputs, ← outputs]
      exact t.sides_nodup
    have few : r.inputs.length + r.outputs.length ≤ 4 := by
      rw [← List.length_append]
      exact length_le_of_nodup distinct
    have count : r.rows.length = r.outputs.length := by
      rw [← outputs, ← t.columns_length, columns, List.length_map]
    exact ⟨few, distinct, count, heights⟩
  · -- each list is one column, of as many rows
    intro shaped
    have count : (r.rows.map Column.ofRows).length = r.outputs.length := by
      rw [List.length_map, shaped.count]
    have fit : ∀ c ∈ r.rows.map Column.ofRows, c.bitLength ≤ assignmentCount r.inputs.length := by
      intro c mem
      obtain ⟨column, listed, rfl⟩ := List.mem_map.1 mem
      rw [← shaped.heights column listed]
      exact Column.bitLength_ofRows_le column
    obtain ⟨t, -, lists⟩ := exists_ofColumns_eq_ok shaped.distinct count fit
    exact ⟨t, table_eq_ok_iff.2 ⟨shaped.heights, lists⟩⟩

/-- **Records are an exact code for tables.** Each table is read back from its record; the records
that are read are those with the shape of a table, and what is read from one is the table whose
record it is. -/
theorem code_exact : (∀ t : TruthTable, t.record.table = .ok t) ∧
    ∀ r : Record, ((∃ t, r.table = .ok t) ↔ r.WellShaped) ∧
      ∀ t, r.table = .ok t ↔ t.record = r := by
  refine ⟨fun t => ?_, fun r => ⟨exists_table_iff, fun t => table_eq_ok_iff_record_eq⟩⟩
  exact table_eq_ok_iff_record_eq.2 rfl

end Record

end TorchLogic.TruthTable
