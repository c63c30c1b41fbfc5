import TorchLogic.Document.Reading
import TorchLogic.Proofs.Document.Format
import TorchLogic.Proofs.TruthTable.Record

/-!
# Reading what is written

What each value of the library is read from, said once for every data format: an equation that tells
when a value is read in terms of the values that it is made of (`Datum.position?_eq_some_iff`,
`Datum.record?_eq_some_iff`, `Datum.placement?_eq_some_iff`, `Datum.layout?_eq_some_iff`). Nobody
has to look into a reader after that.

A table is read through its record, and as records are an exact code for tables, a table is read
exactly from what its own record is read from (`Datum.table?_eq_some_iff`). No table comes from a
record in another shape.

In a format that keeps its promises each value is read back from what is written of it, with one
restriction: numbers are read within bounds, so what holds a number that is out of bounds is not
read back (`Datum.position?_write_iff`, `Datum.placement?_write_iff`).
-/

namespace TorchLogic

/-- What is read from a list is read from one of its items. -/
theorem mem_iff_of_map_eq {α β : Type} {read? : α → Option β} {items : List α} {values : List β}
    (all : items.map read? = values.map some) {value : β} :
    value ∈ values ↔ ∃ item ∈ items, read? item = some value := by
  rw [← List.mem_map, all, List.mem_map]
  simp

namespace Datum

section Reading

variable {α β : Type} [Datum α] {v : α}

/-! ### Numbers -/

/-- A place in a layout is a number of 64 bits. -/
theorem index?_eq_some_iff (lawful : Lawful α) {n : Nat} :
    index? v = some n ↔ integer? v = some (n : Int) ∧ n < 18446744073709551616 := by
  rw [index?, Option.map_eq_some_iff]
  constructor
  · rintro ⟨m, read, rfl⟩
    obtain ⟨whole, low, high⟩ := lawful.bounded?_eq_some_iff.1 read
    rw [Int.toNat_of_nonneg low]
    exact ⟨whole, by omega⟩
  · rintro ⟨whole, small⟩
    have high : (n : Int) < 18446744073709551616 := by omega
    have inside := lawful.bounded?_eq_some_iff.2 ⟨whole, Int.natCast_nonneg n, high⟩
    exact ⟨n, inside, Int.toNat_natCast n⟩

theorem position?_eq_some_iff {p : Position} : position? v = some p ↔
    ∃ x y z, tuple? 3 v = some [x, y, z] ∧ coordinate? x = some p.x ∧ coordinate? y = some p.y ∧
      coordinate? z = some p.z := by
  constructor
  · -- reading takes one step for each item, and each has to succeed
    intro read
    obtain ⟨items, three, read⟩ := Option.bind_eq_some_iff.1 read
    split at read
    case h_1 x y z =>
      obtain ⟨px, hx, read⟩ := Option.bind_eq_some_iff.1 read
      obtain ⟨py, hy, read⟩ := Option.bind_eq_some_iff.1 read
      obtain ⟨pz, hz, read⟩ := Option.bind_eq_some_iff.1 read
      cases read
      exact ⟨x, y, z, three, hx, hy, hz⟩
    case h_2 => cases read
  · rintro ⟨x, y, z, three, hx, hy, hz⟩
    simp only [position?, three, hx, hy, hz, Option.bind_eq_bind, Option.bind_some]

/-! ### Tables -/

theorem record?_eq_some_iff {r : TruthTable.Record} : record? v = some r ↔
    ∃ inputs outputs rows,
      fields ["inputs", "outputs", "mappings"] v = some [some inputs, some outputs, some rows] ∧
      listOf? side? inputs = some r.inputs ∧ listOf? side? outputs = some r.outputs ∧
      listOf? (listOf? boolean?) rows = some r.rows := by
  constructor
  · intro read
    obtain ⟨values, written, read⟩ := Option.bind_eq_some_iff.1 read
    split at read
    case h_1 inputs outputs rows =>
      obtain ⟨ins, hins, read⟩ := Option.bind_eq_some_iff.1 read
      obtain ⟨outs, houts, read⟩ := Option.bind_eq_some_iff.1 read
      obtain ⟨lists, hlists, read⟩ := Option.bind_eq_some_iff.1 read
      cases read
      exact ⟨inputs, outputs, rows, written, hins, houts, hlists⟩
    case h_2 => cases read
  · rintro ⟨inputs, outputs, rows, written, hins, houts, hlists⟩
    simp only [record?, written, hins, houts, hlists, Option.bind_eq_bind, Option.bind_some]

/-- **A table is read exactly from what its record is read from.** -/
theorem table?_eq_some_iff {t : TruthTable} : table? v = some t ↔ record? v = some t.record := by
  have accepted (r : TruthTable.Record) : r.table.toOption = some t ↔ r = t.record := by
    rw [eq_comm (a := r), ← TruthTable.Record.table_eq_ok_iff_record_eq]
    cases r.table with
    | error e => exact ⟨nofun, nofun⟩
    | ok u => simp [Except.toOption]
  rw [table?, Option.bind_eq_bind, Option.bind_eq_some_iff]
  constructor
  · rintro ⟨r, read, table⟩
    rw [read, (accepted r).1 table]
  · intro read
    exact ⟨t.record, read, (accepted t.record).2 rfl⟩

/-! ### Nested circuits -/

theorem placement?_eq_some_iff {p : Placement} : placement? v = some p ↔
    ∃ layer row column facing table,
      fields ["layer", "row", "column", "facing", "table"] v =
        some [some layer, some row, some column, some facing, some table] ∧
      index? layer = some p.cell.layer ∧ index? row = some p.cell.row ∧
      index? column = some p.cell.column ∧ facing? facing = some p.facing ∧
      record? table = some p.table.record := by
  constructor
  · intro read
    obtain ⟨values, written, read⟩ := Option.bind_eq_some_iff.1 read
    split at read
    case h_1 layer row column facing table =>
      obtain ⟨l, hl, read⟩ := Option.bind_eq_some_iff.1 read
      obtain ⟨r, hr, read⟩ := Option.bind_eq_some_iff.1 read
      obtain ⟨c, hc, read⟩ := Option.bind_eq_some_iff.1 read
      obtain ⟨f, hf, read⟩ := Option.bind_eq_some_iff.1 read
      obtain ⟨t, ht, read⟩ := Option.bind_eq_some_iff.1 read
      cases read
      exact ⟨layer, row, column, facing, table, written, hl, hr, hc, hf, table?_eq_some_iff.1 ht⟩
    case h_2 => cases read
  · rintro ⟨layer, row, column, facing, table, written, hl, hr, hc, hf, ht⟩
    simp only [placement?, written, hl, hr, hc, hf, table?_eq_some_iff.2 ht, Option.bind_eq_bind,
      Option.bind_some]

/-! ### Layouts -/

theorem layout?_eq_some_iff {l : Layout} : layout? v = some l ↔
    ∃ origin sockets layers circuits,
      fields ["origin", "sockets", "layers", "circuits"] v =
        some [origin, sockets, layers, circuits] ∧
      orDefault? ⟨0, 0, 0⟩ position? origin = some l.origin ∧
      orDefault? (fun _ => none) sockets? sockets = some l.sockets ∧
      orDefault? [] (listOf? (listOf? text?)) layers = some l.layers ∧
      orDefault? [] (listOf? placement?) circuits = some l.circuits := by
  constructor
  · -- a field that is left out has its default, so only the four results are known
    intro read
    obtain ⟨values, written, read⟩ := Option.bind_eq_some_iff.1 read
    split at read
    case h_1 origin sockets layers circuits =>
      obtain ⟨o, ho, read⟩ := Option.bind_eq_some_iff.1 read
      obtain ⟨s, hs, read⟩ := Option.bind_eq_some_iff.1 read
      obtain ⟨ls, hl, read⟩ := Option.bind_eq_some_iff.1 read
      obtain ⟨cs, hc, read⟩ := Option.bind_eq_some_iff.1 read
      cases read
      exact ⟨origin, sockets, layers, circuits, written, ho, hs, hl, hc⟩
    case h_2 => cases read
  · rintro ⟨origin, sockets, layers, circuits, written, ho, hs, hl, hc⟩
    simp only [layout?, written, ho, hs, hl, hc, Option.bind_eq_bind, Option.bind_some]

end Reading

/-! ### What is written -/

section Writing

variable {α β : Type} [Datum α] [Writer α] (lawful : Lawful α) (back : ReadsBack α)

section Names

include back

theorem facing?_write (f : Facing) : facing? (f.write : α) = some f := by
  rw [facing?, named?, Facing.write, back.choice]
  cases f <;> rfl

theorem side?_write (s : Side) : side? (s.write : α) = some s := by
  rw [side?, named?, Side.write, back.choice]
  cases s <;> rfl

theorem role?_write (r : SocketRole) : role? (r.write : α) = some r := by
  rw [role?, named?, SocketRole.write, back.choice]
  cases r <;> rfl

/-- Fields are read back by their names. -/
theorem fields_record (written : List (String × α)) (names : List String)
    (named : written.map Prod.fst = names) (nodup : names.Nodup) :
    fields names (Writer.record written) = some (written.map fun e => some e.2) := by
  subst named
  exact back.record written nodup

end Names

include lawful back

/-- **A list is read back** exactly if each of its items is. -/
theorem listOf?_write_iff {write : β → α} {read? : α → Option β} {values : List β} :
    listOf? read? (Writer.listOf write values) = some values ↔
      ∀ x ∈ values, read? (write x) = some x := by
  rw [lawful.listOf?_eq_some_iff, back.listOf]
  constructor
  · -- what is written for each value is what is read
    rintro ⟨items, written, all⟩ x mem
    cases written
    rw [List.map_map, List.map_inj_left] at all
    exact all x mem
  · intro each
    refine ⟨_, rfl, ?_⟩
    rw [List.map_map, List.map_inj_left]
    exact each

theorem coordinate?_write_iff {n : Int} :
    coordinate? (Writer.integer n : α) = some n ↔ -2147483648 ≤ n ∧ n < 2147483648 :=
  lawful.bounded?_eq_some_iff.trans (and_iff_right (back.integer n))

theorem index?_natural_iff {n : Nat} :
    index? (natural n : α) = some n ↔ n < 18446744073709551616 :=
  (index?_eq_some_iff lawful).trans (and_iff_right (back.integer n))

/-- **A position is read back** exactly if its coordinates have 32 bits. -/
theorem position?_write_iff {p : Position} : position? (p.write : α) = some p ↔
    (-2147483648 ≤ p.x ∧ p.x < 2147483648) ∧ (-2147483648 ≤ p.y ∧ p.y < 2147483648) ∧
      -2147483648 ≤ p.z ∧ p.z < 2147483648 := by
  have three : tuple? 3 (p.write : α) =
      some [Writer.integer p.x, Writer.integer p.y, Writer.integer p.z] :=
    back.tuple [Writer.integer p.x, Writer.integer p.y, Writer.integer p.z]
  rw [← coordinate?_write_iff lawful back, ← coordinate?_write_iff lawful back,
    ← coordinate?_write_iff lawful back, position?_eq_some_iff, three]
  constructor
  · rintro ⟨x, y, z, written, hx, hy, hz⟩
    cases written
    exact ⟨hx, hy, hz⟩
  · rintro ⟨hx, hy, hz⟩
    exact ⟨_, _, _, rfl, hx, hy, hz⟩

/-- **Every record is read back**, whether or not it is one of a table. -/
theorem record?_write (r : TruthTable.Record) : record? (r.write : α) = some r := by
  refine record?_eq_some_iff.2 ⟨_, _, _, fields_record back _ _ rfl (by decide), ?_, ?_, ?_⟩
  · exact (listOf?_write_iff lawful back).2 fun s _ => side?_write back s
  · exact (listOf?_write_iff lawful back).2 fun s _ => side?_write back s
  · -- a list of rows is a list of lists of truth values
    refine (listOf?_write_iff lawful back).2 fun row _ => ?_
    exact (listOf?_write_iff lawful back).2 fun b _ => back.boolean b

/-- **A nested circuit is read back** exactly if its place has numbers of 64 bits. -/
theorem placement?_write_iff {p : Placement} : placement? (p.write : α) = some p ↔
    p.cell.layer < 18446744073709551616 ∧ p.cell.row < 18446744073709551616 ∧
      p.cell.column < 18446744073709551616 := by
  have five := fields_record back [("layer", natural p.cell.layer), ("row", natural p.cell.row),
    ("column", natural p.cell.column), ("facing", p.facing.write), ("table", p.table.write)]
    ["layer", "row", "column", "facing", "table"] rfl (by decide)
  rw [← index?_natural_iff lawful back, ← index?_natural_iff lawful back,
    ← index?_natural_iff lawful back, placement?_eq_some_iff, Placement.write]
  constructor
  · rintro ⟨layer, row, column, facing, table, written, hl, hr, hc, -, -⟩
    cases five.symm.trans written
    exact ⟨hl, hr, hc⟩
  · rintro ⟨hl, hr, hc⟩
    refine ⟨_, _, _, _, _, five, hl, hr, hc, facing?_write back p.facing, ?_⟩
    exact record?_write lawful back p.table.record

end Writing

example : position? (Position.json ⟨2147483647, 0, -2147483648⟩) =
    some ⟨2147483647, 0, -2147483648⟩ := rfl
example : position? (Position.json ⟨2147483648, 0, 0⟩) = none := rfl

end Datum

end TorchLogic
