import Mathlib.Data.Set.List
import TorchLogic.Proofs.Document.Reading
import TorchLogic.Proofs.Layout.Limits

/-!
# Layouts in documents

In a format that keeps its promises a layout is read back from what is written of it, as long as its
numbers are those that a layout may have: the corner has coordinates of 32 bits, and the places of
its nested circuits are numbers of 64 bits (`Layout.Representable`). The sides that have a role are
written as the entries of a map, each of them once. So whatever order they come back in, the last
entry for a side is the only one (`Datum.find?_entries`).

The other way round, a layout that is read at all, from whatever value, is representable. Its tables
come from the records that are written in the value, each through the check that a record has the
shape of a table, so no record in another shape is in a value that is read
(`Datum.listsRecord_iff`). Both directions together are `Layout.read_exact`. What it asks of a
format is known of JSON (`Json.lawful`, `Json.readsBack`).
-/

namespace TorchLogic

open Datum Layout

/-! ### Sockets -/

namespace Datum

variable {α : Type} [Datum α] [Writer α] {sockets : Facing → Option SocketRole} {f : Facing}
  {r : SocketRole}

theorem mem_listedSockets_iff : (f, r) ∈ listedSockets sockets ↔ sockets f = some r := by
  rw [listedSockets, List.mem_filterMap]
  constructor
  · rintro ⟨g, -, eq⟩
    obtain ⟨role, listed, pair⟩ := Option.map_eq_some_iff.1 eq
    cases pair
    exact listed
  · intro listed
    exact ⟨f, Facing.mem_all f, by rw [listed]; rfl⟩

/-- No side is listed twice. -/
theorem nodup_listedSockets : ((listedSockets sockets).map fun e => e.1.name).Nodup := by
  have names : (Facing.all.map Facing.name).Nodup := by decide
  rw [listedSockets, List.Nodup, List.pairwise_map, List.pairwise_filterMap]
  refine (List.pairwise_map.1 names).imp fun {f g} ne => ?_
  -- An entry for a side has the name of that side.
  rintro d listed e listed'
  obtain ⟨-, -, rfl⟩ := Option.map_eq_some_iff.1 listed
  obtain ⟨-, -, rfl⟩ := Option.map_eq_some_iff.1 listed'
  exact ne

/-- **The entry that counts for a side** is the one that there is. -/
theorem find?_entries {entries : List (Facing × SocketRole)}
    (listed : ∀ f r, (f, r) ∈ entries ↔ sockets f = some r) (f : Facing) :
    (entries.reverse.find? fun e => e.1 == f).map (·.2) = sockets f := by
  cases found : entries.reverse.find? fun e => e.1 == f with
  | none =>
    cases role : sockets f with
    | none => rfl
    | some r =>
      have mem : (f, r) ∈ entries.reverse := List.mem_reverse.2 ((listed f r).2 role)
      exact absurd (beq_self_eq_true f) (List.find?_eq_none.1 found (f, r) mem)
  | some e =>
    obtain ⟨g, r⟩ := e
    have role : sockets g = some r :=
      (listed g r).1 (List.mem_reverse.1 (List.mem_of_find?_eq_some found))
    have here : g = f := by simpa using List.find?_some found
    rw [← here, role, Option.map_some]

/-- **The roles of the sides are read back.** -/
theorem sockets?_write (lawful : Lawful α) (back : ReadsBack α)
    (sockets : Facing → Option SocketRole) :
    sockets? (Writer.entries Facing.name SocketRole.write (listedSockets sockets) : α) =
      some sockets := by
  obtain ⟨written, shown, perm⟩ :=
    back.entries Facing.name SocketRole.write (listedSockets sockets) nodup_listedSockets
  let reading (e : String × α) : Option Facing × Option SocketRole :=
    (Facing.ofName? e.1, role? e.2)
  let exactly (e : Facing × SocketRole) : Option Facing × Option SocketRole := (some e.1, some e.2)
  -- Each entry that is written is read as the entry that it was written for.
  have each : (written.map reading).Perm ((listedSockets sockets).map exactly) := by
    have read : reading ∘ (fun e => (e.1.name, e.2.write)) = exactly := by
      funext e
      have name : Facing.ofName? e.1.name = some e.1 := by cases e.1 <;> rfl
      exact Prod.ext name (role?_write back e.2)
    rw [← read, ← List.map_map]
    exact perm.map reading
  have readable : written.map reading ∈ Set.range (List.map exactly) := by
    rw [Set.range_list_map]
    intro pair mem
    obtain ⟨e, -, rfl⟩ := List.mem_map.1 (each.mem_iff.1 mem)
    exact ⟨e, rfl⟩
  obtain ⟨found, all⟩ := readable
  have entries := lawful.entries?_eq_some_iff.2 ⟨written, shown, all.symm⟩
  rw [sockets?, entries]
  refine congrArg some (funext (find?_entries fun f r => ?_))
  have inj : Function.Injective exactly := by
    rintro ⟨f, r⟩ ⟨g, s⟩ eq
    cases eq
    rfl
  rw [← mem_listedSockets_iff, ← List.mem_map_of_injective inj, all, each.mem_iff,
    List.mem_map_of_injective inj]

end Datum

/-! ### Numbers -/

namespace Layout

variable {α : Type} [Datum α] [Writer α] {l : Layout}

/-- **Whether a layout can be written down**: its corner has coordinates of 32 bits, and the places
of its nested circuits are numbers of 64 bits. -/
structure Representable (l : Layout) : Prop where
  x : IsWord l.origin.x
  y : IsWord l.origin.y
  z : IsWord l.origin.z
  cells : ∀ p ∈ l.circuits, p.cell.layer < 18446744073709551616 ∧
    p.cell.row < 18446744073709551616 ∧ p.cell.column < 18446744073709551616

/-- **A layout is read back** exactly if it can be written down. -/
theorem layout?_write_iff (lawful : Lawful α) (back : ReadsBack α) :
    layout? (l.write : α) = some l ↔ l.Representable := by
  have four := fields_record back [("origin", l.origin.write),
    ("sockets", Writer.entries Facing.name SocketRole.write (listedSockets l.sockets)),
    ("layers", Writer.listOf (Writer.listOf Writer.text) l.layers),
    ("circuits", Writer.listOf Placement.write l.circuits)]
    ["origin", "sockets", "layers", "circuits"] rfl (by decide)
  rw [layout?_eq_some_iff, Layout.write]
  constructor
  · rintro ⟨origin, sockets, layers, circuits, written, ho, -, -, hc⟩
    cases four.symm.trans written
    obtain ⟨x, y, z⟩ := (position?_write_iff lawful back).1 ho
    refine ⟨x, y, z, fun p mem => (placement?_write_iff lawful back).1 ?_⟩
    exact (listOf?_write_iff lawful back).1 hc p mem
  · intro representable
    -- All four fields are written, so no default is used.
    refine ⟨_, _, _, _, four, ?_, sockets?_write lawful back l.sockets, ?_, ?_⟩
    · exact (position?_write_iff lawful back).2
        ⟨representable.x, representable.y, representable.z⟩
    · refine (listOf?_write_iff lawful back).2 fun rows _ => ?_
      exact (listOf?_write_iff lawful back).2 fun row _ => back.text row
    · refine (listOf?_write_iff lawful back).2 fun p mem => ?_
      exact (placement?_write_iff lawful back).2 (representable.cells p mem)

end Layout

/-! ### Reading any value -/

namespace Datum

variable {α : Type} [Datum α] {v : α} {l : Layout} {r : TruthTable.Record}

/-- **Whether a value lists a nested circuit whose table is written as a record.** -/
def ListsRecord (v : α) (r : TruthTable.Record) : Prop :=
  ∃ origin sockets layers circuits items,
    fields ["origin", "sockets", "layers", "circuits"] v =
      some [origin, sockets, layers, some circuits] ∧
    list? circuits = some items ∧ ∃ item ∈ items, ∃ layer row column facing table,
      fields ["layer", "row", "column", "facing", "table"] item =
        some [layer, row, column, facing, some table] ∧ record? table = some r

variable (lawful : Lawful α)

include lawful

/-- The coordinates of the corner have 32 bits, whether they are written or left out. -/
theorem isWord_of_origin {p : Position} {origin : Option α}
    (read : orDefault? ⟨0, 0, 0⟩ position? origin = some p) :
    IsWord p.x ∧ IsWord p.y ∧ IsWord p.z := by
  cases origin with
  | none =>
    obtain rfl : (⟨0, 0, 0⟩ : Position) = p := Option.some.inj read
    decide
  | some written =>
    obtain ⟨x, y, z, -, hx, hy, hz⟩ := position?_eq_some_iff.1 read
    exact ⟨(lawful.bounded?_eq_some_iff.1 hx).2, (lawful.bounded?_eq_some_iff.1 hy).2,
      (lawful.bounded?_eq_some_iff.1 hz).2⟩

/-- Nested circuits that are read are read from the items of a list, if there are any. -/
theorem items_of_circuits {circuits : Option α} {ps : List Placement}
    (read : orDefault? [] (listOf? placement?) circuits = some ps) :
    circuits = none ∧ ps = [] ∨ ∃ written items, circuits = some written ∧
      list? written = some items ∧ items.map placement? = ps.map some := by
  cases circuits with
  | none => exact .inl ⟨rfl, (Option.some.inj read).symm⟩
  | some written =>
    obtain ⟨items, listed, all⟩ := lawful.listOf?_eq_some_iff.1 read
    exact .inr ⟨written, items, rfl, listed, all⟩

/-- **What is read can be written down.** -/
theorem representable_of_layout? (read : layout? v = some l) : l.Representable := by
  obtain ⟨origin, -, -, circuits, -, corner, -, -, placed⟩ := layout?_eq_some_iff.1 read
  obtain ⟨x, y, z⟩ := isWord_of_origin lawful corner
  refine ⟨x, y, z, fun p mem => ?_⟩
  rcases items_of_circuits lawful placed with ⟨-, none⟩ | ⟨-, items, -, -, all⟩
  · -- the field is left out
    rw [none] at mem
    cases mem
  · obtain ⟨item, -, found⟩ := (mem_iff_of_map_eq all).1 mem
    obtain ⟨_, _, _, _, _, -, hl, hr, hc, -⟩ := placement?_eq_some_iff.1 found
    exact ⟨((index?_eq_some_iff lawful).1 hl).2, ((index?_eq_some_iff lawful).1 hr).2,
      ((index?_eq_some_iff lawful).1 hc).2⟩

/-- **The records in a value that is read** are those of the tables that come out. -/
theorem listsRecord_iff (read : layout? v = some l) :
    ListsRecord v r ↔ ∃ p ∈ l.circuits, p.table.record = r := by
  obtain ⟨origin, sockets, layers, circuits, written, -, -, -, placed⟩ :=
    layout?_eq_some_iff.1 read
  constructor
  · rintro ⟨_, _, _, value, items, written', listed, item, mem, _, _, _, _, table, parts, record⟩
    rw [written] at written'
    cases written'
    -- The item is read, as all items are, and from the same fields.
    obtain ⟨items', listed', all⟩ := lawful.listOf?_eq_some_iff.1 placed
    obtain rfl : items = items' := Option.some.inj (listed.symm.trans listed')
    have found : placement? item ∈ l.circuits.map some := all ▸ List.mem_map_of_mem mem
    obtain ⟨p, kept, eq⟩ := List.mem_map.1 found
    obtain ⟨_, _, _, _, _, parts', -, -, -, -, record'⟩ := placement?_eq_some_iff.1 eq.symm
    rw [parts] at parts'
    cases parts'
    exact ⟨p, kept, Option.some.inj (record'.symm.trans record)⟩
  · rintro ⟨p, mem, rfl⟩
    rcases items_of_circuits lawful placed with ⟨-, none⟩ | ⟨value, items, rfl, listed, all⟩
    · -- the field is left out
      rw [none] at mem
      cases mem
    · obtain ⟨item, among, found⟩ := (mem_iff_of_map_eq all).1 mem
      obtain ⟨_, _, _, _, table, parts, -, -, -, -, record⟩ := placement?_eq_some_iff.1 found
      exact ⟨origin, sockets, layers, value, items, written, listed, item, among, _, _, _, _, table,
        parts, record⟩

end Datum

/-- **A document loses nothing of a layout and adds nothing to it**, in a format that keeps its
promises. Every layout that can be written down is read back as it was. Every layout that is read,
from whatever value, can be written down again; its tables are those of the records in the value,
and each of these records has the shape of a table: four distinct sides at most, one list of rows
for each output, and one row for each assignment of the inputs in each list. -/
theorem Layout.read_exact {α : Type} [Datum α] [Writer α] (lawful : Lawful α)
    (back : ReadsBack α) :
    (∀ l : Layout, layout? (l.write : α) = some l ↔ l.Representable) ∧
    ∀ (v : α) (l : Layout), layout? v = some l →
      l.Representable ∧ (∀ p ∈ l.circuits, p.table.record.WellShaped) ∧
        ∀ r, ListsRecord v r ↔ ∃ p ∈ l.circuits, p.table.record = r := by
  refine ⟨fun l => layout?_write_iff lawful back, fun v l read => ⟨?_, fun p _ => ?_, fun r => ?_⟩⟩
  · exact representable_of_layout? lawful read
  · -- every table has a record that is accepted
    exact TruthTable.Record.exists_table_iff.1
      ⟨p.table, TruthTable.Record.table_eq_ok_iff_record_eq.2 rfl⟩
  · exact listsRecord_iff lawful read

/-- The nested repeater, at a corner below zero, as a JSON value. -/
theorem Layout.read_exact_repeater :
    Lawful Json ∧ ReadsBack Json ∧
      layout? { Repeater.layout with origin := ⟨-7, 64, -2147483648⟩ }.json =
        some { Repeater.layout with origin := ⟨-7, 64, -2147483648⟩ } ∧
      ListsRecord { Repeater.layout with origin := ⟨-7, 64, -2147483648⟩ }.json
        Repeater.table.record := by
  obtain ⟨written, read⟩ := Layout.read_exact Json.lawful Json.readsBack
  have found := (written { Repeater.layout with origin := ⟨-7, 64, -2147483648⟩ }).2
    ⟨by decide, by decide, by decide, by decide⟩
  refine ⟨Json.lawful, Json.readsBack, found, ?_⟩
  exact ((read _ _ found).2.2 _).2 ⟨_, List.mem_cons_self, rfl⟩

end TorchLogic
