import Mathlib.Data.List.Permutation
import Mathlib.Data.Nat.Bitwise
import TorchLogic.Proofs.Netlist.TruthTable
import TorchLogic.Proofs.TruthTable.Clash

/-!
# Tabulation by shifts of 64 bits

Evaluation asks a word of 64 bits for the state of an input by one that is shifted to the place of
the input, and tabulation counts the rows by one that is shifted by the number of inputs. A word has
64 places, and a netlist may have more inputs than that, so what a shift past the last place does is
a parameter here: it may stop everything (`exactShift`), or count places modulo 64 (`wrappedShift`).

Shifts are made for inputs only, so two ways to shift come to the same as long as they agree on the
places that there are (`Netlist.signalUsing_eq`, `Netlist.tableUsing_eq`). This is so below 64
inputs. From 64 inputs on, rows are counted before it is found out that there are too many sides for
a table: exact shifts stop there (`Netlist.tableUsing_exactShift_of_le`), and wrapped ones count
wrong and read the wrong place of the word, but the table is refused all the same, as no column
depends on it. So the only defect of wrapped shifts is what evaluation says of an input that has no
place in the word (`Netlist.manyInputs_overflow`).
-/

namespace TorchLogic.Netlist

variable {stage : Stage} {g : Netlist stage} {id : Nat}

/-! ### Shifts of 64 bits -/

/-- **Why tabulation stops without a table.** -/
inductive Halt
  /-- There is no table, or no signal. -/
  | failed (e : NetlistError)
  /-- One was to be shifted by as many places as a word has, or by more. -/
  | overflow (places : Nat)
  deriving DecidableEq

/-- **One shifted to a place of a word**, if there is such a place. -/
def exactShift (places : Nat) : Except Halt UInt64 :=
  if places < 64 then .ok (1 <<< places.toUInt64) else .error (.overflow places)

/-- **One shifted to a place of a word**, places being counted modulo 64. -/
def wrappedShift (places : Nat) : Except Halt UInt64 := .ok (1 <<< places.toUInt64)

theorem exactShift_eq {places : Nat} (lt : places < 64) : exactShift places = wrappedShift places :=
  if_pos lt

/-- One shifted to a place of a word is a power of two. -/
theorem toNat_one_shiftLeft (places : Nat) :
    (1 <<< places.toUInt64 : UInt64).toNat = 2 ^ (places.toUInt64.toNat % 64) := by
  rw [UInt64.toNat_shiftLeft, UInt64.toNat_one, Nat.one_shiftLeft]
  exact Nat.mod_eq_of_lt (Nat.pow_lt_pow_right (by decide) (Nat.mod_lt _ (by decide)))

/-- A bit can be shifted down to the last place, or one up to the place of the bit. -/
theorem stateAt_eq_and (word : UInt64) (place : Nat) :
    stateAt word place = (word &&& 1 <<< place.toUInt64 != 0) := by
  -- Both shifts are by the same number of places.
  have bit := toNat_one_shiftLeft place
  generalize eq : place.toUInt64.toNat % 64 = k at bit
  have down : word.toNat >>> k &&& 1 = (word.toNat.testBit k).toNat := by
    rw [Nat.and_one_is_mod, Nat.shiftRight_eq_div_pow, Nat.toNat_testBit]
  have up : word.toNat &&& 2 ^ k = (word.toNat.testBit k).toNat * 2 ^ k := Nat.and_two_pow _ _
  rw [stateAt, Bool.eq_iff_iff, bne_iff_ne, bne_iff_ne, ne_eq, ne_eq, ← UInt64.toNat_inj,
    ← UInt64.toNat_inj, UInt64.toNat_and, UInt64.toNat_and, UInt64.toNat_shiftRight, eq, bit,
    UInt64.toNat_one, UInt64.toNat_zero, down, up]
  cases word.toNat.testBit k <;> simp

/-! ### Evaluation with given shifts -/

/-- **The signal on a node**, found by going back through fewer than `fuel` drivers, with given
shifts. -/
def signalUsing (shift : Nat → Except Halt UInt64) (g : Netlist stage) (word : UInt64) :
    Nat → NodeId → Except Halt Bool
  | 0, _ => .error (.failed .cyclic)
  | fuel + 1, id => do
    match ← (g.component id).mapError .failed with
    | .circuit _ => .error (.failed (.circuitHasNoSignal id))
    | .wire => .error (.failed (.wireInReduced id))
    | .input _ =>
      match g.inputs.idxOf? id with
      | some place => do
        let bit ← shift place
        .ok (word &&& bit != 0)
      | none => .error (.failed (.notABoardNode id))
    | .circuitOutput side owner => do
      let table ← (g.circuitTable owner).mapError .failed
      let children ← (g.circuitInputs owner).mapError .failed
      let states ← children.mapM fun child => do
        let state ← signalUsing shift g word fuel child.2
        .ok (child.1, state)
      .ok ((table.apply (Signals.ofEntries states)).get side)
    | .torch => do
      let powered ← (g.drivers id).anyM (signalUsing shift g word fuel)
      .ok !powered
    | .output _ => (g.drivers id).anyM (signalUsing shift g word fuel)
    | .circuitInput _ _ => (g.drivers id).anyM (signalUsing shift g word fuel)

/-- **Evaluation shifts to the places of inputs only**, so shifts that do the same there find the
same signals. -/
theorem signalUsing_eq {shift : Nat → Except Halt UInt64}
    (same : ∀ place < g.inputs.length, shift place = wrappedShift place)
    (word : UInt64) (fuel : Nat) (id : Nat) :
    g.signalUsing shift word fuel id = (g.signalWithin word fuel id).mapError .failed := by
  induction fuel generalizing id with
  | zero => rfl
  | succ fuel ih =>
    rw [signalUsing, signalWithin, mapError_bind]
    refine bind_congr fun c => ?_
    -- What is asked for upstream is asked for with less fuel, so only an input is left to compare.
    have step : g.signalUsing shift word fuel = fun id =>
        (g.signalWithin word fuel id).mapError .failed :=
      funext ih
    cases c with
    | circuit t => rfl
    | wire => rfl
    | input f =>
      -- the one component that shifts, by the place of the node in the list of inputs
      dsimp only
      cases at_place : g.inputs.idxOf? id with
      | none => rfl
      | some place =>
        dsimp only
        obtain ⟨mem, rfl⟩ := idxOf?_eq_some_iff.1 at_place
        rw [same _ (List.idxOf_lt_length_of_mem mem), stateAt_eq_and]
        rfl
    | output f => dsimp only; rw [step, anyM_mapError]
    | circuitInput side owner => dsimp only; rw [step, anyM_mapError]
    | torch =>
      dsimp only
      rw [step, anyM_mapError, mapError_bind]
      rfl
    | circuitOutput side owner =>
      dsimp only
      rw [mapError_bind]
      refine bind_congr fun table => ?_
      rw [mapError_bind]
      refine bind_congr fun children => ?_
      rw [mapError_bind, ← mapM_mapError]
      simp only [step, mapError_bind]
      rfl

/-! ### Tabulation with given shifts -/

/-- **Adds a row to the columns of the outputs**: their signals under the assignment of that number.
-/
def addRow (shift : Nat → Except Halt UInt64) (g : Netlist stage)
    (columns : List Column) (row : Nat) : Except Halt (List Column) :=
  (columns.zip g.outputs).mapM fun (c, id) => do
    let state ← g.signalUsing shift (UInt64.ofNat row) (g.size + 1) id
    .ok (c.set row state)

/-- **The truth table of a netlist**, with given shifts. One shifted by the number of inputs is the
number of rows; all of them are worked out before the sides are checked. -/
def tableUsing (shift : Nat → Except Halt UInt64) (g : Netlist .reduced) : Except Halt TruthTable :=
  if g.isAcyclic then do
    let inputs ← (g.inputs.mapM g.northSide).mapError .failed
    let outputs ← (g.outputs.mapM g.northSide).mapError .failed
    let rows ← shift g.inputs.length
    let columns ← (List.range rows.toNat).foldlM (g.addRow shift) (g.outputs.map fun _ => .empty)
    (TruthTable.ofColumns inputs outputs columns).mapError fun e => .failed (.table e)
  else .error (.failed .cyclic)

section Table

variable {g : Netlist .reduced} {shift : Nat → Except Halt UInt64}

/-- **What holds after a number of rows**: each column has the signals of its output in these rows.
-/
theorem foldlM_addRow
    (evaluates : ∀ word, ∀ id ∈ g.outputs,
      g.signalUsing shift word (g.size + 1) id = .ok (g.settled word id)) (rows : Nat) :
    (List.range rows).foldlM (g.addRow shift) (g.outputs.map fun _ => .empty) =
      .ok (g.outputs.map fun id => .ofFn rows fun row => g.settled (.ofNat row) id) := by
  induction rows with
  | zero => rfl
  | succ rows ih =>
    -- One more row sets one more bit in each column.
    have next (id : NodeId) : Column.ofFn (rows + 1) (fun row => g.settled (.ofNat row) id) =
        (Column.ofFn rows fun row => g.settled (.ofNat row) id).set rows
          (g.settled (.ofNat rows) id) := by
      rw [Column.ofFn, List.range_succ, List.foldl_append]
      rfl
    rw [List.range_succ, List.foldlM_append, ih, ok_bind, List.foldlM_cons, addRow,
      ← List.map_prod_right_eq_zip, List.mapM_map]
    rw [mapM_eq_ok (v := fun id => Column.ofFn (rows + 1) fun row => g.settled (.ofNat row) id)]
    · rfl
    · intro id mem
      rw [Function.comp_apply, next]
      dsimp only
      rw [evaluates _ _ mem]
      rfl

/-- Rows that are worked out one after the other make the column that is made of all of them. -/
theorem ofFn_eq_settledColumn (g : Netlist .reduced) (id : NodeId) :
    Column.ofFn (assignmentCount g.inputs.length) (fun row => g.settled (.ofNat row) id) =
      g.settledColumn id := by
  refine Column.ext_get fun row => ?_
  rw [settledColumn, Column.get_ofRows, Column.get_ofFn, List.getD_eq_getElem?_getD,
    List.getElem?_map]
  by_cases inside : row < assignmentCount g.inputs.length
  · rw [List.getElem?_range inside]
    simp [inside]
  · rw [List.getElem?_eq_none (by rwa [List.length_range, ← Nat.not_lt])]
    simp [inside]

/-- The rows of a netlist that may have a table are counted right. -/
theorem toNat_rows (few : g.inputs.length + g.outputs.length ≤ 4) :
    (1 <<< g.inputs.length.toUInt64 : UInt64).toNat = assignmentCount g.inputs.length := by
  have low : g.inputs.length.toUInt64.toNat % 64 = g.inputs.length := by
    rw [Nat.toUInt64_eq, UInt64.toNat_ofNat_of_lt' (by unfold UInt64.size; omega),
      Nat.mod_eq_of_lt (by omega)]
  rw [toNat_one_shiftLeft, low]
  rfl

variable (h : g.WellFormed) (acyclic : g.isAcyclic = true)

include h acyclic

/-- **What tabulation comes to** when the shifts that it makes are right: the number of rows matters
only if there are few enough sides for a table. -/
theorem tableUsing_eq {rows : UInt64} (bound : shift g.inputs.length = .ok rows)
    (exact : g.inputs.length + g.outputs.length ≤ 4 → rows.toNat = assignmentCount g.inputs.length)
    (same : ∀ place < g.inputs.length, shift place = wrappedShift place) :
    g.tableUsing shift = g.truthTable.mapError .failed := by
  -- At an output nothing goes wrong, whatever the word is.
  have evaluates (word : UInt64) (id : NodeId) (mem : id ∈ g.outputs) :
      g.signalUsing shift word (g.size + 1) id = .ok (g.settled word id) := by
    rw [signalUsing_eq same, ← signal, signal_output h acyclic word mem]
    rfl
  have columns := foldlM_addRow evaluates rows.toNat
  rw [tableUsing, if_pos acyclic, h.mapM_northSide_inputs, h.mapM_northSide_outputs, mapError_ok,
    mapError_ok, ok_bind, ok_bind, bound, ok_bind, columns, ok_bind]
  cases sides : TruthTable.sideFault? (g.inputs.map g.boardSide) (g.outputs.map g.boardSide) with
  -- The columns do not matter, and neither does how many rows there are.
  | some fault =>
    rw [TruthTable.ofColumns_eq_error sides, truthTable_eq_error h acyclic sides]
    rfl
  | none =>
    have distinct := TruthTable.sideFault?_eq_none_iff.1 sides
    have few := TruthTable.length_le_of_nodup distinct
    rw [List.length_append, List.length_map, List.length_map] at few
    -- Sides that do not clash are four at the most, so the shift that counts the rows is exact.
    obtain ⟨t, table, ins, outs, cols⟩ := truthTable_eq_ok h acyclic distinct
    simp only [exact few, ofFn_eq_settledColumn]
    rw [TruthTable.ofColumns_eq_ok_iff.2 ⟨ins, outs, cols⟩, table]
    rfl

/-- **Sixty-four inputs are too many for exact shifts.** -/
theorem tableUsing_exactShift_of_le (many : 64 ≤ g.inputs.length) :
    g.tableUsing exactShift = .error (.overflow g.inputs.length) := by
  rw [tableUsing, if_pos acyclic, h.mapM_northSide_inputs, h.mapM_northSide_outputs, mapError_ok,
    mapError_ok, ok_bind, ok_bind, exactShift, if_neg (Nat.not_lt.2 many)]
  rfl

/-- **Fewer inputs are not.** -/
theorem tableUsing_exactShift (few : g.inputs.length < 64) :
    g.tableUsing exactShift = g.truthTable.mapError .failed :=
  tableUsing_eq h acyclic (if_pos few) toNat_rows fun _ lt => exactShift_eq (Nat.lt_trans lt few)

/-- **Wrapped shifts do no harm to the table.** -/
theorem tableUsing_wrappedShift : g.tableUsing wrappedShift = g.truthTable.mapError .failed :=
  tableUsing_eq h acyclic rfl toNat_rows fun _ _ => rfl

end Table

/-- An input that has no place in a word cannot be asked for by exact shifts. -/
theorem signalUsing_exactShift_of_le (h : g.WellFormed) {word : UInt64}
    {fuel : Nat} (mem : id ∈ g.inputs) (far : 64 ≤ g.inputs.idxOf id) :
    g.signalUsing exactShift word (fuel + 1) id = .error (.overflow (g.inputs.idxOf id)) := by
  obtain ⟨f, stands⟩ := h.mem_inputs.1 mem
  rw [signalUsing, component_eq_ok_iff.2 stands, mapError_ok, ok_bind]
  dsimp only
  rw [idxOf?_eq_some_iff.2 ⟨mem, rfl⟩]
  dsimp only
  rw [exactShift, if_neg (Nat.not_lt.2 far)]
  rfl

/-- **Tabulation is total**, and shifts by less than the places of a word are all that it needs as
long as there are fewer inputs than places. From then on exact shifts stop it before it finds that
there are too many sides, and only wrapped ones let it say so. What it says is told by the number of
the board nodes and by their facings: there is a table, or there are too many sides, or the first
clash is reported. -/
theorem tabulation_total {g : Netlist .reduced} (reachable : g.Reachable)
    (acyclic : g.isAcyclic = true) :
    -- No shift is too far,
    (g.inputs.length < 64 → g.tableUsing exactShift = g.truthTable.mapError .failed) ∧
    (g.inputs.length ≤ 64 → ∀ word fuel id,
      g.signalUsing exactShift word fuel id = (g.signalWithin word fuel id).mapError .failed) ∧
    -- or one is, and it matters to evaluation alone that it wraps around.
    (64 ≤ g.inputs.length → g.tableUsing exactShift = .error (.overflow g.inputs.length)) ∧
    (∀ word fuel, ∀ id ∈ g.inputs, 64 ≤ g.inputs.idxOf id →
      g.signalUsing exactShift word (fuel + 1) id = .error (.overflow (g.inputs.idxOf id))) ∧
    g.tableUsing wrappedShift = g.truthTable.mapError .failed ∧
    (∀ word fuel id,
      g.signalUsing wrappedShift word fuel id = (g.signalWithin word fuel id).mapError .failed) ∧
    -- Evaluation has no errors of its own,
    (∀ word fuel id, g.Observed id → g.isCircuit id = false → g.size < fuel →
      ∃ state, g.signalWithin word fuel id = .ok state) ∧
    -- and these are the outcomes.
    (((g.inputs ++ g.outputs).map g.facing).Nodup → ∃ t, g.truthTable = .ok t) ∧
    (4 < g.inputs.length + g.outputs.length →
      g.truthTable = .error (.table (.tooManySides (g.inputs.length + g.outputs.length)))) ∧
    (g.inputs.length + g.outputs.length ≤ 4 → ¬ ((g.inputs ++ g.outputs).map g.facing).Nodup →
      ∃ e, TruthTable.Clash (g.inputs.map g.boardSide) (g.outputs.map g.boardSide) e ∧
        g.truthTable = .error (.table e)) := by
  have h := reachable.wellFormed
  refine ⟨tableUsing_exactShift h acyclic, fun few word fuel id => ?_,
    tableUsing_exactShift_of_le h acyclic,
    fun word fuel id => signalUsing_exactShift_of_le h, tableUsing_wrappedShift h acyclic,
    signalUsing_eq fun _ _ => rfl, fun word fuel id observed plain enough => ?_, fun distinct => ?_,
    fun many => ?_, fun few clash => ?_⟩
  · -- below 64 places every shift is exact
    exact signalUsing_eq (fun place lt => exactShift_eq (Nat.lt_of_lt_of_le lt few)) word fuel id
  · exact ⟨_, signalWithin_eq_settled h acyclic word observed plain enough⟩
  · obtain ⟨t, ok, -⟩ := truthTable_eq_ok h acyclic (h.nodup_boardSide distinct)
    exact ⟨t, ok⟩
  · -- more than four sides is the first fault that is looked for
    refine truthTable_eq_error h acyclic ?_
    rw [TruthTable.sideFault?, List.length_map, List.length_map, if_pos many]
  -- Nodes that face the same way are on the same side, so the sides clash.
  · have sides : (g.inputs.map g.boardSide).length + (g.outputs.map g.boardSide).length ≤ 4 := by
      rwa [List.length_map, List.length_map]
    obtain ⟨e, first⟩ := TruthTable.exists_clash sides (mt nodup_facing clash)
    exact ⟨e, first, truthTable_eq_error h acyclic
      ((TruthTable.sideFault?_eq_some_iff sides).2 first)⟩

/-- An input in the north, and an output in the north that it drives. -/
def oneSided : Netlist .reduced :=
  [Edit.input ⟨.north, .input⟩, .output ⟨.north, .output⟩, .connect 0 1].foldl edited empty

/-- The output clashes with the input, and there is no other clash. -/
theorem tabulation_total_oneSided : oneSided.Reachable ∧ oneSided.isAcyclic = true ∧
    oneSided.tableUsing exactShift = .error (.failed (.table (.overlappingSide .front))) := by
  have reachable : oneSided.Reachable := reachable_foldl_edited _ .empty
  have acyclic : oneSided.isAcyclic = true := by cbv
  refine ⟨reachable, acyclic, ?_⟩
  obtain ⟨exact, -, -, -, -, -, -, -, -, clash⟩ := tabulation_total reachable acyclic
  obtain ⟨e, first, table⟩ := clash (by decide) (by decide)
  have report : e = .overlappingSide .front :=
    Option.some.inj
      (((TruthTable.sideFault?_eq_some_iff (by decide)).2 first).symm.trans (by decide))
  rw [exact (by decide), table, report]
  rfl

/-- Sixty-five inputs, the last of which drives an output. -/
def manyInputs : Netlist .reduced :=
  (.replicate 65 (.input ⟨.north, .input⟩) ++
    [Edit.output ⟨.south, .output⟩, .connect 64 65]).foldl edited empty

/-- **The last input has no place in a word**, and the rows have no number there. Shifts that wrap
around read the state of the first input instead. -/
theorem manyInputs_overflow : manyInputs.Reachable ∧ manyInputs.isAcyclic = true ∧
    manyInputs.tableUsing exactShift = .error (.overflow 65) ∧
    manyInputs.signalUsing exactShift 1 (manyInputs.size + 1) 65 = .error (.overflow 64) ∧
    manyInputs.signal 65 1 = .ok true ∧ (1 : UInt64).toNat.testBit 64 = false := by
  have reachable : manyInputs.Reachable := reachable_foldl_edited _ .empty
  have acyclic : manyInputs.isAcyclic = true := by cbv
  have many : manyInputs.inputs.length = 65 := by decide
  refine ⟨reachable, acyclic, ?_, ?_, ?_, ?_⟩
  · rw [tableUsing_exactShift_of_le reachable.wellFormed acyclic (by rw [many]; decide), many]
  · cbv
  · cbv
  · decide

end TorchLogic.Netlist
