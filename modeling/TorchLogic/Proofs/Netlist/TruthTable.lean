import TorchLogic.Proofs.Netlist.Evaluate

/-!
# The truth table of a netlist

A netlist without feedback whose board nodes lie on distinct sides has a truth table
(`Netlist.truthTable_eq_ok`), and no other netlist has one
(`Netlist.WellFormed.of_truthTable_eq_ok`, `Netlist.truthTable_eq_error`). The table computes the
signals of the outputs: where the inputs of the board have the states that some signals give their
sides, the table takes these signals to the states of the outputs in the solution
(`Netlist.evaluation_exact`).

Three conventions meet here. Inputs are counted in the order in which they were added, a row of the
table is a number whose bits follow that order, and signals are named by sides. The number of a row
read back bit by bit is the assignment that the signals make (`Netlist.inputState_eq`).
-/

namespace TorchLogic.Netlist

variable {g : Netlist .reduced} {id : Nat}

/-! ### Sides -/

/-- The side of a board node as if the board faced north. -/
def boardSide (g : Netlist .reduced) (id : NodeId) : Side :=
  match g.northSide id with
  | .ok side => side
  | .error _ => .front

/-- Board nodes on different sides face different ways. -/
theorem nodup_facing (distinct : (g.inputs.map g.boardSide ++ g.outputs.map g.boardSide).Nodup) :
    ((g.inputs ++ g.outputs).map g.facing).Nodup := by
  rw [← List.map_append] at distinct
  unfold List.Nodup at distinct ⊢
  rw [List.pairwise_map] at distinct ⊢
  refine distinct.imp fun {a b} ne eq => ne ?_
  rw [boardSide, boardSide, northSide, northSide, eq]

/-- **The state of the input at a place** when each input has the state of its side. -/
def inputState (g : Netlist .reduced) (signals : Signals) (place : Nat) : Bool :=
  g.inputs[place]?.any fun id =>
    match g.northSide id with
    | .ok side => signals.get side
    | .error _ => false

namespace WellFormed

variable (h : g.WellFormed)

include h

theorem exists_facing (mem : id ∈ g.inputs ++ g.outputs) : ∃ f, g.facing id = .ok f := by
  rcases List.mem_append.1 mem with input | output
  · obtain ⟨f, stands⟩ := h.mem_inputs.1 input
    exact ⟨f, by rw [facing, component_eq_ok_iff.2 stands]; rfl⟩
  · obtain ⟨f, stands⟩ := h.mem_outputs.1 output
    exact ⟨f, by rw [facing, component_eq_ok_iff.2 stands]; rfl⟩

theorem northSide_eq (mem : id ∈ g.inputs ++ g.outputs) :
    g.northSide id = .ok (g.boardSide id) := by
  obtain ⟨f, stands⟩ := h.exists_facing mem
  rw [boardSide, northSide, stands]
  rfl

theorem mapM_northSide_inputs : g.inputs.mapM g.northSide = .ok (g.inputs.map g.boardSide) :=
  mapM_eq_ok fun _ mem => h.northSide_eq (List.mem_append_left _ mem)

theorem mapM_northSide_outputs : g.outputs.mapM g.northSide = .ok (g.outputs.map g.boardSide) :=
  mapM_eq_ok fun _ mem => h.northSide_eq (List.mem_append_right _ mem)

theorem inputState_eq (signals : Signals) :
    g.inputState signals = (TruthTable.rowOf signals (g.inputs.map g.boardSide)).testBit := by
  funext place
  rw [TruthTable.testBit_rowOf, List.getElem?_map, inputState]
  cases at_place : g.inputs[place]? with
  | none => rfl
  | some id =>
    have mem := List.mem_append_left g.outputs (List.mem_of_getElem? at_place)
    simp only [Option.any_some, Option.map_some, h.northSide_eq mem]

/-- Board nodes that face different ways are on different sides. -/
theorem nodup_boardSide (distinct : ((g.inputs ++ g.outputs).map g.facing).Nodup) :
    (g.inputs.map g.boardSide ++ g.outputs.map g.boardSide).Nodup := by
  rw [← List.map_append]
  unfold List.Nodup at distinct ⊢
  rw [List.pairwise_map] at distinct ⊢
  -- Two board nodes on one side would face one way.
  refine distinct.imp_of_mem fun {a b} ha hb ne eq => ne ?_
  obtain ⟨f, fa⟩ := h.exists_facing ha
  obtain ⟨f', fb⟩ := h.exists_facing hb
  rw [boardSide, boardSide, northSide, northSide, fa, fb] at eq
  -- Seen from a north that is fixed, a side tells the facing.
  have back : f = f' := by
    rw [← Side.absolute_relative .north f, ← Side.absolute_relative .north f']
    exact congrArg _ eq
  rw [fa, fb, back]

end WellFormed

/-! ### The table -/

/-- The column of an output, as evaluation finds it. -/
def settledColumn (g : Netlist .reduced) (id : NodeId) : Column :=
  Column.ofRows ((List.range (assignmentCount g.inputs.length)).map fun row =>
    g.settled (UInt64.ofNat row) id)

theorem get_settledColumn (few : g.inputs.length ≤ 4) {row : Nat}
    (lt : row < assignmentCount g.inputs.length) :
    (g.settledColumn id).get row = g.settled (UInt64.ofNat row) id := by
  -- A column has room for the rows of four inputs.
  have low : row < Column.height := Nat.lt_of_lt_of_le lt (Nat.pow_le_pow_right (by decide) few)
  rw [settledColumn, Column.get_ofRows, decide_eq_true low, Bool.true_and,
    List.getD_eq_getElem?_getD, List.getElem?_map, List.getElem?_range lt]
  rfl

theorem bitLength_settledColumn_le :
    (g.settledColumn id).bitLength ≤ assignmentCount g.inputs.length := by
  have count :=
    Column.bitLength_ofRows_le ((List.range (assignmentCount g.inputs.length)).map fun row =>
    g.settled (UInt64.ofNat row) id)
  rwa [List.length_map, List.length_range] at count

/-- The table takes signals to what evaluation finds in their row. -/
theorem get_apply_boardSide (few : g.inputs.length ≤ 4) {t : TruthTable}
    (inputs : t.inputs = g.inputs.map g.boardSide) (outputs : t.outputs = g.outputs.map g.boardSide)
    (columns : t.columns = g.outputs.map g.settledColumn) (signals : Signals)
    (mem : id ∈ g.outputs) :
    (t.apply signals).get (g.boardSide id) = g.settled (UInt64.ofNat (t.row signals)) id := by
  -- The output is at some place, where its side and its column are as well.
  obtain ⟨k, at_k⟩ := List.getElem?_of_mem mem
  have side : t.outputs[k]? = some (g.boardSide id) := by
    rw [outputs, List.getElem?_map, at_k, Option.map_some]
  have column : t.columns[k]? = some (g.settledColumn id) := by
    rw [columns, List.getElem?_map, at_k, Option.map_some]
  have lt := TruthTable.rowOf_lt signals t.inputs
  rw [inputs, List.length_map, ← inputs] at lt
  rw [TruthTable.get_apply signals side column]
  exact get_settledColumn few lt

section Table

variable (h : g.WellFormed) (acyclic : g.isAcyclic = true)

include h acyclic

theorem signal_output (word : UInt64) (mem : id ∈ g.outputs) :
    g.signal id word = .ok (g.settled word id) := by
  obtain ⟨f, stands⟩ := h.mem_outputs.1 mem
  refine signalWithin_eq_settled h acyclic word ⟨id, mem, .refl⟩ ?_ (Nat.lt_succ_self _)
  rw [isCircuit, stands]
  rfl

/-- **A netlist without feedback has a table** if its board nodes are on distinct sides. -/
theorem truthTable_eq_ok
    (distinct : (g.inputs.map g.boardSide ++ g.outputs.map g.boardSide).Nodup) :
    ∃ t, g.truthTable = .ok t ∧ t.inputs = g.inputs.map g.boardSide ∧
      t.outputs = g.outputs.map g.boardSide ∧ t.columns = g.outputs.map g.settledColumn := by
  -- Every row of every column is a signal that evaluation finds.
  have columns : g.outputs.mapM g.column = .ok (g.outputs.map g.settledColumn) := by
    refine mapM_eq_ok fun id mem => ?_
    have rows : (List.range (assignmentCount g.inputs.length)).mapM
        (fun row => g.signal id (UInt64.ofNat row)) = .ok ((List.range
          (assignmentCount g.inputs.length)).map fun row => g.settled (UInt64.ofNat row) id) :=
      mapM_eq_ok fun row _ => signal_output h acyclic _ mem
    rw [column, rows]
    rfl
  -- The columns are as many as the sides, and none is longer than the table.
  have count : (g.outputs.map g.settledColumn).length = (g.outputs.map g.boardSide).length := by
    rw [List.length_map, List.length_map]
  have fit : ∀ c ∈ g.outputs.map g.settledColumn,
      c.bitLength ≤ assignmentCount (g.inputs.map g.boardSide).length := by
    intro c mem
    obtain ⟨id, -, rfl⟩ := List.mem_map.1 mem
    rw [List.length_map]
    exact bitLength_settledColumn_le
  obtain ⟨t, table, parts⟩ := TruthTable.exists_ofColumns_eq_ok distinct count fit
  refine ⟨t, ?_, parts⟩
  rw [truthTable, if_pos acyclic, h.mapM_northSide_inputs, h.mapM_northSide_outputs]
  simp only [bind, Except.bind, TruthTable.sideFault?_eq_none_iff.2 distinct, columns]
  rw [table]
  rfl

/-- What is wrong with the sides of the board nodes is reported before anything is evaluated. -/
theorem truthTable_eq_error {fault : TableError}
    (found : TruthTable.sideFault? (g.inputs.map g.boardSide) (g.outputs.map g.boardSide) =
      some fault) :
    g.truthTable = .error (.table fault) := by
  rw [truthTable, if_pos acyclic, h.mapM_northSide_inputs, h.mapM_northSide_outputs, ok_bind,
    ok_bind, found]

end Table

/-- **A netlist that has a table** has no feedback, and the table lists the sides of its board nodes
and what evaluation finds. -/
theorem WellFormed.of_truthTable_eq_ok {t : TruthTable} (h : g.WellFormed)
    (ok : g.truthTable = .ok t) :
    g.isAcyclic = true ∧ t.inputs = g.inputs.map g.boardSide ∧
      t.outputs = g.outputs.map g.boardSide ∧ t.columns = g.outputs.map g.settledColumn := by
  -- A table is made of an acyclic netlist only, and of sides that do not clash.
  have acyclic : g.isAcyclic = true := by
    rw [truthTable] at ok
    split at ok
    · assumption
    · cases ok
  refine ⟨acyclic, ?_⟩
  cases sides : TruthTable.sideFault? (g.inputs.map g.boardSide) (g.outputs.map g.boardSide) with
  | some fault =>
    rw [truthTable_eq_error h acyclic sides] at ok
    cases ok
  | none =>
    obtain ⟨t', ok', lists⟩ :=
      truthTable_eq_ok h acyclic (TruthTable.sideFault?_eq_none_iff.1 sides)
    rw [ok, Except.ok.injEq] at ok'
    rwa [ok']

/-- **Evaluation and the truth table are exact** on a netlist without feedback. There is one
solution for each word of input states, evaluation finds it with any fuel above the number of nodes,
and if the board nodes face different ways, the netlist has a table that computes the solution and
leaves all other sides off. -/
theorem evaluation_exact (reachable : g.Reachable) (acyclic : g.isAcyclic = true)
    (few : g.inputs.length < 64) :
    (∀ given v w, g.Solves given v → g.Solves given w →
      ∀ id, g.Observed id → g.isCircuit id = false → v id = w id) ∧
    (∀ word : UInt64, ∃ v, g.Solves word.toNat.testBit v ∧
      ∀ id, g.Observed id → g.isCircuit id = false →
        g.signal id word = .ok (v id) ∧
        ∀ fuel, g.size < fuel → g.signalWithin word fuel id = .ok (v id)) ∧
    (((g.inputs ++ g.outputs).map g.facing).Nodup →
      ∃ t, g.truthTable = .ok t ∧ ∀ signals, ∃ v, g.Solves (g.inputState signals) v ∧
        (∀ id ∈ g.outputs, ∃ side, g.northSide id = .ok side ∧ (t.apply signals).get side = v id) ∧
        ∀ side, (∀ id ∈ g.outputs, g.northSide id ≠ .ok side) →
          (t.apply signals).get side = false) := by
  have h := reachable.wellFormed
  refine ⟨fun given v w hv hw id observed plain => ?_, fun word => ?_, fun distinct => ?_⟩
  · -- no two solutions
    exact hv.unique h acyclic hw observed plain
  · -- the states that evaluation settles on are the solution
    have solves := solves_settled h acyclic few word
    refine ⟨g.settled word, solves, fun id observed plain => ⟨?_, fun fuel enough => ?_⟩⟩
    · exact signalWithin_eq_of_solves h acyclic few solves observed plain (Nat.lt_succ_self _)
    · exact signalWithin_eq_of_solves h acyclic few solves observed plain enough
  · -- four sides at the most, so the table has a row for each assignment
    have sides := h.nodup_boardSide distinct
    obtain ⟨t, ok, inputs, outputs, columns⟩ := truthTable_eq_ok h acyclic sides
    have count := TruthTable.length_le_of_nodup sides
    rw [List.length_append, List.length_map, List.length_map] at count
    have four : g.inputs.length ≤ 4 := by omega
    refine ⟨t, ok, fun signals => ?_⟩
    -- The row that the signals select, as a word, gives each input the state of its side.
    have row_lt : t.row signals < 2 ^ 64 := by
      refine Nat.lt_of_lt_of_le (TruthTable.rowOf_lt signals t.inputs) ?_
      refine Nat.pow_le_pow_right (by decide) ?_
      rw [inputs, List.length_map]
      exact Nat.le_of_lt few
    have word : (UInt64.ofNat (t.row signals)).toNat = t.row signals := by
      rw [UInt64.toNat_ofNat', Nat.mod_eq_of_lt row_lt]
    have solves := solves_settled h acyclic few (UInt64.ofNat (t.row signals))
    rw [word, TruthTable.row, inputs, ← h.inputState_eq signals] at solves
    refine ⟨_, solves, fun id mem => ⟨g.boardSide id, ?_, ?_⟩, fun side other => ?_⟩
    · exact h.northSide_eq (List.mem_append_right _ mem)
    · rw [get_apply_boardSide four inputs outputs columns signals mem, TruthTable.row,
        inputs]
    · -- a side without an output is off
      refine TruthTable.get_apply_of_not_mem signals fun mem => ?_
      rw [outputs] at mem
      obtain ⟨id, output, rfl⟩ := List.mem_map.1 mem
      exact other id output (h.northSide_eq (List.mem_append_right _ output))

/-- An inverter: a torch between an input and an output. -/
def inverter : Netlist .reduced :=
  [Edit.input ⟨.north, .input⟩, .torch, .output ⟨.south, .output⟩, .connect 0 1,
    .connect 1 2].foldl edited empty

theorem inverter_evaluation_exact :
    inverter.Reachable ∧ inverter.isAcyclic = true ∧ inverter.inputs.length < 64 ∧
      ∃ t, inverter.truthTable = .ok t := by
  have reachable : inverter.Reachable := reachable_foldl_edited _ .empty
  have acyclic : inverter.isAcyclic = true := by
    refine isAcyclic_of_ascending fun a b edge => ?_
    have stands := (reachable.wellFormed.lt_of_mem_drivers edge).2
    -- Its edges follow the order in which the nodes were added.
    have ascending : ∀ b < inverter.size, ∀ a ∈ inverter.drivers b, a < b := by decide
    exact ascending b stands a edge
  have few : inverter.inputs.length < 64 := by decide
  refine ⟨reachable, acyclic, few, ?_⟩
  obtain ⟨t, ok, -⟩ := (evaluation_exact reachable acyclic few).2.2 (by decide)
  exact ⟨t, ok⟩

end TorchLogic.Netlist
