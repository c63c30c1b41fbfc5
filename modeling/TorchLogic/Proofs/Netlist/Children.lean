import TorchLogic.Proofs.Fallible
import TorchLogic.Proofs.Netlist.Consistency

/-!
# The children of a nested circuit are found

A circuit does not know the numbers of its children. They are looked for among the nodes that have
an edge with it: the input children among its drivers, and the output child on a side among its
successors. This is right as long as there are no others (`Netlist.Consistent.drives_circuit`,
`Netlist.Consistent.circuit_drives`), which the seals see to in every call that adds an edge, and
which reduction keeps, as no run of wires begins or ends at a circuit.

The drivers ascend, and so do the input children of a circuit in the order of its table. So the
look-up pairs the sides of the table with the drivers one by one
(`Netlist.WellFormed.circuitInputs_eq_zip`). All of it holds in every netlist that there can be,
reduced ones with their new numbers included (`Netlist.children_of_reachable`).
-/

namespace TorchLogic

/-- Items that each have a name are paired with their names. -/
theorem filterMap_named {α β : Type} {name? : α → Option β} {items : List α} {names : List β}
    (named : items.map name? = names.map some) :
    (items.filterMap fun item => (name? item).map (·, item)) = names.zip items := by
  induction items generalizing names with
  | nil =>
    rw [List.zip_nil_right, List.filterMap_nil]
  | cons item rest ih =>
    cases names with
    -- as many names as items
    | nil => cases named
    | cons name others =>
      obtain ⟨first, later⟩ := List.cons.inj named
      rw [List.filterMap_cons, first, List.zip_cons_cons, ← ih later]
      rfl

namespace Netlist

variable {stage : Stage} {g : Netlist stage} {c id child : Nat} {t : TruthTable} {side : Side}

/-! ### Nodes that are no circuits -/

theorem circuitTable_eq_ok (stands : g.component? id = some (.circuit t)) :
    g.circuitTable id = .ok t := by
  rw [circuitTable, component_eq_ok_iff.2 stands]
  rfl

theorem circuitTable_of_size_le (out : g.size ≤ id) :
    g.circuitTable id = .error (.nodeOutOfRange id g.size) := by
  have missing : g.component? id = none := by
    rw [← Option.not_isSome_iff_eq_none, component?_isSome]
    exact Nat.not_lt.2 out
  rw [circuitTable, component, missing]
  rfl

theorem circuitTable_of_not_isCircuit {x : Component} (stands : g.component? id = some x)
    (other : x.isCircuit = false) : g.circuitTable id = .error (.notACircuit id) := by
  rw [circuitTable, component_eq_ok_iff.2 stands, ok_bind]
  cases x with
  | circuit t => cases other
  | _ => rfl

/-- **Nothing is looked up in what is no circuit.** -/
theorem lookups_eq_error {e : NetlistError} (failed : g.circuitTable id = .error e) :
    g.circuitInputs id = .error e ∧ ∀ side, g.circuitOutput id side = .error e := by
  refine ⟨?_, fun side => ?_⟩
  · rw [circuitInputs, failed]
    rfl
  · rw [circuitOutput, failed]
    rfl

/-! ### The look-ups in a circuit -/

namespace WellFormed

variable (h : g.WellFormed)

include h

/-- **The sides of the table are paired with the drivers**, in the order of both. -/
theorem circuitInputs_eq_zip (hc : g.component? c = some (.circuit t)) :
    g.circuitInputs c = .ok (t.inputs.zip (g.drivers c)) := by
  rw [circuitInputs, circuitTable_eq_ok hc, ok_bind, filterMap_named (h.map_inputSide? hc)]

theorem length_drivers_circuit (hc : g.component? c = some (.circuit t)) :
    (g.drivers c).length = t.inputs.length := by
  rw [h.drivers_circuit hc, List.length_map, List.length_range]

/-- On a side that is no output there is nothing to be found. -/
theorem circuitOutput_eq_error (hc : g.component? c = some (.circuit t))
    (absent : side ∉ t.outputs) :
    g.circuitOutput c side = .error (.missingOutput c side) := by
  have none_found :
      (g.successors c).find? (fun child => g.outputSide? child == some side) = none := by
    rw [List.find?_eq_none]
    intro child mem found
    rw [beq_iff_eq] at found
    -- The sides of the successors are the outputs of the table.
    have listed : g.outputSide? child ∈ (g.successors c).map g.outputSide? :=
      List.mem_map_of_mem mem
    rw [h.map_outputSide? hc, found] at listed
    obtain ⟨output, mem, eq⟩ := List.mem_map.1 listed
    exact absent (Option.some.inj eq ▸ mem)
  rw [Netlist.circuitOutput, circuitTable_eq_ok hc, ok_bind, none_found]

/-- An output child is on an output side of the table. -/
theorem mem_outputs_of_child (hc : g.component? c = some (.circuit t))
    (hchild : g.component? child = some (.circuitOutput side c)) : side ∈ t.outputs := by
  obtain ⟨-, u, i, hu, hi, -⟩ := h.circuitOutput child side c hchild
  rw [hc, Option.some.injEq, Component.circuit.injEq] at hu
  subst hu
  exact List.mem_of_getElem? hi

/-- **The output child on a side** is the node that is found. -/
theorem circuitOutput_eq_ok_iff (hc : g.component? c = some (.circuit t)) :
    g.circuitOutput c side = .ok child ↔ g.component? child = some (.circuitOutput side c) := by
  -- An output has one child, and what is no output has none.
  by_cases output : side ∈ t.outputs
  · obtain ⟨k, found, hk⟩ := h.circuitOutput_eq hc output
    rw [found, Except.ok.injEq]
    constructor
    · rintro rfl
      exact hk
    · intro hchild
      exact h.circuitOutput_unique hk hchild
  · rw [h.circuitOutput_eq_error hc output]
    constructor
    · exact nofun
    · intro hchild
      exact absurd (h.mem_outputs_of_child hc hchild) output

end WellFormed

/-! ### Every netlist that there can be -/

/-- **The children of a circuit are found in every netlist that there can be**, wired or reduced.
The input children are listed with the input sides of the table, in its order; all of them are
listed, each of them once, and nothing else. On each output side there is one output child, which is
found, and on other sides none is. What is no circuit has no children to look for. -/
theorem children_of_reachable (h : g.Reachable) :
    (∀ c t, g.component? c = some (.circuit t) →
      (∃ children, g.circuitInputs c = .ok children ∧ children.map Prod.fst = t.inputs ∧
        (children.map Prod.snd).Nodup ∧
        ∀ side child, (side, child) ∈ children ↔ g.component? child = some (.circuitInput side c)) ∧
      (∀ side child, g.circuitOutput c side = .ok child ↔
        g.component? child = some (.circuitOutput side c)) ∧
      (∀ side, (∃ child, g.circuitOutput c side = .ok child) ↔ side ∈ t.outputs) ∧
      ∀ side, side ∉ t.outputs → g.circuitOutput c side = .error (.missingOutput c side)) ∧
    (∀ id x, g.component? id = some x → x.isCircuit = false →
      g.circuitInputs id = .error (.notACircuit id) ∧
        ∀ side, g.circuitOutput id side = .error (.notACircuit id)) ∧
    ∀ id, g.size ≤ id → g.circuitInputs id = .error (.nodeOutOfRange id g.size) ∧
      ∀ side, g.circuitOutput id side = .error (.nodeOutOfRange id g.size) := by
  have wf := h.wellFormed
  refine ⟨fun c t hc => ⟨?_, ?_, ?_, ?_⟩, fun id x stands other => ?_, fun id out => ?_⟩
  · -- There are as many drivers as sides, so none of either is lost in pairing them.
    have lengths := wf.length_drivers_circuit hc
    have zipped := wf.circuitInputs_eq_zip hc
    refine ⟨_, zipped, List.map_fst_zip lengths.ge, ?_, ?_⟩
    · rw [List.map_snd_zip lengths.le]
      exact (wf.drivers_ascend c).imp Nat.ne_of_lt
    · obtain ⟨children, found, mem⟩ := wf.circuitInputs_eq hc
      obtain rfl := Except.ok.inj (zipped.symm.trans found)
      exact mem
  · -- the child of an output side, by the component that it shows
    intro side child
    exact wf.circuitOutput_eq_ok_iff hc
  · intro side
    constructor
    · rintro ⟨child, found⟩
      exact wf.mem_outputs_of_child hc ((wf.circuitOutput_eq_ok_iff hc).1 found)
    · intro output
      obtain ⟨child, found, -⟩ := wf.circuitOutput_eq hc output
      exact ⟨child, found⟩
  · -- a side has a child exactly when the table lists it
    intro side absent
    exact wf.circuitOutput_eq_error hc absent
  · exact lookups_eq_error (circuitTable_of_not_isCircuit stands other)
  · exact lookups_eq_error (circuitTable_of_size_le out)

/-- The nested inverter after reduction, with the numbers that it has there. -/
theorem children_of_reachable_relay : Relay.reduced.Reachable ∧
    Relay.wired.component? 2 = some (.circuit Relay.table) ∧
    Relay.reduced.component? 1 = some (.circuit Relay.table) ∧
    (∃ child, Relay.reduced.circuitInputs 1 = .ok [(.back, child)] ∧
      Relay.reduced.component? child = some (.circuitInput .back 1)) ∧
    Relay.reduced.circuitOutput 1 .front = .ok 3 ∧
    Relay.reduced.circuitOutput 1 .back = .error (.missingOutput 1 .back) ∧
    Relay.reduced.circuitInputs 2 = .error (.notACircuit 2) ∧
    Relay.reduced.circuitOutput 5 .front = .error (.nodeOutOfRange 5 5) := by
  have reachable := (Relay.built_wired.reduce Relay.reduce_eq).reachable
  obtain ⟨circuit, other, missing⟩ := children_of_reachable reachable
  obtain ⟨⟨children, listed, sides, -, mem⟩, found, -, absent⟩ := circuit 1 Relay.table rfl
  -- One side is listed, and the child that it is listed with is the one that there is.
  obtain ⟨⟨side, child⟩, rfl, eq⟩ := List.map_eq_singleton_iff.1 sides
  obtain rfl : side = .back := eq
  refine ⟨reachable, by cbv, rfl, ⟨child, listed, ?_⟩, ?_, ?_, ?_, ?_⟩
  · exact (mem .back child).1 (List.mem_singleton_self _)
  · exact (found .front 3).2 rfl
  · exact absent .back (by decide)
  · exact (other 2 _ rfl rfl).1
  · exact (missing 5 (by decide)).2 .front

end Netlist

end TorchLogic
