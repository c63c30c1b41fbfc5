import Mathlib.Logic.Relation
import TorchLogic.Netlist.Reduce

/-!
# Well-formed netlists

What the construction calls promise about a netlist, whatever they are asked to do. The edges are
kept at both ends, without repetition, and each of them respects the seals; the lists of inputs and
outputs are what their components say; and a nested circuit sits in one block of numbers: its own
node first, then its input children, then its output children, each in the order of its table
(`Netlist.WellFormed`).

Two additions keep all of this by themselves: a node that is no part of a circuit
(`WellFormed.push`), and an edge that the seals allow (`WellFormed.link`).
-/

namespace TorchLogic

/-! ### What the seals allow -/

/-- Whether a component may drive whatever may be driven freely. -/
def Component.drivesFreely : Component → Bool
  | circuit _ | circuitInput _ _ => false
  | _ => true

/-- Whether a component may be driven by whatever drives freely. -/
def Component.drivenFreely : Component → Bool
  | circuit _ | circuitOutput _ _ => false
  | _ => true

namespace Sealing

variable {a b : Nat} {c d : Component}

theorem fault?_circuit_iff {t : TruthTable} :
    fault? a b c (.circuit t) = none ↔ ∃ side, c = .circuitInput side b := by
  cases c <;> simp [fault?]

theorem fault?_circuitOutput_iff {side : Side} {owner : Nat} :
    fault? a b c (.circuitOutput side owner) = none ↔ owner = a ∧ ∃ t, c = .circuit t := by
  cases c <;> simp [fault?]

theorem fault?_of_free (hc : c.drivesFreely = true) (hd : d.drivenFreely = true) :
    fault? a b c d = none := by
  cases c <;> cases d <;>
    first | rfl | simp [Component.drivesFreely, Component.drivenFreely] at hc hd

theorem drivesFreely_of_fault? (hd : d.drivenFreely = true) (legal : fault? a b c d = none) :
    c.drivesFreely = true := by
  cases c <;> cases d <;> first | rfl | simp [Component.drivenFreely, fault?] at hd legal

theorem drivenFreely_of_fault? (hc : c.drivesFreely = true) (legal : fault? a b c d = none) :
    d.drivenFreely = true := by
  cases c <;> cases d <;> first | rfl | simp [Component.drivesFreely, fault?] at hc legal

end Sealing

namespace Netlist

variable {stage : Stage} {g : Netlist stage} {a b c id : Nat}

/-! ### Edges -/

/-- **Whether a node drives another.** -/
def Drives (g : Netlist stage) (a b : Nat) : Prop := a ∈ g.drivers b

/-- **Edges kept in order at both ends.** -/
structure EdgesKept (g : Netlist stage) : Prop where
  /-- The successors are the other end of the drivers. -/
  mirrored : ∀ a b, b ∈ g.successors a ↔ a ∈ g.drivers b
  /-- The drivers of a node ascend. -/
  drivers_ascend : ∀ id, (g.drivers id).Pairwise (· < ·)
  /-- The successors of a node ascend. -/
  successors_ascend : ∀ id, (g.successors id).Pairwise (· < ·)

theorem mem_drivers_link (hb : b < g.size) {x y : Nat} :
    x ∈ (g.link a b).drivers y ↔ x ∈ g.drivers y ∨ x = a ∧ y = b := by
  rw [drivers_link hb]
  split
  case isTrue eq =>
    subst eq
    simp [or_comm]
  case isFalse ne =>
    simp [ne]

theorem mem_successors_link (ha : a < g.size) {x y : Nat} :
    y ∈ (g.link a b).successors x ↔ y ∈ g.successors x ∨ x = a ∧ y = b := by
  rw [successors_link ha]
  split
  case isTrue eq =>
    subst eq
    simp [or_comm]
  case isFalse ne =>
    simp [ne]

theorem component_eq_ok_iff {c : Component} :
    g.component id = .ok c ↔ g.component? id = some c := by
  unfold component
  split
  case h_1 h =>
    rw [h]
    simp
  case h_2 h =>
    rw [h]
    simp

theorem component?_push_of_lt {d : Component} (lt : id < g.size) :
    (g.push d).component? id = g.component? id := by
  rw [component?_push, if_neg (Nat.ne_of_lt lt)]

theorem component?_push_self (g : Netlist stage) (d : Component) :
    (g.push d).component? g.size = some d := by
  rw [component?_push, if_pos rfl]

/-- What stands keeps its number when one more node is added. -/
theorem component?_push_of_some {x d : Component} (stands : g.component? id = some x) :
    (g.push d).component? id = some x := by
  rw [component?_push_of_lt (lt_size_of_component? stands), stands]

/-- What stands after one more node was added is old, or it is that node. -/
theorem component?_push_cases {x d : Component} (stands : (g.push d).component? id = some x) :
    g.component? id = some x ∨ id = g.size ∧ x = d := by
  rw [component?_push] at stands
  split at stands
  case isTrue new => exact .inr ⟨new, (Option.some.inj stands).symm⟩
  case isFalse => exact .inl stands

theorem ids_push (g : Netlist stage) (c : Component) : (g.push c).ids = g.ids ++ [g.size] := by
  simp only [ids, size_push, List.range_succ]

/-- The nodes that satisfy a test of their components, after one more node. -/
theorem ids_filter_push (g : Netlist stage) (c : Component) (p : Component → Bool) :
    ((g.push c).ids.filter fun id => ((g.push c).component? id).any p) =
      (g.ids.filter fun id => (g.component? id).any p) ++ if p c then [g.size] else [] := by
  rw [ids_push, List.filter_append]
  congr 1
  · refine List.filter_congr fun id mem => ?_
    rw [component?_push_of_lt (mem_ids.1 mem)]
  · simp [List.filter_cons, component?_push]

namespace EdgesKept

theorem empty : (empty : Netlist stage).EdgesKept where
  mirrored := fun a b => by simp [Netlist.empty, drivers, successors]
  drivers_ascend := fun id => by simp [Netlist.empty, drivers]
  successors_ascend := fun id => by simp [Netlist.empty, successors]

theorem push (h : g.EdgesKept) (c : Component) : (g.push c).EdgesKept where
  mirrored := by
    intro a b
    rw [drivers_push, successors_push]
    exact h.mirrored a b
  drivers_ascend := by
    intro id
    rw [drivers_push]
    exact h.drivers_ascend id
  successors_ascend := by
    intro id
    rw [successors_push]
    exact h.successors_ascend id

theorem link (h : g.EdgesKept) (ha : a < g.size) (hb : b < g.size) : (g.link a b).EdgesKept where
  mirrored := by
    intro x y
    rw [mem_successors_link ha, mem_drivers_link hb, h.mirrored]
  drivers_ascend := by
    intro id
    rw [drivers_link hb]
    split
    · -- the node that the new edge leads to
      exact pairwise_insertAscending (h.drivers_ascend b)
    · exact h.drivers_ascend id
  successors_ascend := by
    intro id
    rw [successors_link ha]
    split
    · -- the node that it leads from
      exact pairwise_insertAscending (h.successors_ascend a)
    · exact h.successors_ascend id

end EdgesKept

/-! ### The invariant -/

/-- **Well-formed netlists.** -/
structure WellFormed (g : Netlist stage) : Prop extends g.EdgesKept where
  /-- Every edge leads between nodes and respects the seals. -/
  sealed : ∀ a b, a ∈ g.drivers b → ∃ c d, g.component? a = some c ∧ g.component? b = some d ∧
    Sealing.fault? a b c d = none
  /-- The list of inputs holds the input nodes, ascending. -/
  inputs_eq : g.inputs = g.ids.filter fun id => (g.component? id).any Component.isInput
  /-- The list of outputs holds the output nodes, ascending. -/
  outputs_eq : g.outputs = g.ids.filter fun id => (g.component? id).any Component.isOutput
  /-- An input child feeds its circuit and has its place in the block of the circuit. -/
  circuitInput : ∀ k side owner, g.component? k = some (.circuitInput side owner) →
    k ∈ g.drivers owner ∧ ∃ t i, g.component? owner = some (.circuit t) ∧
      t.inputs[i]? = some side ∧ k = owner + 1 + i
  /-- An output child is fed by its circuit and has its place in the block of the circuit. -/
  circuitOutput : ∀ k side owner, g.component? k = some (.circuitOutput side owner) →
    owner ∈ g.drivers k ∧ ∃ t i, g.component? owner = some (.circuit t) ∧
      t.outputs[i]? = some side ∧ k = owner + 1 + t.inputs.length + i
  /-- A circuit has a child for each input of its table. -/
  inputChild : ∀ c t i side, g.component? c = some (.circuit t) → t.inputs[i]? = some side →
    g.component? (c + 1 + i) = some (.circuitInput side c)
  /-- A circuit has a child for each output of its table. -/
  outputChild : ∀ c t i side, g.component? c = some (.circuit t) → t.outputs[i]? = some side →
    g.component? (c + 1 + t.inputs.length + i) = some (.circuitOutput side c)
  /-- There are no wires in a reduced netlist. -/
  no_wire : stage = .reduced → ∀ id, g.component? id ≠ some .wire

namespace WellFormed

theorem lt_of_mem_drivers (h : g.WellFormed) (edge : a ∈ g.drivers b) :
    a < g.size ∧ b < g.size := by
  obtain ⟨c, d, ha, hb, -⟩ := h.sealed a b edge
  exact ⟨lt_size_of_component? ha, lt_size_of_component? hb⟩

theorem mem_inputs (h : g.WellFormed) : id ∈ g.inputs ↔ ∃ f, g.component? id = some (.input f) := by
  rw [h.inputs_eq, List.mem_filter, mem_ids, ← component?_isSome]
  cases hc : g.component? id with
  | none => simp
  | some c => cases c <;> simp [Component.isInput]

theorem mem_outputs (h : g.WellFormed) :
    id ∈ g.outputs ↔ ∃ f, g.component? id = some (.output f) := by
  rw [h.outputs_eq, List.mem_filter, mem_ids, ← component?_isSome]
  cases hc : g.component? id with
  | none => simp
  | some c => cases c <;> simp [Component.isOutput]

/-- What drives a circuit is an input child of it. -/
theorem circuitInput_of_drives (h : g.WellFormed) {t : TruthTable}
    (hc : g.component? c = some (.circuit t)) (edge : a ∈ g.drivers c) :
    ∃ side, g.component? a = some (.circuitInput side c) := by
  obtain ⟨x, y, hx, hy, legal⟩ := h.sealed a c edge
  rw [hc, Option.some.injEq] at hy
  subst hy
  obtain ⟨side, rfl⟩ := Sealing.fault?_circuit_iff.1 legal
  exact ⟨side, hx⟩

/-- What drives an output child is its circuit. -/
theorem eq_owner_of_drives (h : g.WellFormed) {side : Side} {owner : Nat}
    (hk : g.component? b = some (.circuitOutput side owner)) (edge : a ∈ g.drivers b) :
    a = owner := by
  obtain ⟨x, y, -, hy, legal⟩ := h.sealed a b edge
  rw [hk, Option.some.injEq] at hy
  subst hy
  exact (Sealing.fault?_circuitOutput_iff.1 legal).1.symm

/-- A circuit has one input child for each side. -/
theorem circuitInput_unique (h : g.WellFormed) {owner : Nat} {side : Side}
    (ha : g.component? a = some (.circuitInput side owner))
    (hb : g.component? b = some (.circuitInput side owner)) : a = b := by
  obtain ⟨-, t, i, ho, hi, rfl⟩ := h.circuitInput a side owner ha
  obtain ⟨-, u, j, ho', hj, rfl⟩ := h.circuitInput b side owner hb
  rw [ho, Option.some.injEq, Component.circuit.injEq] at ho'
  subst ho'
  -- The table names each side once, and the place in the block follows.
  obtain rfl : i = j := TruthTable.place_unique t.inputs_nodup hi hj
  rfl

/-- A circuit has one output child for each side. -/
theorem circuitOutput_unique (h : g.WellFormed) {owner : Nat} {side : Side}
    (ha : g.component? a = some (.circuitOutput side owner))
    (hb : g.component? b = some (.circuitOutput side owner)) : a = b := by
  obtain ⟨-, t, i, ho, hi, rfl⟩ := h.circuitOutput a side owner ha
  obtain ⟨-, u, j, ho', hj, rfl⟩ := h.circuitOutput b side owner hb
  rw [ho, Option.some.injEq, Component.circuit.injEq] at ho'
  subst ho'
  obtain rfl : i = j := TruthTable.place_unique t.outputs_nodup hi hj
  rfl

/-- **The input children of a circuit are listed**, each with its side. -/
theorem circuitInputs_eq (h : g.WellFormed) {t : TruthTable}
    (hc : g.component? c = some (.circuit t)) :
    ∃ children, g.circuitInputs c = .ok children ∧ ∀ side child,
      (side, child) ∈ children ↔ g.component? child = some (.circuitInput side c) := by
  refine ⟨(g.drivers c).filterMap fun child => (g.inputSide? child).map (·, child), ?_,
    fun side child => ?_⟩
  · -- the children are looked for among the drivers
    rw [circuitInputs, circuitTable, component_eq_ok_iff.2 hc]
    rfl
  · rw [List.mem_filterMap]
    refine ⟨?_, fun hchild => ?_⟩
    · -- a driver of a circuit is one of its input children
      rintro ⟨k, edge, eq⟩
      obtain ⟨side', hk⟩ := h.circuitInput_of_drives hc edge
      rw [inputSide?, hk, Option.map_some, Option.some.injEq, Prod.mk.injEq] at eq
      rw [← eq.1, ← eq.2]
      exact hk
    · -- and each of them drives it
      refine ⟨child, (h.circuitInput child side c hchild).1, ?_⟩
      rw [inputSide?, hchild, Option.map_some]

/-- **The output child of a circuit is found** on each output side of the table. -/
theorem circuitOutput_eq (h : g.WellFormed) {t : TruthTable}
    (hc : g.component? c = some (.circuit t)) {side : Side} (output : side ∈ t.outputs) :
    ∃ child, g.circuitOutput c side = .ok child ∧
      g.component? child = some (.circuitOutput side c) := by
  obtain ⟨i, hi⟩ := List.mem_iff_getElem?.1 output
  have stands := h.outputChild c t i side hc hi
  have some_found :
      ((g.successors c).find? fun child => g.outputSide? child == some side).isSome := by
    rw [List.find?_isSome]
    refine ⟨_, (h.mirrored _ _).2 (h.circuitOutput _ _ _ stands).1, ?_⟩
    rw [outputSide?, stands]
    exact beq_self_eq_true _
  obtain ⟨child, found⟩ := Option.isSome_iff_exists.1 some_found
  refine ⟨child, ?_, ?_⟩
  · -- it is the one that the search returns
    rw [Netlist.circuitOutput, circuitTable, component_eq_ok_iff.2 hc]
    simp only [bind, Except.bind, found]
  -- A successor of the circuit with this side is a child, and of no other circuit.
  · have edge := (h.mirrored _ _).1 (List.mem_of_find?_eq_some found)
    have hside : g.outputSide? child = some side := by
      simpa using List.find?_some found
    unfold outputSide? at hside
    split at hside
    case h_1 side' owner hchild =>
      obtain rfl := Option.some.inj hside
      rw [hchild, h.eq_owner_of_drives hchild edge]
    case h_2 => cases hside

theorem empty : (empty : Netlist stage).WellFormed where
  toEdgesKept := .empty
  sealed := fun a b edge => by simp [Netlist.empty, drivers] at edge
  inputs_eq := rfl
  outputs_eq := rfl
  circuitInput := fun k side owner hk => by simp [Netlist.empty, component?] at hk
  circuitOutput := fun k side owner hk => by simp [Netlist.empty, component?] at hk
  inputChild := fun c t i side hc => by simp [Netlist.empty, component?] at hc
  outputChild := fun c t i side hc => by simp [Netlist.empty, component?] at hc
  no_wire := fun _ id => by simp [Netlist.empty, component?]

/-- Adding a node that is no part of a circuit. -/
theorem push {c : Component} (h : g.WellFormed) (free : c.drivesFreely = true)
    (driven : c.drivenFreely = true) (wired : stage = .reduced → c ≠ .wire) :
    (g.push c).WellFormed where
  toEdgesKept := h.toEdgesKept.push c
  sealed := by
    intro a b edge
    rw [drivers_push] at edge
    obtain ⟨ha, hb⟩ := h.lt_of_mem_drivers edge
    rw [component?_push_of_lt ha, component?_push_of_lt hb]
    exact h.sealed a b edge
  inputs_eq := by
    rw [ids_filter_push, ← h.inputs_eq]
    cases c <;> simp [Netlist.push, Component.isInput]
  outputs_eq := by
    rw [ids_filter_push, ← h.outputs_eq]
    cases c <;> simp [Netlist.push, Component.isOutput]
  -- The new node is no input child, for these do not drive freely.
  circuitInput := by
    intro k side owner hk
    rcases component?_push_cases hk with old | ⟨-, rfl⟩
    · obtain ⟨edge, t, i, ho, hi, eq⟩ := h.circuitInput k side owner old
      exact ⟨by rwa [drivers_push], t, i, component?_push_of_some ho, hi, eq⟩
    · cases free
  -- Nor is it an output child, for these are not driven freely.
  circuitOutput := by
    intro k side owner hk
    rcases component?_push_cases hk with old | ⟨-, rfl⟩
    · obtain ⟨edge, t, i, ho, hi, eq⟩ := h.circuitOutput k side owner old
      exact ⟨by rwa [drivers_push], t, i, component?_push_of_some ho, hi, eq⟩
    · cases driven
  -- Nor is it a circuit, so all circuits are old and have their children.
  inputChild := by
    intro k t i side hk hi
    rcases component?_push_cases hk with old | ⟨-, rfl⟩
    · exact component?_push_of_some (h.inputChild k t i side old hi)
    · cases free
  outputChild := by
    intro k t i side hk hi
    rcases component?_push_cases hk with old | ⟨-, rfl⟩
    · exact component?_push_of_some (h.outputChild k t i side old hi)
    · cases free
  no_wire := by
    intro reduced id hk
    rcases component?_push_cases hk with old | ⟨-, eq⟩
    · exact h.no_wire reduced id old
    · exact wired reduced eq.symm

/-- Adding an edge that the seals allow. -/
theorem link {c d : Component} (h : g.WellFormed) (ha : g.component? a = some c)
    (hb : g.component? b = some d) (legal : Sealing.fault? a b c d = none) :
    (g.link a b).WellFormed where
  toEdgesKept := h.toEdgesKept.link (lt_size_of_component? ha) (lt_size_of_component? hb)
  sealed := by
    intro x y edge
    rw [component?_link, component?_link]
    rcases (mem_drivers_link (lt_size_of_component? hb)).1 edge with old | ⟨rfl, rfl⟩
    · -- an edge that was there before
      exact h.sealed x y old
    · -- the new edge, which the seals let through
      exact ⟨c, d, ha, hb, legal⟩
  -- An edge changes no component, so the rest is as it was.
  inputs_eq := by
    simp only [component?_link, ids, size_link]
    exact h.inputs_eq
  outputs_eq := by
    simp only [component?_link, ids, size_link]
    exact h.outputs_eq
  circuitInput := by
    intro k side owner hk
    rw [component?_link] at hk
    obtain ⟨edge, t, i, ho, hi, eq⟩ := h.circuitInput k side owner hk
    refine ⟨(mem_drivers_link (lt_size_of_component? hb)).2 (.inl edge), t, i, ?_, hi, eq⟩
    rwa [component?_link]
  circuitOutput := by
    intro k side owner hk
    rw [component?_link] at hk
    obtain ⟨edge, t, i, ho, hi, eq⟩ := h.circuitOutput k side owner hk
    refine ⟨(mem_drivers_link (lt_size_of_component? hb)).2 (.inl edge), t, i, ?_, hi, eq⟩
    rwa [component?_link]
  inputChild := by
    intro k t i side hk hi
    rw [component?_link] at hk ⊢
    exact h.inputChild k t i side hk hi
  outputChild := by
    intro k t i side hk hi
    rw [component?_link] at hk ⊢
    exact h.outputChild k t i side hk hi
  no_wire := by
    intro reduced id
    rw [component?_link]
    exact h.no_wire reduced id

end WellFormed

end Netlist

end TorchLogic
