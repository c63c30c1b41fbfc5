import TorchLogic.Proofs.Netlist.WellFormed

/-!
# What a construction call does

A call to build a netlist is an `Edit`, and `Netlist.edited` is the netlist after it: one that fails
leaves everything as it is. Whatever the edit, a well-formed netlist stays well formed
(`Netlist.WellFormed.edited`).

Only a nested circuit takes more than a single `push` or `link`, and the netlists that its addition
passes through are not well formed: there the children are still missing. So its effect is first
described as a whole. The children of one kind are added by one and the same fold
(`Netlist.AddsChild`), which gives the components and the edges of the new block
(`component?_addCircuit`, `mem_drivers_addCircuit`).
-/

namespace TorchLogic.Netlist

variable {stage : Stage} {g : Netlist stage} {a b c id : Nat}

/-! ### Adding the children of a circuit -/

/-- **A step that adds one child of the circuit `c`**: its component, and its edge as a relation
between the two ends that depends on the number of the child. -/
structure AddsChild (c : Nat) (kind : Side → Component) (edge : Nat → Nat → Nat → Prop)
    (step : Netlist stage → Side → Netlist stage) : Prop where
  /-- There is one node more. -/
  size : ∀ g side, (step g side).size = g.size + 1
  /-- It is the child. -/
  component? : ∀ g side id,
    (step g side).component? id = if id = g.size then some (kind side) else g.component? id
  /-- Its edge is the only new one. -/
  drivers : ∀ g side a b, c < g.size →
    (a ∈ (step g side).drivers b ↔ a ∈ g.drivers b ∨ edge g.size a b)
  /-- Edges stay in order. -/
  edges : ∀ g side, c < g.size → g.EdgesKept → (step g side).EdgesKept
  /-- A child is no input. -/
  inputs : ∀ g side, (step g side).inputs = g.inputs
  /-- A child is no output. -/
  outputs : ∀ g side, (step g side).outputs = g.outputs

theorem addsChild_addCircuitInput (c : Nat) :
    @AddsChild stage c (.circuitInput · c) (fun k a b => a = k ∧ b = c)
      fun g side => g.addCircuitInput c side where
  size := fun g side => by simp [addCircuitInput]
  component? := fun g side id => by rw [addCircuitInput, component?_link, component?_push]
  drivers := by
    intro g side a b hc
    rw [addCircuitInput, mem_drivers_link (by rw [size_push]; omega), drivers_push]
  edges := by
    intro g side hc h
    rw [addCircuitInput]
    exact (h.push _).link (by rw [size_push]; omega) (by rw [size_push]; omega)
  inputs := fun g side => by simp [addCircuitInput, link, push, Component.isInput]
  outputs := fun g side => by simp [addCircuitInput, link, push, Component.isOutput]

theorem addsChild_addCircuitOutput (c : Nat) :
    @AddsChild stage c (.circuitOutput · c) (fun k a b => a = c ∧ b = k)
      fun g side => g.addCircuitOutput c side where
  size := fun g side => by simp [addCircuitOutput]
  component? := fun g side id => by rw [addCircuitOutput, component?_link, component?_push]
  drivers := by
    intro g side a b hc
    rw [addCircuitOutput, mem_drivers_link (by rw [size_push]; omega), drivers_push]
  edges := by
    intro g side hc h
    rw [addCircuitOutput]
    exact (h.push _).link (by rw [size_push]; omega) (by rw [size_push]; omega)
  inputs := fun g side => by simp [addCircuitOutput, link, push, Component.isInput]
  outputs := fun g side => by simp [addCircuitOutput, link, push, Component.isOutput]

namespace AddsChild

variable {kind : Side → Component} {edge : Nat → Nat → Nat → Prop}
  {step : Netlist stage → Side → Netlist stage}

theorem size_foldl (h : AddsChild c kind edge step) (sides : List Side) (g : Netlist stage) :
    (sides.foldl step g).size = g.size + sides.length := by
  induction sides generalizing g with
  | nil => rfl
  | cons side rest ih =>
    rw [List.foldl_cons, ih, h.size, List.length_cons]
    omega

theorem component?_foldl (h : AddsChild c kind edge step) (sides : List Side) (g : Netlist stage)
    (id : Nat) :
    (sides.foldl step g).component? id =
      if id < g.size then g.component? id else sides[id - g.size]?.map kind := by
  induction sides generalizing g with
  | nil =>
    split
    case isTrue => rfl
    case isFalse out =>
      rw [List.foldl_nil, List.getElem?_nil, Option.map_none, ← Option.not_isSome_iff_eq_none,
        component?_isSome]
      exact out
  | cons side rest ih =>
    rw [List.foldl_cons, ih, h.size, h.component?]
    -- An old node, the child just added, or one that the rest adds.
    rcases Nat.lt_trichotomy id g.size with lt | rfl | gt
    · rw [if_pos (show id < g.size + 1 by omega), if_neg (show ¬ id = g.size by omega), if_pos lt]
    · rw [if_pos (Nat.lt_succ_self _), if_pos rfl, if_neg (Nat.lt_irrefl _), Nat.sub_self]
      rfl
    · rw [if_neg (show ¬ id < g.size + 1 by omega), if_neg (show ¬ id < g.size by omega)]
      obtain ⟨k, rfl⟩ : ∃ k, id = g.size + 1 + k := ⟨id - g.size - 1, by omega⟩
      rw [Nat.add_sub_cancel_left, show g.size + 1 + k - g.size = k + 1 by omega,
        List.getElem?_cons_succ]

theorem mem_drivers_foldl (h : AddsChild c kind edge step) (sides : List Side) {g : Netlist stage}
    (hc : c < g.size) :
    a ∈ (sides.foldl step g).drivers b ↔
      a ∈ g.drivers b ∨ ∃ i < sides.length, edge (g.size + i) a b := by
  induction sides generalizing g with
  | nil => simp
  | cons side rest ih =>
    rw [List.foldl_cons, ih (by rw [h.size]; omega), h.drivers g side a b hc, h.size, or_assoc]
    refine or_congr_right ⟨?_, ?_⟩
    -- Counted from the node added first, the others come one place later.
    · rintro (new | ⟨i, lt, new⟩)
      · exact ⟨0, by simp, new⟩
      · exact ⟨i + 1, by simpa using lt, by rwa [show g.size + (i + 1) = g.size + 1 + i by omega]⟩
    · rintro ⟨i, lt, new⟩
      cases i with
      | zero => exact .inl new
      | succ i =>
        refine .inr ⟨i, by simpa using lt, ?_⟩
        rwa [show g.size + 1 + i = g.size + (i + 1) by omega]

theorem edgesKept_foldl (h : AddsChild c kind edge step) (sides : List Side) {g : Netlist stage}
    (hc : c < g.size) (kept : g.EdgesKept) : (sides.foldl step g).EdgesKept := by
  induction sides generalizing g with
  | nil => exact kept
  | cons side rest ih => exact ih (by rw [h.size]; omega) (h.edges g side hc kept)

theorem inputs_foldl (h : AddsChild c kind edge step) (sides : List Side) (g : Netlist stage) :
    (sides.foldl step g).inputs = g.inputs := by
  induction sides generalizing g with
  | nil => rfl
  | cons side rest ih => rw [List.foldl_cons, ih, h.inputs]

theorem outputs_foldl (h : AddsChild c kind edge step) (sides : List Side) (g : Netlist stage) :
    (sides.foldl step g).outputs = g.outputs := by
  induction sides generalizing g with
  | nil => rfl
  | cons side rest ih => rw [List.foldl_cons, ih, h.outputs]

end AddsChild

/-! ### Adding a circuit -/

/-- The netlist after the circuit node and its input children. -/
def withInputs (g : Netlist stage) (t : TruthTable) : Netlist stage :=
  t.inputs.foldl (fun h side => h.addCircuitInput g.size side) (g.push (.circuit t))

theorem addCircuit_snd (g : Netlist stage) (t : TruthTable) :
    (g.addCircuit t).2 =
      t.outputs.foldl (fun h side => h.addCircuitOutput g.size side) (g.withInputs t) := rfl

theorem size_withInputs (g : Netlist stage) (t : TruthTable) :
    (g.withInputs t).size = g.size + 1 + t.inputs.length := by
  rw [withInputs, (addsChild_addCircuitInput g.size).size_foldl, size_push]

@[simp] theorem size_addCircuit (g : Netlist stage) (t : TruthTable) :
    (g.addCircuit t).2.size = g.size + 1 + t.inputs.length + t.outputs.length := by
  rw [addCircuit_snd, (addsChild_addCircuitOutput g.size).size_foldl, size_withInputs]

/-- **The components after a circuit is added**: the old ones, then its block. -/
theorem component?_addCircuit (g : Netlist stage) (t : TruthTable) (id : Nat) :
    (g.addCircuit t).2.component? id =
      if id < g.size then g.component? id
      else if id = g.size then some (.circuit t)
      else if id < g.size + 1 + t.inputs.length then
        t.inputs[id - (g.size + 1)]?.map (.circuitInput · g.size)
      else t.outputs[id - (g.size + 1 + t.inputs.length)]?.map (.circuitOutput · g.size) := by
  rw [addCircuit_snd, (addsChild_addCircuitOutput g.size).component?_foldl, size_withInputs,
    withInputs, (addsChild_addCircuitInput g.size).component?_foldl, size_push, component?_push]
  rcases Nat.lt_trichotomy id g.size with lt | rfl | gt
  · -- an old node
    rw [if_pos (by omega), if_pos (by omega), if_neg (by omega), if_pos lt]
  · -- the circuit
    rw [if_pos (by omega), if_pos (by omega), if_pos rfl, if_neg (by omega), if_pos rfl]
  · -- one of its children, which are added after it
    simp only [show ¬ id < g.size + 1 by omega, show ¬ id < g.size by omega,
      show ¬ id = g.size by omega, if_false]

/-- **The edges after a circuit is added**: the old ones, those from its input children and those to
its output children. -/
theorem mem_drivers_addCircuit (g : Netlist stage) (t : TruthTable) :
    a ∈ (g.addCircuit t).2.drivers b ↔ a ∈ g.drivers b
      ∨ (∃ i < t.inputs.length, a = g.size + 1 + i ∧ b = g.size)
      ∨ ∃ i < t.outputs.length, a = g.size ∧ b = g.size + 1 + t.inputs.length + i := by
  rw [addCircuit_snd, (addsChild_addCircuitOutput g.size).mem_drivers_foldl _
      (by rw [size_withInputs]; omega), size_withInputs, withInputs,
    (addsChild_addCircuitInput g.size).mem_drivers_foldl _ (by rw [size_push]; omega), size_push,
    drivers_push, or_assoc]

theorem inputs_addCircuit (g : Netlist stage) (t : TruthTable) :
    (g.addCircuit t).2.inputs = g.inputs := by
  rw [addCircuit_snd, (addsChild_addCircuitOutput g.size).inputs_foldl, withInputs,
    (addsChild_addCircuitInput g.size).inputs_foldl]
  simp [push, Component.isInput]

theorem outputs_addCircuit (g : Netlist stage) (t : TruthTable) :
    (g.addCircuit t).2.outputs = g.outputs := by
  rw [addCircuit_snd, (addsChild_addCircuitOutput g.size).outputs_foldl, withInputs,
    (addsChild_addCircuitInput g.size).outputs_foldl]
  simp [push, Component.isOutput]

theorem EdgesKept.addCircuit (h : g.EdgesKept) (t : TruthTable) : (g.addCircuit t).2.EdgesKept := by
  rw [addCircuit_snd]
  refine (addsChild_addCircuitOutput g.size).edgesKept_foldl _ (by rw [size_withInputs]; omega) ?_
  exact (addsChild_addCircuitInput g.size).edgesKept_foldl _ (by rw [size_push]; omega) (h.push _)

theorem component?_addCircuit_of_lt {t : TruthTable} (h : id < g.size) :
    (g.addCircuit t).2.component? id = g.component? id := by
  rw [component?_addCircuit, if_pos h]

theorem component?_addCircuit_circuit (g : Netlist stage) (t : TruthTable) :
    (g.addCircuit t).2.component? g.size = some (.circuit t) := by
  rw [component?_addCircuit, if_neg (Nat.lt_irrefl _), if_pos rfl]

theorem component?_addCircuit_input {t : TruthTable} {i : Nat} (h : i < t.inputs.length) :
    (g.addCircuit t).2.component? (g.size + 1 + i) = some (.circuitInput t.inputs[i] g.size) := by
  rw [component?_addCircuit, if_neg (by omega), if_neg (by omega), if_pos (by omega),
    Nat.add_sub_cancel_left, List.getElem?_eq_getElem h]
  rfl

theorem component?_addCircuit_output {t : TruthTable} {i : Nat} (h : i < t.outputs.length) :
    (g.addCircuit t).2.component? (g.size + 1 + t.inputs.length + i) =
      some (.circuitOutput t.outputs[i] g.size) := by
  rw [component?_addCircuit, if_neg (by omega), if_neg (by omega), if_neg (by omega),
    Nat.add_sub_cancel_left, List.getElem?_eq_getElem h]
  rfl

/-- **Every node after a circuit is added** is an old one, the circuit, or one of its children. -/
theorem component?_addCircuit_cases {t : TruthTable} {x : Component}
    (h : (g.addCircuit t).2.component? id = some x) :
    id < g.size ∧ g.component? id = some x
      ∨ id = g.size ∧ x = .circuit t
      ∨ (∃ i, ∃ lt : i < t.inputs.length, id = g.size + 1 + i ∧
          x = .circuitInput t.inputs[i] g.size)
      ∨ ∃ i, ∃ lt : i < t.outputs.length, id = g.size + 1 + t.inputs.length + i ∧
          x = .circuitOutput t.outputs[i] g.size := by
  have bound := lt_size_of_component? h
  rw [size_addCircuit] at bound
  rcases Nat.lt_trichotomy id g.size with lt | rfl | gt
  · -- an old node
    rw [component?_addCircuit_of_lt lt] at h
    exact .inl ⟨lt, h⟩
  · -- the circuit itself
    rw [component?_addCircuit_circuit] at h
    exact .inr (.inl ⟨rfl, (Option.some.inj h).symm⟩)
  · by_cases lt : id < g.size + 1 + t.inputs.length
    · -- an input child, which come right after the circuit
      obtain ⟨i, rfl⟩ : ∃ i, id = g.size + 1 + i := ⟨id - (g.size + 1), by omega⟩
      have hi : i < t.inputs.length := by omega
      rw [component?_addCircuit_input hi] at h
      exact .inr (.inr (.inl ⟨i, hi, rfl, (Option.some.inj h).symm⟩))
    · -- an output child, which come last
      obtain ⟨i, rfl⟩ : ∃ i, id = g.size + 1 + t.inputs.length + i :=
        ⟨id - (g.size + 1 + t.inputs.length), by omega⟩
      have hi : i < t.outputs.length := by omega
      rw [component?_addCircuit_output hi] at h
      exact .inr (.inr (.inr ⟨i, hi, rfl, (Option.some.inj h).symm⟩))

theorem ids_addCircuit_filter (g : Netlist stage) (t : TruthTable) {p : Component → Bool}
    (circuit : p (.circuit t) = false) (input : ∀ side, p (.circuitInput side g.size) = false)
    (output : ∀ side, p (.circuitOutput side g.size) = false) :
    ((g.addCircuit t).2.ids.filter fun id => ((g.addCircuit t).2.component? id).any p) =
      g.ids.filter fun id => (g.component? id).any p := by
  have split : (g.addCircuit t).2.ids =
      g.ids ++ (List.range (1 + t.inputs.length + t.outputs.length)).map (g.size + ·) := by
    simp only [ids, size_addCircuit, ← List.range_add, Nat.add_assoc]
  rw [split, List.filter_append]
  have none_new : (((List.range (1 + t.inputs.length + t.outputs.length)).map (g.size + ·)).filter
      fun id => ((g.addCircuit t).2.component? id).any p) = [] := by
    rw [List.filter_eq_nil_iff]
    intro id mem
    obtain ⟨k, -, rfl⟩ := List.mem_map.1 mem
    cases hx : (g.addCircuit t).2.component? (g.size + k) with
    | none => simp
    | some x =>
      rcases component?_addCircuit_cases hx with
        ⟨lt, -⟩ | ⟨-, rfl⟩ | ⟨i, _, -, rfl⟩ | ⟨i, _, -, rfl⟩
      · omega
      · simp [circuit]
      · simp [input]
      · simp [output]
  -- No node of the block passes the test, so only the old ones count.
  rw [none_new, List.append_nil]
  refine List.filter_congr fun id mem => ?_
  rw [component?_addCircuit_of_lt (mem_ids.1 mem)]

namespace WellFormed

theorem addCircuit (h : g.WellFormed) (t : TruthTable) : (g.addCircuit t).2.WellFormed where
  toEdgesKept := h.toEdgesKept.addCircuit t
  sealed := by
    intro a b edge
    rcases (mem_drivers_addCircuit g t).1 edge with old | ⟨i, lt, rfl, rfl⟩ | ⟨i, lt, rfl, rfl⟩
    · -- an edge of the old netlist
      obtain ⟨ha, hb⟩ := h.lt_of_mem_drivers old
      rw [component?_addCircuit_of_lt ha, component?_addCircuit_of_lt hb]
      exact h.sealed a b old
    · -- the edge from an input child to the circuit
      exact ⟨_, _, component?_addCircuit_input lt, component?_addCircuit_circuit g t,
        if_pos rfl⟩
    · -- the edge from the circuit to an output child
      exact ⟨_, _, component?_addCircuit_circuit g t, component?_addCircuit_output lt,
        if_pos rfl⟩
  inputs_eq := by
    rw [inputs_addCircuit, ids_addCircuit_filter g t rfl (fun _ => rfl) fun _ => rfl]
    exact h.inputs_eq
  outputs_eq := by
    rw [outputs_addCircuit, ids_addCircuit_filter g t rfl (fun _ => rfl) fun _ => rfl]
    exact h.outputs_eq
  -- A child is an old one with its old owner, or one of the new circuit.
  circuitInput := by
    intro k side owner hk
    rcases component?_addCircuit_cases hk with
      ⟨-, old⟩ | ⟨-, new⟩ | ⟨i, lt, rfl, new⟩ | ⟨i, lt, -, new⟩
    · obtain ⟨edge, u, i, ho, hi, eq⟩ := h.circuitInput k side owner old
      refine ⟨(mem_drivers_addCircuit g t).2 (.inl edge), u, i, ?_, hi, eq⟩
      rwa [component?_addCircuit_of_lt (lt_size_of_component? ho)]
    · cases new
    · cases new
      exact ⟨(mem_drivers_addCircuit g t).2 (.inr (.inl ⟨i, lt, rfl, rfl⟩)), t, i,
        component?_addCircuit_circuit g t, List.getElem?_eq_getElem lt, rfl⟩
    · cases new
  circuitOutput := by
    intro k side owner hk
    rcases component?_addCircuit_cases hk with
      ⟨-, old⟩ | ⟨-, new⟩ | ⟨i, lt, -, new⟩ | ⟨i, lt, rfl, new⟩
    · obtain ⟨edge, u, i, ho, hi, eq⟩ := h.circuitOutput k side owner old
      refine ⟨(mem_drivers_addCircuit g t).2 (.inl edge), u, i, ?_, hi, eq⟩
      rwa [component?_addCircuit_of_lt (lt_size_of_component? ho)]
    · cases new
    · cases new
    · cases new
      exact ⟨(mem_drivers_addCircuit g t).2 (.inr (.inr ⟨i, lt, rfl, rfl⟩)), t, i,
        component?_addCircuit_circuit g t, List.getElem?_eq_getElem lt, rfl⟩
  -- A circuit is an old one with its old children, or the new one.
  inputChild := by
    intro k u i side hk hi
    rcases component?_addCircuit_cases hk with
      ⟨-, old⟩ | ⟨rfl, new⟩ | ⟨j, _, -, new⟩ | ⟨j, _, -, new⟩
    · have child := h.inputChild k u i side old hi
      rwa [component?_addCircuit_of_lt (lt_size_of_component? child)]
    · cases new
      obtain ⟨lt, rfl⟩ := List.getElem?_eq_some_iff.1 hi
      exact component?_addCircuit_input lt
    · cases new
    · cases new
  outputChild := by
    intro k u i side hk hi
    rcases component?_addCircuit_cases hk with
      ⟨-, old⟩ | ⟨rfl, new⟩ | ⟨j, _, -, new⟩ | ⟨j, _, -, new⟩
    · have child := h.outputChild k u i side old hi
      rwa [component?_addCircuit_of_lt (lt_size_of_component? child)]
    · cases new
      obtain ⟨lt, rfl⟩ := List.getElem?_eq_some_iff.1 hi
      exact component?_addCircuit_output lt
    · cases new
    · cases new
  no_wire := by
    intro reduced id eq
    rcases component?_addCircuit_cases eq with
      ⟨-, old⟩ | ⟨-, new⟩ | ⟨j, _, -, new⟩ | ⟨j, _, -, new⟩
    · exact h.no_wire reduced id old
    · cases new
    · cases new
    · cases new

end WellFormed

/-! ### Edits -/

/-- **A call that builds a netlist.** -/
inductive Edit
  | input (socket : Socket)
  | output (socket : Socket)
  | wire
  | torch
  | circuit (table : TruthTable)
  | connect (source target : NodeId)
  | joinWires (a b : NodeId)
  deriving DecidableEq

/-- The netlist after a call, or why the call fails. -/
def Edit.apply (g : Netlist stage) : Edit → Except NetlistError (Netlist stage)
  | input socket => (g.addInput socket).map Prod.snd
  | output socket => (g.addOutput socket).map Prod.snd
  | wire => g.addWire.map Prod.snd
  | torch => .ok g.addTorch.2
  | circuit t => .ok (g.addCircuit t).2
  | connect source target => g.connect source target
  | joinWires a b => g.joinWires a b

/-- **The netlist after a call**, which is as it was if the call fails. -/
def edited (g : Netlist stage) (e : Edit) : Netlist stage :=
  match e.apply g with
  | .ok h => h
  | .error _ => g

/-- A connection succeeds between two nodes with an edge that the seals allow. -/
theorem connect_eq_ok_iff {r : Netlist stage} :
    g.connect a b = .ok r ↔ ∃ x y, g.component? a = some x ∧ g.component? b = some y ∧
      Sealing.fault? a b x y = none ∧ r = g.link a b := by
  unfold connect component
  cases g.component? a with
  | none => simp [bind, Except.bind]
  | some x =>
    cases g.component? b with
    | none => simp [bind, Except.bind]
    | some y =>
      simp only [bind, Except.bind, Option.some.injEq]
      cases hf : Sealing.fault? a b x y <;> simp [hf, eq_comm]

/-- Two wires can be joined where there are wires. -/
theorem joinWires_eq_ok_iff {r : Netlist stage} :
    g.joinWires a b = .ok r ↔ stage = .wired ∧ g.component? a = some .wire ∧
      g.component? b = some .wire ∧ r = (g.link a b).link b a := by
  -- Each of the two nodes is asked whether it is a wire.
  have expect (id : Nat) : g.expectWire id = .ok () ↔ g.component? id = some .wire := by
    unfold expectWire component
    cases g.component? id with
    | none => simp [bind, Except.bind]
    | some x => cases x <;> simp [bind, Except.bind, Component.isWire]
  unfold joinWires
  by_cases wired : stage = .wired
  · rw [if_pos wired, ← expect, ← expect]
    cases ha : g.expectWire a with
    | error e => simp [bind, Except.bind]
    | ok u =>
      cases hb : g.expectWire b with
      | error e => simp [bind, Except.bind]
      | ok v => simp [bind, Except.bind, wired, eq_comm]
  · simp [wired]

namespace WellFormed

theorem connect {r : Netlist stage} (h : g.WellFormed) (ok : g.connect a b = .ok r) :
    r.WellFormed := by
  obtain ⟨x, y, ha, hb, legal, rfl⟩ := connect_eq_ok_iff.1 ok
  exact h.link ha hb legal

theorem joinWires {r : Netlist stage} (h : g.WellFormed) (ok : g.joinWires a b = .ok r) :
    r.WellFormed := by
  obtain ⟨-, ha, hb, rfl⟩ := joinWires_eq_ok_iff.1 ok
  -- Wires are never sealed, so one edge after the other is allowed.
  have first : (g.link a b).WellFormed := h.link ha hb rfl
  exact first.link (by rw [component?_link, hb]) (by rw [component?_link, ha]) rfl

theorem apply {r : Netlist stage} {e : Edit} (h : g.WellFormed) (ok : e.apply g = .ok r) :
    r.WellFormed := by
  cases e with
  | input socket =>
    simp only [Edit.apply, addInput] at ok
    split at ok <;> cases ok
    exact h.push rfl rfl fun _ => Component.noConfusion
  | output socket =>
    simp only [Edit.apply, addOutput] at ok
    split at ok <;> cases ok
    exact h.push rfl rfl fun _ => Component.noConfusion
  | wire =>
    simp only [Edit.apply, addWire] at ok
    split at ok
    case isFalse => cases ok
    case isTrue wired =>
      cases ok
      exact h.push rfl rfl fun reduced => by simp [wired] at reduced
  | torch =>
    cases ok
    exact h.push rfl rfl fun _ => Component.noConfusion
  | circuit t =>
    cases ok
    exact h.addCircuit t
  | connect source target => exact h.connect ok
  | joinWires a b => exact h.joinWires ok

/-- **Every call keeps a netlist well formed**, whether it fails or not. -/
theorem edited (h : g.WellFormed) (e : Edit) : (g.edited e).WellFormed := by
  unfold Netlist.edited
  split
  case h_1 ok =>
    exact h.apply ok
  case h_2 => exact h

end WellFormed

end TorchLogic.Netlist
