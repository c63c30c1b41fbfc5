import Mathlib.Data.List.Permutation
import Mathlib.Data.List.Sort
import TorchLogic.Proofs.Netlist.Reduce

/-!
# What a netlist keeps true about itself

A netlist holds the same facts in several places: an edge at both of its ends, an input or an output
of the board in a list and in a node, a nested circuit in its table and in its children. These
places never disagree (`Netlist.Consistent`), however the netlist was built
(`Netlist.consistent_of_built`).

Most of it is read off `Netlist.WellFormed`, which is what construction preserves. There the
children of a circuit are known by the block of numbers that they have, and it follows that the
drivers of a circuit are that block (`WellFormed.drivers_circuit`), and so are its successors
(`WellFormed.successors_circuit`).

What the seals say about a node is not in the node itself but in the calls: a board input stands for
a socket that is an input because no call adds another (`Built.mem_calls`). So a netlist is
considered together with the calls that have built it (`Netlist.Built`).
-/

namespace TorchLogic

/-- **The call that adds a board node**: the one with a socket in the role of the node. -/
def Component.boardCall? : Component → Option Netlist.Edit
  | input facing => some (.input ⟨facing, .input⟩)
  | output facing => some (.output ⟨facing, .output⟩)
  | _ => none

/-- The circuit that a component names as its own. -/
def Component.owner? : Component → Option NodeId
  | circuitInput _ owner | circuitOutput _ owner => some owner
  | _ => none

namespace Netlist

variable {stage : Stage} {g : Netlist stage} {c id : Nat} {t : TruthTable}

/-! ### The block of a circuit -/

/-- An ascending list that holds the numbers of a block is the block. -/
theorem eq_block {l : List Nat} {start count : Nat} (ascends : l.Pairwise (· < ·))
    (mem : ∀ a, a ∈ l ↔ ∃ i < count, a = start + i) : l = (List.range count).map (start + ·) := by
  have block : ((List.range count).map (start + ·)).Pairwise (· < ·) := by
    rw [List.pairwise_map]
    exact List.pairwise_lt_range.imp fun lt => Nat.add_lt_add_left lt start
  refine ascends.eq_of_mem_iff block fun a => ?_
  simp only [mem, List.mem_map, List.mem_range, eq_comm (a := a)]

namespace WellFormed

variable (h : g.WellFormed)

include h

/-- **The drivers of a circuit** are its input children, and these are the numbers that follow it.
-/
theorem drivers_circuit (hc : g.component? c = some (.circuit t)) :
    g.drivers c = (List.range t.inputs.length).map (c + 1 + ·) := by
  refine eq_block (h.drivers_ascend c) fun a => ⟨fun edge => ?_, ?_⟩
  · obtain ⟨side, ha⟩ := h.circuitInput_of_drives hc edge
    obtain ⟨-, u, i, hu, hi, rfl⟩ := h.circuitInput a side c ha
    rw [hc, Option.some.injEq, Component.circuit.injEq] at hu
    subst hu
    exact ⟨i, (List.getElem?_eq_some_iff.1 hi).1, rfl⟩
  · rintro ⟨i, lt, rfl⟩
    exact (h.circuitInput _ _ c (h.inputChild c t i _ hc (List.getElem?_eq_getElem lt))).1

/-- What a circuit drives is an output child of it. -/
theorem circuitOutput_of_drives {k : Nat} (hc : g.component? c = some (.circuit t))
    (edge : c ∈ g.drivers k) : ∃ side, g.component? k = some (.circuitOutput side c) := by
  obtain ⟨x, y, hx, hy, legal⟩ := h.sealed c k edge
  rw [hc, Option.some.injEq] at hx
  subst hx
  cases y with
  | circuitOutput side owner =>
    obtain ⟨rfl, -⟩ := Sealing.fault?_circuitOutput_iff.1 legal
    exact ⟨side, hy⟩
  | _ => cases legal

/-- **The successors of a circuit** are its output children, and these are the numbers that follow
the input children. -/
theorem successors_circuit (hc : g.component? c = some (.circuit t)) :
    g.successors c = (List.range t.outputs.length).map (c + 1 + t.inputs.length + ·) := by
  refine eq_block (h.successors_ascend c) fun a => ⟨fun edge => ?_, ?_⟩
  · obtain ⟨side, ha⟩ := h.circuitOutput_of_drives hc ((h.mirrored _ _).1 edge)
    obtain ⟨-, u, i, hu, hi, rfl⟩ := h.circuitOutput a side c ha
    rw [hc, Option.some.injEq, Component.circuit.injEq] at hu
    subst hu
    exact ⟨i, (List.getElem?_eq_some_iff.1 hi).1, rfl⟩
  · rintro ⟨i, lt, rfl⟩
    have child := h.outputChild c t i _ hc (List.getElem?_eq_getElem lt)
    exact (h.mirrored _ _).2 (h.circuitOutput _ _ c child).1

/-- The sides of the input children, in the order of their numbers, are those of the table. -/
theorem map_inputSide? (hc : g.component? c = some (.circuit t)) :
    (g.drivers c).map g.inputSide? = t.inputs.map some := by
  rw [h.drivers_circuit hc]
  refine List.ext_getElem (by simp) fun i hi _ => ?_
  have lt : i < t.inputs.length := by simpa using hi
  have child := h.inputChild c t i _ hc (List.getElem?_eq_getElem lt)
  rw [List.getElem_map, List.getElem_map, List.getElem_map, List.getElem_range, inputSide?, child]

/-- The sides of the output children, in the order of their numbers, are those of the table. -/
theorem map_outputSide? (hc : g.component? c = some (.circuit t)) :
    (g.successors c).map g.outputSide? = t.outputs.map some := by
  rw [h.successors_circuit hc]
  refine List.ext_getElem (by simp) fun i hi _ => ?_
  have lt : i < t.outputs.length := by simpa using hi
  have child := h.outputChild c t i _ hc (List.getElem?_eq_getElem lt)
  rw [List.getElem_map, List.getElem_map, List.getElem_map, List.getElem_range, outputSide?, child]

/-! ### The children of a circuit -/

/-- An input child drives its circuit and nothing else. -/
theorem successors_circuitInput {side : Side} {owner : Nat}
    (hid : g.component? id = some (.circuitInput side owner)) : g.successors id = [owner] := by
  refine (h.successors_ascend id).eq_of_mem_iff (List.pairwise_singleton _ _) fun b => ?_
  rw [h.mirrored, List.mem_singleton]
  refine ⟨fun edge => ?_, ?_⟩
  · obtain ⟨x, y, hx, -, legal⟩ := h.sealed id b edge
    rw [hid, Option.some.injEq] at hx
    subst hx
    -- The seals let it drive circuits only, and of those only its own.
    cases y with
    | circuit t =>
      obtain ⟨side', eq⟩ := Sealing.fault?_circuit_iff.1 legal
      cases eq
      rfl
    | _ => cases legal
  · -- its own circuit is driven by it
    rintro rfl
    exact (h.circuitInput id side b hid).1

/-- An output child is driven by its circuit and by nothing else. -/
theorem drivers_circuitOutput {side : Side} {owner : Nat}
    (hid : g.component? id = some (.circuitOutput side owner)) : g.drivers id = [owner] := by
  refine (h.drivers_ascend id).eq_of_mem_iff (List.pairwise_singleton _ _) fun a => ?_
  rw [List.mem_singleton]
  refine ⟨h.eq_owner_of_drives hid, ?_⟩
  rintro rfl
  exact (h.circuitOutput id side a hid).1

/-- The owner of a child is a circuit. -/
theorem owner_circuit {x : Component} {owner : Nat} (hid : g.component? id = some x)
    (eq : x.owner? = some owner) : ∃ t, g.component? owner = some (.circuit t) := by
  cases x with
  | circuitInput side own =>
    obtain rfl := Option.some.inj eq
    obtain ⟨-, t, i, ho, -⟩ := h.circuitInput id side own hid
    exact ⟨t, ho⟩
  | circuitOutput side own =>
    obtain rfl := Option.some.inj eq
    obtain ⟨-, t, i, ho, -⟩ := h.circuitOutput id side own hid
    exact ⟨t, ho⟩
  | _ => cases eq

end WellFormed

/-! ### The invariant -/

/-- **Consistent netlists.** -/
structure Consistent (g : Netlist stage) : Prop extends g.EdgesKept where
  /-- Drivers are nodes. -/
  drivers_lt : ∀ a b, a ∈ g.drivers b → a < g.size
  /-- Successors are nodes. -/
  successors_lt : ∀ a b, b ∈ g.successors a → b < g.size
  /-- Inputs are nodes. -/
  inputs_lt : ∀ id ∈ g.inputs, id < g.size
  /-- Outputs are nodes. -/
  outputs_lt : ∀ id ∈ g.outputs, id < g.size
  /-- The circuits that components name are nodes. -/
  owner_lt : ∀ id c owner, g.component? id = some c → c.owner? = some owner → owner < g.size
  /-- The list of inputs holds the input nodes. -/
  mem_inputs : ∀ id, id ∈ g.inputs ↔ ∃ f, g.component? id = some (.input f)
  /-- The inputs ascend. -/
  inputs_ascend : g.inputs.Pairwise (· < ·)
  /-- The list of outputs holds the output nodes. -/
  mem_outputs : ∀ id, id ∈ g.outputs ↔ ∃ f, g.component? id = some (.output f)
  /-- The outputs ascend. -/
  outputs_ascend : g.outputs.Pairwise (· < ·)
  /-- The drivers of a circuit are its input children. -/
  drives_circuit : ∀ c t, g.component? c = some (.circuit t) → ∀ a,
    a ∈ g.drivers c ↔ ∃ side, g.component? a = some (.circuitInput side c)
  /-- A circuit has one input child for each input of its table, in the same order. -/
  inputSides : ∀ c t, g.component? c = some (.circuit t) →
    (g.drivers c).map g.inputSide? = t.inputs.map some
  /-- The successors of a circuit are its output children. -/
  circuit_drives : ∀ c t, g.component? c = some (.circuit t) → ∀ b,
    b ∈ g.successors c ↔ ∃ side, g.component? b = some (.circuitOutput side c)
  /-- A circuit has one output child for each output of its table, in the same order. -/
  outputSides : ∀ c t, g.component? c = some (.circuit t) →
    (g.successors c).map g.outputSide? = t.outputs.map some
  /-- An input child drives its circuit alone. -/
  circuitInput : ∀ id side owner, g.component? id = some (.circuitInput side owner) →
    (∃ t, g.component? owner = some (.circuit t)) ∧ g.successors id = [owner]
  /-- An output child is driven by its circuit alone. -/
  circuitOutput : ∀ id side owner, g.component? id = some (.circuitOutput side owner) →
    (∃ t, g.component? owner = some (.circuit t)) ∧ g.drivers id = [owner]
  /-- There are no wires in a reduced netlist. -/
  no_wire : stage = .reduced → ∀ id, g.component? id ≠ some .wire

theorem ids_ascend (g : Netlist stage) : g.ids.Pairwise (· < ·) := List.pairwise_lt_range

/-- **Well-formed netlists are consistent.** -/
theorem WellFormed.consistent (h : g.WellFormed) : g.Consistent where
  toEdgesKept := h.toEdgesKept
  drivers_lt a b edge := (h.lt_of_mem_drivers edge).1
  successors_lt a b edge := (h.lt_of_mem_drivers ((h.mirrored a b).1 edge)).2
  inputs_lt id mem := by
    obtain ⟨f, stands⟩ := h.mem_inputs.1 mem
    exact lt_size_of_component? stands
  outputs_lt id mem := by
    obtain ⟨f, stands⟩ := h.mem_outputs.1 mem
    exact lt_size_of_component? stands
  owner_lt id c owner hid eq := by
    obtain ⟨t, ho⟩ := h.owner_circuit hid eq
    exact lt_size_of_component? ho
  mem_inputs id := h.mem_inputs
  inputs_ascend := by
    rw [h.inputs_eq]
    exact g.ids_ascend.filter _
  mem_outputs id := h.mem_outputs
  outputs_ascend := by
    rw [h.outputs_eq]
    exact g.ids_ascend.filter _
  -- The children of a circuit are its neighbours, and have no others.
  drives_circuit c t hc a := by
    refine ⟨h.circuitInput_of_drives hc, ?_⟩
    rintro ⟨side, ha⟩
    exact (h.circuitInput a side c ha).1
  inputSides c t := h.map_inputSide?
  circuit_drives c t hc b := by
    rw [h.mirrored]
    refine ⟨h.circuitOutput_of_drives hc, ?_⟩
    rintro ⟨side, hb⟩
    exact (h.circuitOutput b side c hb).1
  outputSides c t := h.map_outputSide?
  circuitInput id side owner hid := ⟨h.owner_circuit hid rfl, h.successors_circuitInput hid⟩
  circuitOutput id side owner hid := ⟨h.owner_circuit hid rfl, h.drivers_circuitOutput hid⟩
  no_wire := h.no_wire

/-! ### Netlists and the calls that have built them -/

/-- **A netlist that calls have built**, from nothing and perhaps by way of reduction. A call that
fails is listed as well, and changes nothing. -/
inductive Built : {stage : Stage} → List Edit → Netlist stage → Prop
  /-- The netlist without nodes. -/
  | empty {stage : Stage} : Built [] (empty : Netlist stage)
  /-- The netlist after one more call, whether it fails or not. -/
  | edited {stage : Stage} {calls : List Edit} {g : Netlist stage} :
    Built calls g → (e : Edit) → Built (calls ++ [e]) (g.edited e)
  /-- The reduction of a netlist. -/
  | reduce {calls : List Edit} {g : Netlist .wired} {r : Netlist .reduced} :
    Built calls g → g.reduce = .ok r → Built calls r

theorem Built.reachable {calls : List Edit} (h : Built calls g) : g.Reachable := by
  induction h with
  | empty => exact .empty
  | edited _ e ih => exact ih.edited e
  | reduce _ ok ih => exact ih.reduce ok

/-- **A call adds a board node for the socket that it is given**, and only in the role of the node.
-/
theorem boardCall?_of_apply {r : Netlist stage} {e call : Edit} {x : Component}
    (ok : e.apply g = .ok r) (stands : r.component? id = some x)
    (board : x.boardCall? = some call) : g.component? id = some x ∨ call = e := by
  -- Adding one component leaves the others where they are.
  have pushed {y : Component} (eq : r = g.push y) : g.component? id = some x ∨ x = y :=
    (component?_push_cases (eq ▸ stands)).imp_right And.right
  cases e with
  | input socket =>
    obtain ⟨facing, role⟩ := socket
    simp only [Edit.apply, addInput] at ok
    split at ok
    case isFalse => cases ok
    case isTrue eq =>
      cases ok
      refine (pushed rfl).imp_right ?_
      rintro rfl
      rw [← Option.some.inj board, ← show role = .input from eq]
  | output socket =>
    obtain ⟨facing, role⟩ := socket
    simp only [Edit.apply, addOutput] at ok
    split at ok
    case isFalse => cases ok
    case isTrue eq =>
      cases ok
      refine (pushed rfl).imp_right ?_
      rintro rfl
      rw [← Option.some.inj board, ← show role = .output from eq]
  | wire =>
    -- A wire comes from no call for the board, and neither does what is added below.
    simp only [Edit.apply, addWire] at ok
    split at ok <;> cases ok
    refine (pushed rfl).imp_right ?_
    rintro rfl
    cases board
  | torch =>
    cases ok
    refine (pushed rfl).imp_right ?_
    rintro rfl
    cases board
  | circuit t =>
    cases ok
    rcases component?_addCircuit_cases stands with
      ⟨-, old⟩ | ⟨-, rfl⟩ | ⟨i, _, -, rfl⟩ | ⟨i, _, -, rfl⟩
    · exact .inl old
    · cases board
    · cases board
    · cases board
  | connect source target =>
    -- An edge changes no component.
    obtain ⟨_, _, -, -, -, rfl⟩ := connect_eq_ok_iff.1 ok
    rw [component?_link] at stands
    exact .inl stands
  | joinWires a b =>
    obtain ⟨-, -, -, rfl⟩ := joinWires_eq_ok_iff.1 ok
    rw [component?_link, component?_link] at stands
    exact .inl stands

/-- **Every board node was asked for**, with a socket in the role of the node. -/
theorem Built.mem_calls {calls : List Edit} (h : Built calls g) {call : Edit} {x : Component}
    (stands : g.component? id = some x) (board : x.boardCall? = some call) : call ∈ calls := by
  induction h generalizing id x with
  | empty => simp [Netlist.empty, component?] at stands
  | @edited stage calls g _ e ih =>
    rw [List.mem_append, List.mem_singleton]
    unfold Netlist.edited at stands
    split at stands
    case h_1 ok =>
      exact (boardCall?_of_apply ok stands board).imp_left fun old => ih old board
    -- A call that fails leaves the netlist as it was.
    case h_2 => exact .inl (ih stands board)
  | @reduce calls g r built ok ih =>
    obtain ⟨r', ok', red⟩ := built.reachable.wellFormed.isReduction
    obtain rfl : r = r' := Except.ok.inj (ok.symm.trans ok')
    obtain ⟨old, y, -, -, hy, rfl⟩ := red.exists_kept stands
    refine ih hy ?_
    -- Renumbering concerns nodes of circuits only.
    cases y with
    | input f | output f => exact board
    | _ => cases board

theorem Built.foldl {before : List Edit} (h : Built before g) (calls : List Edit) :
    Built (before ++ calls) (calls.foldl Netlist.edited g) := by
  induction calls generalizing before g with
  | nil => rwa [List.append_nil]
  | cons e rest ih =>
    rw [List.append_cons]
    exact ih (h.edited e)

/-- A call that fails changes nothing. -/
theorem edited_of_error {e : Edit} {reason : NetlistError} (failed : e.apply g = .error reason) :
    g.edited e = g := by
  rw [Netlist.edited, failed]

/-- **A netlist never disagrees with itself**, whatever calls have built it, those that failed
included, and its board nodes stand for sockets in their roles. -/
theorem consistent_of_built {calls : List Edit} (h : Built calls g) : g.Consistent ∧
    (∀ id f, g.component? id = some (.input f) → .input ⟨f, .input⟩ ∈ calls) ∧
    (∀ id f, g.component? id = some (.output f) → .output ⟨f, .output⟩ ∈ calls) ∧
    ∀ e reason, e.apply g = .error reason → g.edited e = g := by
  refine ⟨h.reachable.wellFormed.consistent, fun id f stands => ?_, fun id f stands => ?_,
    fun e reason => edited_of_error⟩
  · exact h.mem_calls stands rfl
  · exact h.mem_calls stands rfl

/-! ### A nested inverter behind a wire -/

namespace Relay

/-- The table of an inverter. -/
def table : TruthTable := ⟨[.back], [.front], [⟨0b01⟩], by decide, rfl, by decide⟩

/-- An input, a wire and a nested inverter in a row, and an output. An empty socket is no input, and
the wire must not drive the circuit past its input child. -/
def calls : List Edit :=
  [.input ⟨.south, .input⟩, .input ⟨.east, .empty⟩, .wire, .circuit table,
    .output ⟨.north, .output⟩, .connect 0 1, .connect 1 2, .connect 1 3, .connect 4 5]

def wired : Netlist .wired := calls.foldl edited Netlist.empty

/-- The same without the wire. -/
def reduced : Netlist .reduced where
  nodes := #[⟨.input .south, [], [2]⟩, ⟨.circuit table, [2], [3]⟩,
    ⟨.circuitInput .back 1, [0], [1]⟩,
    ⟨.circuitOutput .front 1, [1], [4]⟩, ⟨.output .north, [3], []⟩]
  inputs := [0]
  outputs := [4]

theorem built_wired : Built calls wired := Built.empty.foldl calls

theorem reduce_eq : wired.reduce = .ok reduced := by
  cbv

end Relay

/-- The nested inverter, reduced and asked for a wire, which it does not get. -/
theorem consistent_of_built_relay :
    Built (Relay.calls ++ [.wire]) (Relay.reduced.edited .wire) ∧
      (Relay.reduced.edited .wire).Consistent := by
  have built := (Relay.built_wired.reduce Relay.reduce_eq).edited .wire
  exact ⟨built, (consistent_of_built built).1⟩

end Netlist

end TorchLogic
