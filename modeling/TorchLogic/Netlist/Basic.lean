import TorchLogic.Netlist.Component

/-!
# Netlists

A netlist is a numbered list of components, each with the nodes that drive it. It is either wired,
as traced from a board, or reduced, which means free of wires; the stage is part of the type, and
the two operations that need wires fail on a reduced netlist.

An edge is kept at both ends: the node that it leads to lists it among its drivers, and the node
that it leads from among its successors. Beside the nodes a netlist lists the inputs and the outputs
of the board, in the order in which they were added.

Nodes are added with `addInput`, `addOutput`, `addWire`, `addTorch` and `addCircuit`; edges with
`connect`, which keeps nested circuits sealed, and `joinWires`, which makes an edge each way. All of
them come down to `Netlist.push`, which adds a node without edges, and `Netlist.link`, which adds an
edge without asking; the lemmas at the end say what these two do to the views.
-/

namespace TorchLogic

/-- Whether a netlist may hold wires. -/
inductive Stage
  /-- As traced from a board. -/
  | wired
  /-- After the wires are eliminated. -/
  | reduced
  deriving DecidableEq

/-- **A component and its edges.** -/
structure Node where
  /-- What the node stands for. -/
  component : Component
  /-- The nodes whose signal reaches this one, ascending. -/
  drivers : List NodeId
  /-- The nodes that the signal of this one reaches, ascending. -/
  successors : List NodeId
  deriving DecidableEq

/-- **A netlist.** -/
structure Netlist (stage : Stage) where
  /-- The nodes, in the order of their numbers. -/
  nodes : Array Node
  /-- The board inputs, in the order in which they were added. -/
  inputs : List NodeId
  /-- The board outputs, in the order in which they were added. -/
  outputs : List NodeId
  deriving DecidableEq

/-- Adds a number to an ascending list, unless it is there. -/
def insertAscending (n : NodeId) : List NodeId → List NodeId
  | [] => [n]
  | m :: rest =>
    if n < m then n :: m :: rest else if n = m then m :: rest else m :: insertAscending n rest

@[simp] theorem mem_insertAscending {n m : Nat} {l : List Nat} :
    m ∈ insertAscending n l ↔ m = n ∨ m ∈ l := by
  induction l with
  | nil => simp [insertAscending]
  | cons k rest ih =>
    simp only [insertAscending]
    split
    · simp
    · split
      case isTrue eq =>
        simp [eq]
      case isFalse =>
        simp only [List.mem_cons, ih]
        refine ⟨?_, ?_⟩
        · rintro (h | h | h) <;> simp [h]
        · rintro (h | h | h) <;> simp [h]

theorem pairwise_insertAscending {n : Nat} {l : List Nat} (h : l.Pairwise (· < ·)) :
    (insertAscending n l).Pairwise (· < ·) := by
  induction l with
  | nil => simp [insertAscending]
  | cons k rest ih =>
    obtain ⟨least, sorted⟩ := List.pairwise_cons.1 h
    simp only [insertAscending]
    split
    case isTrue lt =>
      refine List.pairwise_cons.2 ⟨fun m mem => ?_, h⟩
      rcases List.mem_cons.1 mem with rfl | mem
      · exact lt
      · exact Nat.lt_trans lt (least m mem)
    case isFalse =>
      split
      case isTrue => exact h
      case isFalse notLt notEq =>
        refine List.pairwise_cons.2 ⟨fun m mem => ?_, ih sorted⟩
        rcases mem_insertAscending.1 mem with rfl | mem
        · exact Nat.lt_of_le_of_ne (Nat.le_of_not_lt notLt) fun eq => notEq eq.symm
        · exact least m mem

namespace Netlist

variable {stage : Stage}

def empty : Netlist stage := ⟨#[], [], []⟩

/-! ### Views -/

def size (g : Netlist stage) : Nat := g.nodes.size

def ids (g : Netlist stage) : List NodeId := List.range g.size

/-- The component at a node, if there is such a node. -/
def component? (g : Netlist stage) (id : NodeId) : Option Component :=
  g.nodes[id]?.map Node.component

/-- The nodes that drive a node, ascending. -/
def drivers (g : Netlist stage) (id : NodeId) : List NodeId :=
  match g.nodes[id]? with
  | some node => node.drivers
  | none => []

/-- The nodes that a node drives, ascending. -/
def successors (g : Netlist stage) (id : NodeId) : List NodeId :=
  match g.nodes[id]? with
  | some node => node.successors
  | none => []

def isWire (g : Netlist stage) (id : NodeId) : Bool := (g.component? id).any Component.isWire

def isCircuit (g : Netlist stage) (id : NodeId) : Bool :=
  (g.component? id).any Component.isCircuit

def component (g : Netlist stage) (id : NodeId) : Except NetlistError Component :=
  match g.component? id with
  | some c => .ok c
  | none => .error (.nodeOutOfRange id g.size)

/-- The facing of a board input or output. -/
def facing (g : Netlist stage) (id : NodeId) : Except NetlistError Facing := do
  match ← g.component id with
  | .input f => .ok f
  | .output f => .ok f
  | _ => .error (.notABoardNode id)

def circuitTable (g : Netlist stage) (id : NodeId) : Except NetlistError TruthTable := do
  match ← g.component id with
  | .circuit t => .ok t
  | _ => .error (.notACircuit id)

/-- The side that a node is an input of a circuit on. -/
def inputSide? (g : Netlist stage) (id : NodeId) : Option Side :=
  match g.component? id with
  | some (.circuitInput side _) => some side
  | _ => none

/-- The side that a node is an output of a circuit on. -/
def outputSide? (g : Netlist stage) (id : NodeId) : Option Side :=
  match g.component? id with
  | some (.circuitOutput side _) => some side
  | _ => none

/-- **The input children of a nested circuit**, each with its side, ascending. -/
def circuitInputs (g : Netlist stage) (circuit : NodeId) :
    Except NetlistError (List (Side × NodeId)) := do
  let _ ← g.circuitTable circuit
  .ok ((g.drivers circuit).filterMap fun child => (g.inputSide? child).map (·, child))

/-- **The output child of a nested circuit** on a side. -/
def circuitOutput (g : Netlist stage) (circuit : NodeId) (side : Side) :
    Except NetlistError NodeId := do
  let _ ← g.circuitTable circuit
  match (g.successors circuit).find? fun child => g.outputSide? child == some side with
  | some child => .ok child
  | none => .error (.missingOutput circuit side)

/-! ### Adding nodes and edges -/

/-- **Adds a node without edges**; its number is the former size. -/
def push (g : Netlist stage) (c : Component) : Netlist stage where
  nodes := g.nodes.push ⟨c, [], []⟩
  inputs := if c.isInput then g.inputs ++ [g.size] else g.inputs
  outputs := if c.isOutput then g.outputs ++ [g.size] else g.outputs

/-- **Adds an edge** without asking whether it is allowed. -/
def link (g : Netlist stage) (source target : NodeId) : Netlist stage where
  nodes :=
    (g.nodes.modify source fun node =>
        { node with successors := insertAscending target node.successors }).modify target
      fun node => { node with drivers := insertAscending source node.drivers }
  inputs := g.inputs
  outputs := g.outputs

def addInput (g : Netlist stage) (socket : Socket) :
    Except NetlistError (NodeId × Netlist stage) :=
  if socket.role = .input then .ok (g.size, g.push (.input socket.facing))
  else .error (.roleMismatch .input socket.role)

def addOutput (g : Netlist stage) (socket : Socket) :
    Except NetlistError (NodeId × Netlist stage) :=
  if socket.role = .output then .ok (g.size, g.push (.output socket.facing))
  else .error (.roleMismatch .output socket.role)

def addWire (g : Netlist stage) : Except NetlistError (NodeId × Netlist stage) :=
  if stage = .wired then .ok (g.size, g.push .wire)
  else .error (.unsupportedOnReduced .addWire)

def addTorch (g : Netlist stage) : NodeId × Netlist stage := (g.size, g.push .torch)

/-- Adds an input child of a circuit, and the edge from it. -/
def addCircuitInput (g : Netlist stage) (circuit : NodeId) (side : Side) : Netlist stage :=
  (g.push (.circuitInput side circuit)).link g.size circuit

/-- Adds an output child of a circuit, and the edge to it. -/
def addCircuitOutput (g : Netlist stage) (circuit : NodeId) (side : Side) : Netlist stage :=
  (g.push (.circuitOutput side circuit)).link circuit g.size

/-- **Adds a nested circuit** and its children: the inputs, then the outputs, in the order of the
table. The number is that of the circuit itself. -/
def addCircuit (g : Netlist stage) (t : TruthTable) : NodeId × Netlist stage :=
  let circuit := g.size
  let withInputs :=
    t.inputs.foldl (fun g side => g.addCircuitInput circuit side) (g.push (.circuit t))
  (circuit, t.outputs.foldl (fun g side => g.addCircuitOutput circuit side) withInputs)

/-- **Adds an edge**, unless a node is missing or the edge would break the seal of a nested
circuit. -/
def connect (g : Netlist stage) (source target : NodeId) :
    Except NetlistError (Netlist stage) := do
  let c ← g.component source
  let d ← g.component target
  match Sealing.fault? source target c d with
  | some reason => .error (.illegalConnection source target reason)
  | none => .ok (g.link source target)

/-- Refuses a node that is not a wire. -/
def expectWire (g : Netlist stage) (id : NodeId) : Except NetlistError Unit := do
  let c ← g.component id
  if c.isWire then .ok () else .error (.notAWire id)

/-- **Joins two wires** by an edge each way. -/
def joinWires (g : Netlist stage) (a b : NodeId) : Except NetlistError (Netlist stage) :=
  if stage = .wired then do
    g.expectWire a
    g.expectWire b
    .ok ((g.link a b).link b a)
  else .error (.unsupportedOnReduced .joinWires)

/-! ### The views after each addition -/

theorem component?_isSome {g : Netlist stage} {id : Nat} :
    (g.component? id).isSome ↔ id < g.size := by
  simp [component?, size]

theorem lt_size_of_component? {g : Netlist stage} {id : Nat} {c : Component}
    (h : g.component? id = some c) : id < g.size := by
  rw [← component?_isSome, h]
  rfl

@[simp] theorem mem_ids {g : Netlist stage} {id : Nat} : id ∈ g.ids ↔ id < g.size := by
  simp [ids]

@[simp] theorem size_empty : (empty : Netlist stage).size = 0 := rfl

@[simp] theorem size_push (g : Netlist stage) (c : Component) : (g.push c).size = g.size + 1 := by
  simp [push, size]

@[simp] theorem size_link (g : Netlist stage) (a b : Nat) : (g.link a b).size = g.size := by
  simp [link, size]

theorem component?_push (g : Netlist stage) (c : Component) (id : Nat) :
    (g.push c).component? id = if id = g.size then some c else g.component? id := by
  by_cases new : id = g.size
  · subst new
    simp [push, component?, size]
  · have : ¬ id = g.nodes.size := new
    simp [push, component?, Array.getElem?_push, this, new]

@[simp] theorem drivers_push (g : Netlist stage) (c : Component) (id : Nat) :
    (g.push c).drivers id = g.drivers id := by
  by_cases new : id = g.nodes.size
  · subst new
    simp [push, drivers]
  · simp [push, drivers, Array.getElem?_push, new]

@[simp] theorem successors_push (g : Netlist stage) (c : Component) (id : Nat) :
    (g.push c).successors id = g.successors id := by
  by_cases new : id = g.nodes.size
  · subst new
    simp [push, successors]
  · simp [push, successors, Array.getElem?_push, new]

/-- What an added edge does to a node. -/
theorem getElem?_link (g : Netlist stage) (a b id : Nat) :
    (g.link a b).nodes[id]? = g.nodes[id]?.map fun node =>
      ⟨node.component, if id = b then insertAscending a node.drivers else node.drivers,
        if id = a then insertAscending b node.successors else node.successors⟩ := by
  simp only [link, Array.getElem?_modify, eq_comm (a := id)]
  cases g.nodes[id]? <;> split <;> split <;> rfl

@[simp] theorem component?_link (g : Netlist stage) (a b id : Nat) :
    (g.link a b).component? id = g.component? id := by
  simp only [component?, getElem?_link, Option.map_map]
  rfl

theorem drivers_link {g : Netlist stage} {b : Nat} (h : b < g.size) (a id : Nat) :
    (g.link a b).drivers id =
      if id = b then insertAscending a (g.drivers b) else g.drivers id := by
  by_cases eq : id = b
  · subst eq
    have stands : g.nodes[id]? = some g.nodes[id] := Array.getElem?_eq_getElem h
    simp [drivers, getElem?_link, stands]
  · simp only [drivers, getElem?_link, eq, if_false]
    cases g.nodes[id]? <;> rfl

theorem successors_link {g : Netlist stage} {a : Nat} (h : a < g.size) (b id : Nat) :
    (g.link a b).successors id =
      if id = a then insertAscending b (g.successors a) else g.successors id := by
  by_cases eq : id = a
  · subst eq
    have stands : g.nodes[id]? = some g.nodes[id] := Array.getElem?_eq_getElem h
    simp [successors, getElem?_link, stands]
  · simp only [successors, getElem?_link, eq, if_false]
    cases g.nodes[id]? <;> rfl

end Netlist

end TorchLogic
