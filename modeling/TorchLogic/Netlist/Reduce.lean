import TorchLogic.Netlist.Reach

/-!
# Eliminating wires

A signal survives a run of at most fifteen wires. Reduction keeps the nodes that are not wires, in
their order, and gives two of them an edge when a run of wires short enough to cross leads from one
to the other, a direct edge being a run of none.
-/

namespace TorchLogic.Netlist

/-- The longest run of wires that a signal crosses. -/
def maxWireRun : Nat := 15

/-- The nodes that are not wires, ascending. Each one's number after reduction is its place in this
list. -/
def kept (g : Netlist .wired) : List NodeId := g.ids.filter fun id => !g.isWire id

/-- The number of a node after reduction. -/
def renumbered? (g : Netlist .wired) (id : NodeId) : Option NodeId := g.kept.idxOf? id

/-- The number of a circuit after reduction. -/
def renumberedOwner (g : Netlist .wired) (owner : NodeId) : Except NetlistError NodeId :=
  match g.renumbered? owner with
  | some id => .ok id
  | none => .error (.notACircuit owner)

/-- A component with the number of its circuit brought up to date. -/
def renumberedComponent (g : Netlist .wired) : Component → Except NetlistError Component
  | .circuitInput side owner => (g.renumberedOwner owner).map (.circuitInput side)
  | .circuitOutput side owner => (g.renumberedOwner owner).map (.circuitOutput side)
  | c => .ok c

/-- The kept nodes without edges. -/
def keptNodes (g : Netlist .wired) : Except NetlistError (Netlist .reduced) :=
  g.kept.foldlM (fun r id => do
    let c ← g.component id
    let c ← g.renumberedComponent c
    .ok (r.push c)) empty

/-- Adds the edge to one node that a signal from `source` reaches at a distance, unless that node is
a wire or too far. -/
def connectTo (g : Netlist .wired) (source : NodeId) (r : Netlist .reduced)
    (target : NodeId × Nat) : Except NetlistError (Netlist .reduced) :=
  match g.renumbered? target.1 with
  | none => .ok r
  | some new =>
    -- A path through a run of wires has one edge more than the run has wires.
    if target.2 - 1 ≤ maxWireRun then r.connect source new else .ok r

/-- Adds the edges from one node, unless it is a wire. -/
def connectFrom (g : Netlist .wired) (r : Netlist .reduced) (source : NodeId) :
    Except NetlistError (Netlist .reduced) :=
  match g.renumbered? source with
  | none => .ok r
  | some new => (g.distances source).foldlM (g.connectTo new) r

/-- **The netlist without its wires.** -/
def reduce (g : Netlist .wired) : Except NetlistError (Netlist .reduced) := do
  let r ← g.keptNodes
  g.ids.foldlM g.connectFrom r

end TorchLogic.Netlist
