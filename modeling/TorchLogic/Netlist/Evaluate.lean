import TorchLogic.Netlist.Feedback

/-!
# Evaluation

The signal on a node, and the truth table of a netlist without wires.

The states of the board inputs come as a 64-bit word: bit `j` is the state of the `j`-th input, and
places are counted modulo 64. A signal is worked out from the signals that drive it, in ascending
order and no further than the first that is on. Going back through more drivers than there are nodes
means that a signal depends on itself, which is an error here, though a netlist with loops can be
evaluated wherever a driver outside the loop decides.
-/

namespace TorchLogic.Netlist

variable {stage : Stage}

/-- The state of the input at a given place. -/
def stateAt (word : UInt64) (place : Nat) : Bool := (word >>> place.toUInt64) &&& 1 != 0

/-- **The signal on a node**, found by going back through fewer than `fuel` drivers. -/
def signalWithin (g : Netlist stage) (word : UInt64) : Nat → NodeId → Except NetlistError Bool
  | 0, _ => .error .cyclic
  | fuel + 1, id => do
    match ← g.component id with
    | .circuit _ => .error (.circuitHasNoSignal id)
    | .wire => .error (.wireInReduced id)
    | .input _ =>
      match g.inputs.idxOf? id with
      | some place => .ok (stateAt word place)
      | none => .error (.notABoardNode id)
    | .circuitOutput side owner => do
      -- The circuit itself has no signal, so the way goes past it to its input children.
      let table ← g.circuitTable owner
      let children ← g.circuitInputs owner
      let states ← children.mapM fun child => do
        let state ← signalWithin g word fuel child.2
        .ok (child.1, state)
      .ok ((table.apply (Signals.ofEntries states)).get side)
    | .torch => do
      let powered ← (g.drivers id).anyM (signalWithin g word fuel)
      .ok !powered
    | .output _ => (g.drivers id).anyM (signalWithin g word fuel)
    | .circuitInput _ _ => (g.drivers id).anyM (signalWithin g word fuel)

/-- **The signal on a node.** A chain of drivers without repetition is no longer than the netlist.
-/
def signal (g : Netlist .reduced) (id : NodeId) (word : UInt64) : Except NetlistError Bool :=
  g.signalWithin word (g.size + 1) id

/-- **The column of an output**: its signal under each assignment of the board inputs. -/
def column (g : Netlist .reduced) (id : NodeId) : Except NetlistError Column := do
  let rows ← (List.range (assignmentCount g.inputs.length)).mapM fun row =>
    g.signal id (UInt64.ofNat row)
  .ok (Column.ofRows rows)

/-- The side of a board node as if the board faced north. -/
def northSide (g : Netlist stage) (id : NodeId) : Except NetlistError Side :=
  (g.facing id).map (Side.relative .north)

/-- **The truth table of a netlist**, its sides named as if the board faced north, in the order in
which the board nodes were added. The sides are checked before anything is evaluated. -/
def truthTable (g : Netlist .reduced) : Except NetlistError TruthTable :=
  if g.isAcyclic then do
    let inputs ← g.inputs.mapM g.northSide
    let outputs ← g.outputs.mapM g.northSide
    match TruthTable.sideFault? inputs outputs with
    | some fault => .error (.table fault)
    | none =>
      let columns ← g.outputs.mapM g.column
      (TruthTable.ofColumns inputs outputs columns).mapError .table
  else .error .cyclic

end TorchLogic.Netlist
