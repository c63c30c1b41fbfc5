import TorchLogic.TruthTable.Basic

/-!
# Components of a netlist

What a node of a netlist can be, and what can go wrong with a netlist.

A circuit that is nested in another is sealed. Its node stands for the whole of it; one child for
each input side feeds that node, and that node feeds one child for each output side. Nothing else
touches the node, and `Sealing.fault?` is the rule that an edge is held to.
-/

namespace TorchLogic

/-- Nodes are numbered in the order in which they are added. -/
abbrev NodeId := Nat

/-- **What a node stands for.** -/
inductive Component
  | input (facing : Facing)
  | output (facing : Facing)
  /-- A stretch of wire, which passes signals both ways. -/
  | wire
  /-- An inverter: on exactly when nothing that drives it is. -/
  | torch
  | circuit (table : TruthTable)
  /-- An input side of a nested circuit. -/
  | circuitInput (side : Side) (owner : NodeId)
  /-- An output side of a nested circuit. -/
  | circuitOutput (side : Side) (owner : NodeId)
  deriving DecidableEq

namespace Component

def name : Component → String
  | input _ => "input"
  | output _ => "output"
  | wire => "wire"
  | torch => "torch"
  | circuit _ => "circuit"
  | circuitInput _ _ => "circuit_input"
  | circuitOutput _ _ => "circuit_output"

def isWire : Component → Bool
  | wire => true
  | _ => false

def isCircuit : Component → Bool
  | circuit _ => true
  | _ => false

def isInput : Component → Bool
  | input _ => true
  | _ => false

def isOutput : Component → Bool
  | output _ => true
  | _ => false

end Component

/-- **How an edge would break the seal of a nested circuit.** -/
inductive Sealing
  /-- It leads from a circuit to something other than its own outputs. -/
  | circuitFeedsStranger
  /-- It leads to a circuit from something other than its own inputs. -/
  | strangerFeedsCircuit
  /-- It leads from an input child to something other than its circuit. -/
  | inputFeedsStranger
  /-- It leads to an output child from something other than its circuit. -/
  | strangerFeedsOutput
  deriving DecidableEq

namespace Sealing

def message : Sealing → String
  | circuitFeedsStranger => "a circuit only feeds its own outputs"
  | strangerFeedsCircuit => "a circuit is only fed by its own inputs"
  | inputFeedsStranger => "a circuit input only feeds its circuit"
  | strangerFeedsOutput => "a circuit output is only fed by its circuit"

/-- **What is wrong with an edge** from a component at `source` to one at `target`, if anything. -/
def fault? (source target : NodeId) : Component → Component → Option Sealing
  | .circuit _, .circuitOutput _ owner =>
    if owner = source then none else some circuitFeedsStranger
  | .circuit _, _ => some circuitFeedsStranger
  | .circuitInput _ owner, .circuit _ =>
    if owner = target then none else some strangerFeedsCircuit
  | _, .circuit _ => some strangerFeedsCircuit
  | .circuitInput _ _, _ => some inputFeedsStranger
  | _, .circuitOutput _ _ => some strangerFeedsOutput
  | _, _ => none

end Sealing

/-- An operation that needs wires. -/
inductive WireOperation
  | addWire
  | joinWires
  deriving DecidableEq

def WireOperation.name : WireOperation → String
  | addWire => "add_wire_node"
  | joinWires => "connect_wire_two_way"

/-- **What can go wrong with a netlist.** -/
inductive NetlistError
  | nodeOutOfRange (id : NodeId) (size : Nat)
  /-- A board node was asked for a socket in another role. -/
  | roleMismatch (expected actual : SocketRole)
  /-- Wires were asked of a netlist that holds none. -/
  | unsupportedOnReduced (operation : WireOperation)
  | notAWire (id : NodeId)
  /-- The edge would break the seal of a nested circuit. -/
  | illegalConnection (source target : NodeId) (reason : Sealing)
  | notACircuit (id : NodeId)
  /-- The circuit has no output on that side. -/
  | missingOutput (circuit : NodeId) (side : Side)
  /-- A board input or output was expected. -/
  | notABoardNode (id : NodeId)
  /-- A nested circuit has no signal of its own. -/
  | circuitHasNoSignal (id : NodeId)
  /-- A wire occurs where wires are eliminated. -/
  | wireInReduced (id : NodeId)
  /-- A signal depends on itself. -/
  | cyclic
  /-- The sides of the board make no table. -/
  | table (error : TableError)
  deriving DecidableEq

def NodeId.render (id : NodeId) : String := "#" ++ toString id

def NetlistError.message : NetlistError → String
  | nodeOutOfRange id size =>
    "node " ++ NodeId.render id ++ " does not exist (graph has " ++ toString size ++ " nodes)"
  | roleMismatch expected actual =>
    "socket state mismatch: expected " ++ expected.name ++ ", got " ++ actual.name
  | unsupportedOnReduced operation => operation.name ++ " is not supported on a reduced graph"
  | notAWire id => "node " ++ NodeId.render id ++ " is not a wire"
  | illegalConnection source target reason =>
    "illegal connection " ++ NodeId.render source ++ " -> " ++ NodeId.render target ++ ": "
      ++ reason.message
  | notACircuit id => "node " ++ NodeId.render id ++ " is not a circuit"
  | missingOutput circuit side =>
    "circuit " ++ NodeId.render circuit ++ " has no output on its " ++ side.name ++ " side"
  | notABoardNode id => "node " ++ NodeId.render id ++ " is not an input or output node"
  | circuitHasNoSignal id => "circuit node " ++ NodeId.render id ++ " cannot be evaluated directly"
  | wireInReduced id => "wire node " ++ NodeId.render id ++ " found in a reduced graph"
  | cyclic => "circuit graph is cyclic"
  | table error => "invalid truth table: " ++ error.message

end TorchLogic
