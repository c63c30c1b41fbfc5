import TorchLogic.Board.Resolve
import TorchLogic.Board.Trace
import TorchLogic.Netlist.Evaluate
import TorchLogic.Netlist.Reduce

/-!
# From a board to its truth table

The circuit on a board is traced, freed of wires and tabulated. A circuit with feedback has no
table, which is an answer and not a fault; asked for the table of the board at a block, it is one of
three causes for there being none (`SynthesisError`).
-/

namespace TorchLogic

/-- **Why there is no table.** -/
inductive SynthesisError
  /-- The block belongs to no board. -/
  | board (error : BoardError)
  /-- The circuit could not be built. -/
  | build (error : BuildError)
  | cyclic
  deriving DecidableEq

namespace SynthesisError

def message : SynthesisError → String
  | board e => e.message
  | build e => e.message
  | cyclic => "circuit contains a feedback loop"

/-- The key under which the message for a user is filed. -/
def messageKey : SynthesisError → String
  | board e => e.messageKey
  | build _ => "synthesis.error.internal"
  | cyclic => "synthesis.error.cyclic"

end SynthesisError

/-- **The table of the circuit on a board**, or nothing if the circuit has feedback. -/
def Board.table? (b : Board) (w : World) : Except BuildError (Option TruthTable) := do
  let g ← b.trace w
  let r ← g.reduce.mapError .netlist
  if r.isAcyclic then
    let t ← r.truthTable.mapError .netlist
    .ok (some t)
  else .ok none

/-- **The table of the board at a block.** -/
def synthesize (w : World) (p : Position) : Except SynthesisError TruthTable := do
  let b ← (Board.resolve w p).mapError .board
  match ← (b.table? w).mapError .build with
  | some t => .ok t
  | none => .error .cyclic

end TorchLogic
