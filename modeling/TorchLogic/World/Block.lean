import TorchLogic.Socket

/-!
# Blocks

What can stand at a position, as far as tracing a circuit cares. A breadboard block shows by its
style whether it is plain or part of a socket, and which side that socket is on.
-/

namespace TorchLogic

/-- **The look of a breadboard block.** -/
inductive Style
  | plain
  /-- Part of an input socket on a side. -/
  | input (facing : Facing)
  /-- Part of an output socket on a side. -/
  | output (facing : Facing)
  deriving DecidableEq, Hashable

namespace Style

/-- The role that a style shows. -/
def role : Style → SocketRole
  | plain => .empty
  | input _ => .input
  | output _ => .output

/-- The style of the blocks of a socket. -/
def ofSocket (facing : Facing) : SocketRole → Style
  | .empty => plain
  | .input => input facing
  | .output => output facing

/-- The written form of a style. -/
def name : Style → String
  | plain => "normal"
  | input f => "input_" ++ f.name
  | output f => "output_" ++ f.name

/-- Every style. -/
def all : List Style := plain :: (Facing.all.map input ++ Facing.all.map output)

/-- The style with a given written form. -/
def ofName? (s : String) : Option Style := all.find? (·.name == s)

@[simp] theorem role_ofSocket (facing : Facing) (r : SocketRole) :
    (ofSocket facing r).role = r := by
  cases r <;> rfl

end Style

/-- **What stands at a position.** -/
inductive Block
  | air
  /-- Any full block that relays power. -/
  | solid
  | breadboard (style : Style)
  | wire
  /-- A torch on the block below it. -/
  | torch
  /-- A torch on the side of a block, pointing away from that block. -/
  | wallTorch (facing : Facing)
  /-- A nested circuit. Its table is kept beside the block. -/
  | circuit (facing : Facing)
  deriving DecidableEq, Hashable

namespace Block

/-- Whether the block is a full block, which relays power. -/
def conducts : Block → Bool
  | solid | breadboard _ => true
  | _ => false

/-- Whether the block is a wire. -/
def isWire : Block → Bool
  | wire => true
  | _ => false

/-- Whether the block is a torch, standing or on a wall. -/
def isTorch : Block → Bool
  | torch | wallTorch _ => true
  | _ => false

/-- Whether the block is a nested circuit. -/
def isCircuit : Block → Bool
  | circuit _ => true
  | _ => false

/-- Whether the block is a breadboard block. -/
def isBreadboard : Block → Bool
  | breadboard _ => true
  | _ => false

/-- Whether the block is a component of a circuit. -/
def isComponent (b : Block) : Bool := b.isWire || b.isTorch || b.isCircuit

theorem isWire_iff {c : Block} : c.isWire = true ↔ c = wire := by
  cases c <;> simp [isWire]

theorem isCircuit_iff {c : Block} : c.isCircuit = true ↔ ∃ facing, c = circuit facing := by
  cases c <;> simp [isCircuit]

theorem isBreadboard_iff {c : Block} : c.isBreadboard = true ↔ ∃ style, c = breadboard style := by
  cases c <;> simp [isBreadboard]

theorem not_isCircuit_of_isTorch {c : Block} (h : c.isTorch = true) : ¬ c.isCircuit = true := by
  cases c <;> first | exact Bool.false_ne_true | cases h

theorem not_conducts_of_isTorch {c : Block} (h : c.isTorch = true) : c.conducts = false := by
  cases c <;> first | rfl | cases h

end Block

end TorchLogic
