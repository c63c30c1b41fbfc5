import TorchLogic.Facing

/-!
# Sockets

A socket is one side of a board in a role: unused, an input of the circuit on the board, or one of
its outputs.
-/

namespace TorchLogic

/-- **What a side is used for.** -/
inductive SocketRole
  | empty
  | input
  | output
  deriving DecidableEq, Hashable

namespace SocketRole

def all : List SocketRole := [empty, input, output]

def name : SocketRole → String
  | empty => "empty"
  | input => "input"
  | output => "output"

def ofName? (s : String) : Option SocketRole := all.find? (·.name == s)

@[simp] theorem mem_all (r : SocketRole) : r ∈ all := by cases r <;> simp [all]

end SocketRole

/-- **A socket**: the side it is on, and its role. -/
structure Socket where
  /-- The side of the board, named absolutely. -/
  facing : Facing
  /-- What the side is used for. -/
  role : SocketRole
  deriving DecidableEq

/-- **The roles that a list of sockets gives to the sides.** The first entry for a side counts, and
a side without an entry is unused. -/
def Socket.roles (sockets : List Socket) (f : Facing) : SocketRole :=
  match sockets.find? fun s => s.facing == f with
  | some s => s.role
  | none => .empty

end TorchLogic
