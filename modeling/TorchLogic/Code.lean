import TorchLogic.Side
import TorchLogic.Socket

/-!
# Numeric codes

Sides and socket roles are exchanged with other programs as small numbers: the sides are 0 to 3
clockwise from the front, and the roles empty, input and output are 0 to 2. Decoding a number that
is out of range is an error of its own (`CodeError`), except in a list of side codes, where such
numbers are passed over (`Side.ofCodes`).
-/

namespace TorchLogic

/-- **A number that names nothing.** -/
inductive CodeError
  | side (code : Nat)
  | role (code : Int)
  deriving DecidableEq

def CodeError.message : CodeError → String
  | .side code => "incorrect relative direction index: " ++ toString code
  | .role code => "incorrect socket state number: " ++ toString code

namespace Side

def code : Side → Nat
  | front => 0
  | right => 1
  | back => 2
  | left => 3

def ofCode (n : Nat) : Except CodeError Side :=
  match all[n]? with
  | some side => .ok side
  | none => .error (.side n)

/-- The codes of a list of sides. -/
def codes (sides : List Side) : List Nat := sides.map code

/-- The sides that a list of codes names; codes of no side are left out. -/
def ofCodes (codes : List Nat) : List Side := codes.filterMap (all[·]?)

@[simp] theorem ofCode_code (s : Side) : ofCode s.code = .ok s := by cases s <;> rfl

@[simp] theorem ofCodes_codes (sides : List Side) : ofCodes (codes sides) = sides := by
  have code_get (s : Side) : all[s.code]? = some s := by cases s <;> rfl
  induction sides with
  | nil => rfl
  | cons s rest ih =>
    simp only [ofCodes, codes] at ih ⊢
    simp [code_get, ih]

end Side

namespace SocketRole

def code : SocketRole → Int
  | empty => 0
  | input => 1
  | output => 2

def ofCode (n : Int) : Except CodeError SocketRole :=
  match all.find? (·.code == n) with
  | some role => .ok role
  | none => .error (.role n)

@[simp] theorem ofCode_code (r : SocketRole) : ofCode r.code = .ok r := by cases r <;> rfl

end SocketRole

end TorchLogic
