import TorchLogic.World.Basic

/-!
# Boards

A board is a square of eight by eight breadboard blocks on one level, named by its north-west
corner. The six blocks between the corners along each edge are the socket of that side. The column
of space above the square is the area of the board: what stands there is its circuit.

`Board.cells` lists the square row by row from the north, each row from the west, and
`Board.socketSide?` says which socket a cell belongs to. A board is laid with
`World.layBoard`, and a socket changes its role together with its blocks in `BoardSocket.setRole`.
-/

namespace TorchLogic

/-- **One side of a board**, with its blocks. -/
structure BoardSocket where
  /-- The side of the board. -/
  facing : Facing
  /-- The breadboard blocks of the socket. -/
  blocks : List Position
  /-- What the side is used for. -/
  role : SocketRole
  deriving DecidableEq

namespace BoardSocket

/-- The socket without its blocks. -/
def socket (s : BoardSocket) : Socket := ⟨s.facing, s.role⟩

/-- Whether a position is one of the socket's blocks. -/
def contains (s : BoardSocket) (p : Position) : Bool := s.blocks.contains p

/-- Gives a position a style if a breadboard block is there. -/
def restyle (style : Style) (w : World) (p : Position) : World :=
  if (w.block p).isBreadboard then w.setBlock p (.breadboard style) else w

/-- **Changes the role of a socket**, and the style of those of its blocks that are breadboard
blocks. -/
def setRole (s : BoardSocket) (role : SocketRole) (w : World) : BoardSocket × World :=
  ({ s with role := role }, s.blocks.foldl (restyle (Style.ofSocket s.facing role)) w)

end BoardSocket

/-- **A board**: where it is, and what its sides are used for. -/
structure Board where
  /-- The north-west corner. -/
  corner : Position
  /-- The role of each side. -/
  role : Facing → SocketRole

namespace Board

/-! ### The square -/

/-- The length of an edge. -/
def edge : Nat := 8

/-- The places of the square as steps east and south, row by row. -/
def cells : List (Nat × Nat) :=
  (List.range edge).flatMap fun z => (List.range edge).map fun x => (x, z)

/-- Whether a place along an edge is between the corners. -/
def isInner (n : Nat) : Bool := n != 0 && n != edge - 1

/-- The side whose socket a cell belongs to. -/
def socketSide? (x z : Nat) : Option Facing :=
  if z = 0 ∧ isInner x then some .north
  else if x = edge - 1 ∧ isInner z then some .east
  else if z = edge - 1 ∧ isInner x then some .south
  else if x = 0 ∧ isInner z then some .west
  else none

/-- The cell of the `n`-th place along the edge of a side. -/
def edgeCell (n : Nat) : Facing → Nat × Nat
  | .north => (n, 0)
  | .east => (edge - 1, n)
  | .south => (n, edge - 1)
  | .west => (0, n)

/-- The position of a cell of the square with a given corner. -/
def cellAt (corner : Position) (x z : Nat) : Position := corner.offset x 0 z

/-- The blocks of a side's socket, from the north or from the west. -/
def socketBlocks (corner : Position) (f : Facing) : List Position :=
  ((List.range edge).filter isInner).map fun n =>
    cellAt corner (edgeCell n f).1 (edgeCell n f).2

/-! ### A board's sockets and area -/

def socket (b : Board) (f : Facing) : BoardSocket := ⟨f, socketBlocks b.corner f, b.role f⟩

/-- The sides that have a role, clockwise from north. -/
def sidesWith (b : Board) (r : SocketRole) : List Facing := Facing.all.filter fun f => b.role f = r

/-- The input sides, clockwise from north. -/
def inputs (b : Board) : List Facing := b.sidesWith .input

/-- The output sides, clockwise from north. -/
def outputs (b : Board) : List Facing := b.sidesWith .output

/-- The input side whose socket has a block at a position. -/
def inputSideAt? (b : Board) (p : Position) : Option Facing :=
  b.inputs.find? fun f => (b.socket f).contains p

/-- Whether a coordinate lies within the edge that starts at another. -/
def within (start n : Int) : Bool := start ≤ n && n < start + edge

/-- **Whether a position is in the area of the board**: above the square, at any height. -/
def covers (b : Board) (p : Position) : Bool :=
  b.corner.y < p.y && within b.corner.x p.x && within b.corner.z p.z

/-- **Changes the role of a side**, in the board and in the world. -/
def setRole (b : Board) (w : World) (f : Facing) (r : SocketRole) : Board × World :=
  ({ b with role := fun g => if g = f then r else b.role g }, ((b.socket f).setRole r w).2)

end Board

/-- **Lays a board**: each cell becomes a breadboard block in the style of its socket's role.
Whatever stood there is gone. -/
def World.layBoard (w : World) (corner : Position) (role : Facing → SocketRole) : World :=
  Board.cells.foldl (fun w (x, z) =>
    w.setBreadboard (Board.cellAt corner x z) <|
      match Board.socketSide? x z with
      | some f => Style.ofSocket f (role f)
      | none => .plain) w

end TorchLogic
