import TorchLogic.Board.Basic

/-!
# Finding the board of a block

From a breadboard block the north-west corner is found by following breadboard blocks north and
then west, and again west and then north; on anything but a rectangle the two may disagree. Then
the square is inspected cell by cell (`Board.inspect`): every cell is a breadboard block, nothing
outside the square touches it on its level, the blocks of a socket look alike, and all others are
plain. On the way the sockets are gathered, block by block (`Board.Sides`).
-/

namespace TorchLogic

/-- **Why a block belongs to no board.** Each cause names the position at which it was found. -/
inductive BoardError
  /-- The block to start from is no breadboard block. -/
  | targetIsNoBreadboard (p : Position)
  /-- A breadboard block outside the square touches it. -/
  | notIsolated (p : Position)
  /-- A cell of the square is no breadboard block. -/
  | incomplete (p : Position)
  /-- The block does not look as its place in the square demands. -/
  | styleBroken (p : Position)
  deriving DecidableEq

namespace BoardError

def message : BoardError → String
  | targetIsNoBreadboard p => "block at " ++ p.render ++ " is not a breadboard"
  | notIsolated p => "board is not isolated near " ++ p.render
  | incomplete p => "board is not 8x8: missing breadboard at " ++ p.render
  | styleBroken p => "breadboard block states are inconsistent at " ++ p.render

/-- The cause as a word for other programs. -/
def reasonCode : BoardError → String
  | targetIsNoBreadboard _ => "target_isnt_breadboard"
  | notIsolated _ => "board_not_isolated"
  | incomplete _ => "grid_dimensions_incorrect"
  | styleBroken _ => "board_states_broken"

/-- The key under which the message for a user is filed. -/
def messageKey (e : BoardError) : String := "board.error." ++ e.reasonCode

end BoardError

/-- **The last of the breadboard blocks** that follow one another in a direction from a position. -/
def World.lastBreadboard (w : World) (d : Direction) (p : Position) : Position :=
  if (w.block (p.step d)).isBreadboard then w.lastBreadboard d (p.step d) else p
termination_by w.positions.countP fun q => p.along d < q.along d
decreasing_by
  rename_i board
  have mem : p.step d ∈ w.positions :=
    World.mem_positions fun air => by simp [air, Block.isBreadboard] at board
  have far := Position.along_step d p
  refine countP_lt_of_mem mem ?_ ?_ ?_
  · intro q h
    simp only [decide_eq_true_eq] at h ⊢
    omega
  · simp only [decide_eq_true_eq]
    omega
  · simp

namespace Board

/-! ### Inspecting the square -/

/-- Whether a cell is on the edge of a side. -/
def onEdge (x z : Nat) : Facing → Bool
  | .north => z == 0
  | .east => x == edge - 1
  | .south => z == edge - 1
  | .west => x == 0

/-- The place of a cell along the edge of a side. -/
def alongEdge (x z : Nat) : Facing → Nat
  | .north => x
  | .east => z
  | .south => x
  | .west => z

/-- **The side whose socket the cell at a position is in**, if any. The sides are gone through one
by one, and beside an edge that the cell is on there must be no breadboard block. -/
def inspectEdges (w : World) (p : Position) (x z : Nat) : Except BoardError (Option Facing) :=
  Facing.all.foldlM (fun side f =>
    if onEdge x z f then
      if (w.block (p.toward f)).isBreadboard then .error (.notIsolated p)
      else .ok (if isInner (alongEdge x z f) then some f else side)
    else .ok side) none

/-- **What has been found of the sides** of a square: the blocks of each socket, and the style of
the first of them. -/
structure Sides where
  blocks : Facing → List Position
  style? : Facing → Option Style

namespace Sides

/-- Nothing has been found yet. -/
def unknown : Sides := ⟨fun _ => [], fun _ => none⟩

/-- Adds a block to the socket of a side. The first block decides on the style. -/
def add (s : Sides) (f : Facing) (p : Position) (style : Style) : Sides where
  blocks g := if g = f then s.blocks g ++ [p] else s.blocks g
  style? g := if g = f then some ((s.style? g).getD style) else s.style? g

theorem blocks_add (s : Sides) (f g : Facing) (p : Position) (style : Style) :
    (s.add f p style).blocks g = if g = f then s.blocks g ++ [p] else s.blocks g :=
  rfl

theorem style?_add (s : Sides) (f g : Facing) (p : Position) (style : Style) :
    (s.add f p style).style? g = if g = f then some ((s.style? g).getD style) else s.style? g :=
  rfl

/-- The socket that has been found on a side. -/
def socket (s : Sides) (f : Facing) : BoardSocket :=
  ⟨f, s.blocks f, ((s.style? f).getD .plain).role⟩

end Sides

/-- **Inspects a cell** of the square with a given corner. All blocks of a socket look like the
first one, and what is in no socket is plain. -/
def inspect (w : World) (corner : Position) (s : Sides) (cell : Nat × Nat) :
    Except BoardError Sides :=
  let p := cellAt corner cell.1 cell.2
  match w.block p with
  | .breadboard style => do
    match ← inspectEdges w p cell.1 cell.2 with
    | some f =>
      if (s.style? f).getD style = style then .ok (s.add f p style) else .error (.styleBroken p)
    | none => if style = .plain then .ok s else .error (.styleBroken p)
  | _ => .error (.incomplete p)

/-- **The board of a block**, or the first thing that is wrong with it. -/
def resolve (w : World) (p : Position) : Except BoardError Board :=
  if (w.block p).isBreadboard then
    let corner := w.lastBreadboard .west (w.lastBreadboard .north p)
    -- Going round the other way ends elsewhere unless the board is a rectangle.
    if corner = w.lastBreadboard .north (w.lastBreadboard .west p) then do
      let sides ← cells.foldlM (inspect w corner) .unknown
      .ok ⟨corner, fun f => (sides.socket f).role⟩
    else .error (.notIsolated corner)
  else .error (.targetIsNoBreadboard p)

end Board

end TorchLogic
