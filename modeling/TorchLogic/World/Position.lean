import TorchLogic.Facing

/-!
# Positions and directions

A position has three whole coordinates: `x` grows east, `y` grows up and `z` grows south. A
direction is one of the six ways to a neighbour; four of them are facings.

`Position.along` measures how far a position lies in a direction. One step in a direction adds one
to it (`Position.along_step`), which is what makes walking in one direction through finitely many
blocks end.
-/

namespace TorchLogic

/-- **A way to a neighbouring position.** -/
inductive Direction
  | down
  | up
  | north
  | south
  | west
  | east
  deriving DecidableEq, Hashable

namespace Direction

/-- Every direction, in the order in which neighbours are looked at. -/
def all : List Direction := [down, up, north, south, west, east]

/-- The written form of a direction. -/
def name : Direction → String
  | down => "down"
  | up => "up"
  | north => "north"
  | south => "south"
  | west => "west"
  | east => "east"

/-- The direction with a given written form. -/
def ofName? (s : String) : Option Direction := all.find? (·.name == s)

/-- The way back. -/
def opposite : Direction → Direction
  | down => up
  | up => down
  | north => south
  | south => north
  | west => east
  | east => west

/-- The direction of a facing. -/
def ofFacing : Facing → Direction
  | .north => north
  | .east => east
  | .south => south
  | .west => west

/-- The facing of a direction that is not vertical. -/
def facing? : Direction → Option Facing
  | north => some .north
  | east => some .east
  | south => some .south
  | west => some .west
  | down | up => none

/-- The directions that are not vertical, clockwise from north. -/
def horizontal : List Direction := Facing.all.map ofFacing

@[simp] theorem opposite_opposite (d : Direction) : d.opposite.opposite = d := by cases d <;> rfl

@[simp] theorem facing?_ofFacing (f : Facing) : (ofFacing f).facing? = some f := by
  cases f <;> rfl

theorem opposite_ofFacing (f : Facing) : (ofFacing f).opposite = ofFacing f.opposite := by
  cases f <;> rfl

end Direction

/-- **A place in the world.** -/
structure Position where
  /-- Grows east. -/
  x : Int
  /-- Grows up. -/
  y : Int
  /-- Grows south. -/
  z : Int
  deriving DecidableEq, Hashable

namespace Position

/-- The position a given way off. -/
def offset (p : Position) (dx dy dz : Int) : Position := ⟨p.x + dx, p.y + dy, p.z + dz⟩

/-- The neighbour in a direction. -/
def step (p : Position) : Direction → Position
  | .down => p.offset 0 (-1) 0
  | .up => p.offset 0 1 0
  | .north => p.offset 0 0 (-1)
  | .south => p.offset 0 0 1
  | .west => p.offset (-1) 0 0
  | .east => p.offset 1 0 0

/-- The neighbour above. -/
def above (p : Position) : Position := p.step .up

/-- The neighbour below. -/
def below (p : Position) : Position := p.step .down

/-- The neighbour that a facing looks at. -/
def toward (p : Position) (f : Facing) : Position := p.step (.ofFacing f)

/-- How far a position lies in a direction. -/
def along (d : Direction) (p : Position) : Int :=
  match d with
  | .down => -p.y
  | .up => p.y
  | .north => -p.z
  | .south => p.z
  | .west => -p.x
  | .east => p.x

/-- The coordinates in brackets. -/
def render (p : Position) : String :=
  "(" ++ toString p.x ++ ", " ++ toString p.y ++ ", " ++ toString p.z ++ ")"

@[simp] theorem step_step_opposite (p : Position) (d : Direction) :
    (p.step d).step d.opposite = p := by
  cases p
  cases d <;> simp only [step, offset, Direction.opposite, mk.injEq] <;> omega

theorem toward_y (p : Position) (f : Facing) : (p.toward f).y = p.y := by
  cases f <;> simp [toward, Direction.ofFacing, step, offset]

theorem along_step (d : Direction) (p : Position) : along d (p.step d) = along d p + 1 := by
  cases d <;> simp only [along, step, offset] <;> omega

end Position

end TorchLogic
