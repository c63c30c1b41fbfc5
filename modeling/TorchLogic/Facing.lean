/-!
# Facings

The four horizontal directions of the world, named absolutely. They are listed clockwise from
north, and that order is the order in which the sides of a board are visited everywhere else in
the library.

A quarter turn is `Facing.clockwise`; the other turns are stated through it, and the small lemmas
below say that four quarter turns are the identity.
-/

namespace TorchLogic

/-- **A horizontal direction.** The constructors are in clockwise order. -/
inductive Facing
  | north
  | east
  | south
  | west
  deriving DecidableEq, Hashable

namespace Facing

/-- Every facing, clockwise from north. -/
def all : List Facing := [north, east, south, west]

def clockwise : Facing → Facing
  | north => east
  | east => south
  | south => west
  | west => north

def counterclockwise : Facing → Facing
  | north => west
  | east => north
  | south => east
  | west => south

def opposite (f : Facing) : Facing := f.clockwise.clockwise

def name : Facing → String
  | north => "north"
  | east => "east"
  | south => "south"
  | west => "west"

def ofName? (s : String) : Option Facing := all.find? (·.name == s)

@[simp] theorem mem_all (f : Facing) : f ∈ all := by cases f <;> simp [all]

@[simp] theorem clockwise_counterclockwise (f : Facing) : f.clockwise.counterclockwise = f := by
  cases f <;> rfl

@[simp] theorem counterclockwise_clockwise (f : Facing) : f.counterclockwise.clockwise = f := by
  cases f <;> rfl

@[simp] theorem opposite_opposite (f : Facing) : f.opposite.opposite = f := by cases f <;> rfl

theorem opposite_clockwise (f : Facing) : f.clockwise.opposite = f.opposite.clockwise := rfl

@[simp] theorem clockwise_inj {f g : Facing} : f.clockwise = g.clockwise ↔ f = g := by
  cases f <;> cases g <;> decide

end Facing

end TorchLogic
