import TorchLogic.Facing

/-!
# Sides

The four sides of something that faces somewhere: its front, right, back and left. A side is an
angle rather than a direction, so a side together with a facing gives a facing
(`Side.absolute`), and two facings differ by exactly one side (`Side.relative`). The two are
inverse to each other (`Side.absolute_relative`, `Side.relative_absolute`) and neither changes
when everything is turned together (`Side.relative_clockwise`).
-/

namespace TorchLogic

/-- **A side relative to a front.** The constructors are in clockwise order. -/
inductive Side
  | front
  | right
  | back
  | left
  deriving DecidableEq, Hashable

namespace Side

/-- Every side, clockwise from the front. -/
def all : List Side := [front, right, back, left]

def clockwise : Side → Side
  | front => right
  | right => back
  | back => left
  | left => front

def name : Side → String
  | front => "front"
  | right => "right"
  | back => "back"
  | left => "left"

def ofName? (s : String) : Option Side := all.find? (·.name == s)

/-- The key under which a side's display name is filed. -/
def messageKey (s : Side) : String := "direction." ++ s.name

/-- Where a side looks when the front looks at `facing`. -/
def absolute (facing : Facing) : Side → Facing
  | front => facing
  | right => facing.clockwise
  | back => facing.opposite
  | left => facing.counterclockwise

/-- **The side between two facings**: the one that looks at `target` when the front looks at
`facing`. -/
def relative (facing target : Facing) : Side :=
  if target = facing then front
  else if target = facing.clockwise then right
  else if target = facing.opposite then back
  else left

@[simp] theorem mem_all (s : Side) : s ∈ all := by cases s <;> simp [all]

@[simp] theorem absolute_relative (facing target : Facing) :
    absolute facing (relative facing target) = target := by
  cases facing <;> cases target <;> rfl

@[simp] theorem relative_absolute (facing : Facing) (s : Side) :
    relative facing (absolute facing s) = s := by
  cases facing <;> cases s <;> rfl

@[simp] theorem relative_inj {facing f g : Facing} :
    relative facing f = relative facing g ↔ f = g := by
  refine ⟨fun eq => ?_, congrArg (relative facing)⟩
  rw [← absolute_relative facing f, eq, absolute_relative]

/-- Turning both facings leaves the side between them alone. -/
@[simp] theorem relative_clockwise (facing target : Facing) :
    relative facing.clockwise target.clockwise = relative facing target := by
  cases facing <;> cases target <;> rfl

/-- Turning the target alone turns the side. -/
theorem relative_clockwise_right (facing target : Facing) :
    relative facing target.clockwise = (relative facing target).clockwise := by
  cases facing <;> cases target <;> rfl

theorem absolute_clockwise (facing : Facing) (s : Side) :
    absolute facing.clockwise s = (absolute facing s).clockwise := by
  cases facing <;> cases s <;> rfl

@[simp] theorem clockwise_inj {s t : Side} : s.clockwise = t.clockwise ↔ s = t := by
  cases s <;> cases t <;> decide

end Side

end TorchLogic
