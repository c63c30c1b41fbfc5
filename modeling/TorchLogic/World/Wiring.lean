import TorchLogic.World.Basic

/-!
# Where a wire points

A wire reaches toward a neighbouring component, and up or down a step to another wire. What it
points at follows from what it reaches: a wire that reaches nothing points all four ways, and a wire
that reaches one way points straight through as well.
-/

namespace TorchLogic.World

/-- **Whether the wire at a position reaches a way**, before the rules for none and for one. A wire
or torch on that side is reached, and a nested circuit whose side facing the wire is in use; beyond
any other block, a wire one step down, or one step up if nothing covers the wire. -/
def wireReaches (w : World) (p : Position) (f : Facing) : Bool :=
  let side := p.toward f
  match w.block side with
  | .wire | .torch | .wallTorch _ => true
  | .circuit facing => (w.table? side).any (·.uses (Side.relative facing f.opposite))
  | b =>
    (!b.conducts && (w.block side.below).isWire)
      || (!(w.block p.above).conducts && (w.block side.above).isWire)

/-- The ways that the wire at a position reaches. -/
def reached (w : World) (p : Position) : List Facing := Facing.all.filter (w.wireReaches p)

/-- **Whether the wire at a position points a way.** Without a wire there it does not. -/
def wirePoints (w : World) (p : Position) (f : Facing) : Bool :=
  (w.block p).isWire &&
    match w.reached p with
    | [] => true
    | [only] => f == only || f == only.opposite
    | several => several.contains f

/-- Whether the wire at a position points in a direction; it never points up or down. -/
def wireConnects (w : World) (p : Position) (d : Direction) : Bool :=
  d.facing?.any (w.wirePoints p)

end TorchLogic.World
