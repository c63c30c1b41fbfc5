import TorchLogic.World.Wiring

/-!
# A world moved as a whole

Everything is as far off as everything else: one world holds at each moved position what another
holds at the position (`World.Shifted`). Nothing that is told by looking at neighbours shows that,
because the neighbours of a moved position are the neighbours, moved (`Position.shift_step`). In
particular wires point the same ways (`World.Shifted.wireConnects`).
-/

namespace TorchLogic

variable {p q d : Position}

namespace Position

/-- **A position moved** by the coordinates of another. -/
def shift (p d : Position) : Position := p.offset d.x d.y d.z

theorem shift_inj : p.shift d = q.shift d ↔ p = q := by
  refine ⟨fun eq => ?_, fun eq => eq ▸ rfl⟩
  obtain ⟨x, y, z⟩ := p
  obtain ⟨x', y', z'⟩ := q
  simp only [shift, offset, mk.injEq] at eq ⊢
  omega

theorem shift_offset (p d : Position) (x y z : Int) :
    (p.shift d).offset x y z = (p.offset x y z).shift d := by
  simp only [shift, offset, mk.injEq]
  omega

/-- Every position is another one moved. -/
theorem exists_shift_eq (p q : Position) : ∃ d, p.shift d = q := by
  refine ⟨⟨q.x - p.x, q.y - p.y, q.z - p.z⟩, ?_⟩
  obtain ⟨x, y, z⟩ := q
  simp only [shift, offset, mk.injEq]
  omega

/-- **The neighbours of a moved position** are its neighbours, moved. -/
theorem shift_step (p d : Position) (way : Direction) :
    (p.shift d).step way = (p.step way).shift d := by
  cases way <;> exact shift_offset p d _ _ _

theorem shift_above (p d : Position) : (p.shift d).above = p.above.shift d := shift_step p d .up

theorem shift_below (p d : Position) : (p.shift d).below = p.below.shift d := shift_step p d .down

theorem shift_toward (p d : Position) (f : Facing) : (p.shift d).toward f = (p.toward f).shift d :=
  shift_step p d (.ofFacing f)

end Position

namespace World

/-- **Whether a world holds what another one holds**, moved. -/
structure Shifted (w w' : World) (d : Position) : Prop where
  block : ∀ p, w'.block (p.shift d) = w.block p
  table : ∀ p, w'.table? (p.shift d) = w.table? p

namespace Shifted

variable {w w' : World} (shifted : w.Shifted w' d)

include shifted

theorem wireReaches (p : Position) (f : Facing) :
    w'.wireReaches (p.shift d) f = w.wireReaches p f := by
  simp only [World.wireReaches, Position.shift_toward, Position.shift_above, Position.shift_below,
    shifted.block, shifted.table]

theorem wirePoints (p : Position) (f : Facing) :
    w'.wirePoints (p.shift d) f = w.wirePoints p f := by
  have reaches : w'.wireReaches (p.shift d) = w.wireReaches p := funext (shifted.wireReaches p)
  simp only [World.wirePoints, World.reached, reaches, shifted.block]

/-- **Wires point the same ways.** -/
theorem wireConnects (p : Position) (way : Direction) :
    w'.wireConnects (p.shift d) way = w.wireConnects p way := by
  have points : w'.wirePoints (p.shift d) = w.wirePoints p := funext (shifted.wirePoints p)
  rw [World.wireConnects, World.wireConnects, points]

end Shifted

end World

end TorchLogic
