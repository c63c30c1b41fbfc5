import TorchLogic.Proofs.Board.Lay
import TorchLogic.Proofs.Board.Motion

/-!
# What a board sees of the world

A board is where it is because of the blocks on its square and beside it
(`Board.resolve_of_sameNear`), and its circuit is made of what stands in its area (`Board.Near`).
Nothing outside powers anything inside. But a wire looks at all that is around it before it points
anywhere, and around a wire at the rim of the area is the outside. Where that wire stands beside a
full block, what it points at matters.

So two worlds that are the same near a board give it the same table if the wires at the rim point at
the same full blocks (`Board.table?_eq_of_sameNear`). They need not give it the same table
otherwise: a wire outside that turns a wire at the rim aside is enough (`Board.edgeInverter_leaks`).
-/

namespace TorchLogic.Board

variable {b : Board} {w₁ w₂ : World} {p q : Position} {f : Facing}

/-- **Whether a position is near a board**: on its square, beside the square on the same level, or
in the area. -/
inductive Near (b : Board) (p : Position) : Prop
  | square : OnSquare b.corner p → Near b p
  | beside {q : Position} {f : Facing} : OnSquare b.corner q → q.toward f = p → Near b p
  | area : b.covers p = true → Near b p

/-- **Whether two worlds are the same near a board.** -/
def SameNear (b : Board) (w₁ w₂ : World) : Prop :=
  ∀ p, b.Near p → w₂.block p = w₁.block p ∧ w₂.table? p = w₁.table? p

theorem SameNear.block (same : b.SameNear w₁ w₂) (near : b.Near p) : w₂.block p = w₁.block p :=
  (same p near).1

theorem SameNear.table (same : b.SameNear w₁ w₂) (near : b.Near p) : w₂.table? p = w₁.table? p :=
  (same p near).2

/-- A world stays the same near a board when a block is set elsewhere. -/
theorem sameNear_setBlock (w : World) (c : Block) (far : ¬ b.Near p) :
    b.SameNear w (w.setBlock p c) := by
  intro q near
  have ne : p ≠ q := fun eq => far (eq ▸ near)
  rw [World.block_setBlock, World.table?_setBlock, if_neg ne, if_neg fun h => ne h.1]
  exact ⟨rfl, rfl⟩

/-- Below the area is the square. -/
theorem Near.below (h : b.covers p = true) : b.Near p.below := by
  by_cases low : p.y = b.corner.y + 1
  · refine .square ?_
    rw [covers_iff] at h
    simp only [OnSquare, Position.below, Position.step, Position.offset]
    omega
  · refine .area ?_
    rw [covers_iff] at h ⊢
    simp only [Position.below, Position.step, Position.offset]
    omega

/-! ### The board -/

theorem Laid.of_sameNear {styles : Facing → Style} (laid : Laid w₁ b.corner styles)
    (same : b.SameNear w₁ w₂) : Laid w₂ b.corner styles :=
  laid.congr (fun _ mem => same.block (.square mem)) fun _ _ mem => same.block (.beside mem rfl)

/-- **A board is where it is because of what is near it.** -/
theorem resolve_of_sameNear (h : resolve w₁ p = .ok b) (same : b.SameNear w₁ w₂) :
    resolve w₂ p = .ok b := by
  obtain ⟨mem, styles, laid, roles⟩ := resolve_eq_ok_iff.1 h
  exact resolve_eq_ok_iff.2 ⟨mem, styles, laid.of_sameNear same, roles⟩

/-! ### Wires -/

theorem SameNear.wireReaches (same : b.SameNear w₁ w₂) (here : b.covers p = true)
    (side : b.covers (p.toward f) = true) : w₂.wireReaches p f = w₁.wireReaches p f := by
  unfold World.wireReaches
  simp only [same.block (.area side), same.table (.area side), same.block (.below side),
    same.block (.area (covers_above side)), same.block (.area (covers_above here))]

/-- **A wire with the area all around points as it does**, whatever is outside. -/
theorem SameNear.wirePoints (same : b.SameNear w₁ w₂) (here : b.covers p = true)
    (inside : ∀ g, b.covers (p.toward g) = true) : w₂.wirePoints p f = w₁.wirePoints p f := by
  have reached : w₂.reached p = w₁.reached p :=
    List.filter_congr fun g _ => same.wireReaches here (inside g)
  rw [World.wirePoints, World.wirePoints, same.block (.area here), reached]

/-- **What is near a board is all that matters to it**, but for what wires at the rim point at. -/
theorem SameNear.carries (same : b.SameNear w₁ w₂)
    (rim : ∀ q f g, b.WireAt w₁ q → b.FullAt w₁ (q.toward f) → b.covers (q.toward g) = false →
      w₂.wirePoints q f = w₁.wirePoints q f) : Motion.rest.Carries b b w₁ w₂ where
  role _ := rfl
  socket _ _ := Iff.rfl
  covers _ := rfl
  block p covered := (same.block (.area covered)).trans Block.mapFacing_id.symm
  table p covered := same.table (.area covered)
  points q f wire full := by
    -- A wire inside the rim has all that decides where it points within reach of the board.
    by_cases inside : ∀ g, b.covers (q.toward g) = true
    · exact same.wirePoints wire.1 inside
    · obtain ⟨g, outside⟩ := not_forall.1 inside
      exact rim q f g wire full (Bool.eq_false_iff.2 outside)

/-- **Worlds that are the same near a board** have the board in the same place, and give it the same
table, if wires at the rim of the area point at the same full blocks. -/
theorem table?_eq_of_sameNear (h : resolve w₁ p = .ok b) (same : b.SameNear w₁ w₂) :
    resolve w₂ p = .ok b ∧
    ((∀ q f g, b.WireAt w₁ q → b.FullAt w₁ (q.toward f) → b.covers (q.toward g) = false →
      w₂.wirePoints q f = w₁.wirePoints q f) → b.table? w₂ = b.table? w₁) :=
  ⟨resolve_of_sameNear h same, fun rim => (same.carries rim).table?_eq fun _ => rfl⟩

/-! ### Beside the inverter at the edge -/

open EdgeInverter in
/-- The wire on the east socket has the outside beside it. -/
theorem not_near_outside : ¬ board.Near ⟨8, 1, 2⟩ := by
  rintro (square | ⟨square, eq⟩ | area)
  · exact absurd square (by decide)
  -- Beside the square is the level of the square.
  · have level := congrArg Position.y eq
    have on : _ = (0 : Int) := square.1
    rw [Position.toward_y, on] at level
    exact absurd level (by decide)
  · exact absurd area (by decide)

open EdgeInverter in
theorem eq_of_wire (h : world.block p = .wire) : p = ⟨7, 1, 2⟩ ∨ p = ⟨6, 1, 0⟩ := by
  have laid : (World.empty.layBoard ⟨0, 0, 0⟩ EdgeInverter.role).block p ≠ .wire := by
    rcases World.block_layBoard_cases World.empty ⟨0, 0, 0⟩ EdgeInverter.role p with
      ⟨style, eq⟩ | eq
    · rw [eq]
      exact nofun
    · rw [eq, World.block_empty]
      exact nofun
  simp only [world, List.foldl_cons, List.foldl_nil, World.block_setBlock] at h
  grind

open EdgeInverter in
/-- A full block outside does not show: the wire beside it points as before. -/
theorem table?_eq_of_sameNear_edgeInverter :
    resolve world ⟨3, 0, 4⟩ = .ok board ∧ board.SameNear world (world.setBlock ⟨8, 1, 2⟩ .solid) ∧
    resolve (world.setBlock ⟨8, 1, 2⟩ .solid) ⟨3, 0, 4⟩ = .ok board ∧
    board.table? (world.setBlock ⟨8, 1, 2⟩ .solid) = board.table? world := by
  have same : board.SameNear world (world.setBlock ⟨8, 1, 2⟩ .solid) :=
    sameNear_setBlock world .solid not_near_outside
  obtain ⟨found, table⟩ := table?_eq_of_sameNear resolve_eq same
  refine ⟨resolve_eq, same, found, table fun q f g wire full _ => ?_⟩
  rcases eq_of_wire wire.2 with rfl | rfl
  · -- the first wire has its one full block to the north
    have clear (f : Facing) (ne : f ≠ .north) :
        (world.block ((⟨7, 1, 2⟩ : Position).toward f)).conducts = false := by
      cases f with
      | north => exact absurd rfl ne
      | _ => cbv
    by_cases north : f = .north
    · rw [north]
      cbv
    · exact absurd full.2 (by rw [clear f north]; exact Bool.false_ne_true)
  · -- the second has none beside it
    have clear : (world.block ((⟨6, 1, 0⟩ : Position).toward f)).conducts = false := by
      cases f <;> cbv
    exact absurd full.2 (by rw [clear]; exact Bool.false_ne_true)

open EdgeInverter in
/-- **The outside leaks in.** A wire outside draws the wire on the east socket aside, which powers
the torch no more, and the output is on for good. -/
theorem edgeInverter_leaks : resolve world ⟨3, 0, 4⟩ = .ok board ∧
    board.SameNear world (world.setBlock ⟨8, 1, 2⟩ .wire) ∧
    board.table? (world.setBlock ⟨8, 1, 2⟩ .wire) ≠ board.table? world := by
  refine ⟨resolve_eq, sameNear_setBlock world .wire not_near_outside, fun eq => ?_⟩
  have on : board.table? (world.setBlock ⟨8, 1, 2⟩ .wire) =
      .ok (some ⟨[.right, .left], [.front], [⟨0b1111⟩], by decide, rfl, by decide⟩) := by
    cbv
  rw [on, table?_eq] at eq
  simp [EdgeInverter.table] at eq

end TorchLogic.Board
