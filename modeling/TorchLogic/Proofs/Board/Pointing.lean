import TorchLogic.Proofs.Layout.World
import TorchLogic.Proofs.World.Turn

/-!
# Wires that join and wires that point

Whether two wires are joined is decided twice. Tracing joins them by where they stand and by what is
above the lower one (`World.Joined`). Where a wire points is seen by looking at what stands beside
it first (`World.wireReaches`), and a step up or down is looked for only if what stands there is
none of the components that a wire connects to.

For two wires on one level it comes to the same, and for a step it does too unless the block under
the upper one is in the way: a nested circuit whose facing side is not in use ends the search, and
the wire behind it is not seen (`World.TurnedAway`). That is the only difference
(`World.reaches_iff_of_joined`). It shows unless the wire points that way anyhow, as one that
reaches nothing else does, or one that reaches straight back only (`World.connects_iff_of_joined`),
and then power goes where no connection is seen (`World.joined_unseen`).
-/

namespace TorchLogic

variable {w : World} {p q : Position} {f : Facing}

theorem Position.above_toward (p : Position) (f : Facing) :
    p.above.toward f = (p.toward f).above := by
  cases f <;> simp [above, toward, Direction.ofFacing, step, offset]

theorem Position.above_y (p : Position) : p.above.y = p.y + 1 := rfl

namespace World

/-! ### What a wire reaches -/

/-- **Whether a nested circuit turns a wire away**: one stands beside it, with nothing on the side
that faces the wire. -/
def TurnedAway (w : World) (p : Position) (f : Facing) : Prop :=
  ∃ facing, w.block (p.toward f) = .circuit facing ∧
    (w.table? (p.toward f)).any (·.uses (Side.relative facing f.opposite)) = false

/-- **Whether one position is in the column that a way leads to** from another. -/
def Across (p q : Position) (f : Facing) : Prop :=
  q.x = (p.toward f).x ∧ q.z = (p.toward f).z

theorem Across.symm (across : Across p q f) : Across q p f.opposite := by
  unfold Across at *
  cases f <;>
    simp only [Facing.opposite, Facing.clockwise, Position.toward, Direction.ofFacing,
      Position.step, Position.offset] at across ⊢ <;>
    omega

/-- Where the other wire stands, seen from one of two that join. -/
theorem joined_across_iff : w.Joined p q ∧ Across p q f ↔ q = p.toward f ∨
    (w.block p.above).conducts = false ∧ q = (p.toward f).above ∨
    (w.block (p.toward f)).conducts = false ∧ q = (p.toward f).below := by
  -- A position in the column that one way leads to is in no column that another way leads to.
  have facing {g : Facing} {q : Position} (column : q.x = (p.toward g).x ∧ q.z = (p.toward g).z)
      (across : Across p q f) : g = f := by
    unfold Across at across
    cases f <;> cases g <;>
      simp only [Position.toward, Direction.ofFacing, Position.step,
        Position.offset] at column across <;>
      first | rfl | omega
  -- Going up or down stays in the column.
  have higher (q : Position) : q.above.x = q.x ∧ q.above.z = q.z := by
    simp [Position.above, Position.step, Position.offset]
  have lower (q : Position) : q.below.x = q.x ∧ q.below.z = q.z := by
    simp [Position.below, Position.step, Position.offset]
  rw [Board.joined_iff]
  simp only [Position.above_toward]
  constructor
  · rintro ⟨⟨g, rfl⟩ | ⟨free, g, rfl⟩ | ⟨g, free, rfl⟩, across⟩
    · obtain rfl := facing ⟨rfl, rfl⟩ across
      exact .inl rfl
    · obtain rfl := facing (higher _) across
      exact .inr (.inl ⟨free, rfl⟩)
    · obtain rfl := facing (lower _) across
      exact .inr (.inr ⟨free, rfl⟩)
  · rintro (rfl | ⟨free, rfl⟩ | ⟨free, rfl⟩)
    · exact ⟨.inl ⟨f, rfl⟩, rfl, rfl⟩
    · exact ⟨.inr (.inl ⟨free, f, rfl⟩), higher _⟩
    · exact ⟨.inr (.inr ⟨f, free, rfl⟩), lower _⟩

/-- **A wire reaches a wire that it joins**, unless a nested circuit turns it away. -/
theorem reaches_iff_of_joined (other : w.block q = .wire) (across : Across p q f)
    (joined : w.Joined p q) : w.wireReaches p f = true ↔ ¬ w.TurnedAway p f := by
  have stands := joined_across_iff.1 ⟨joined, across⟩
  unfold wireReaches TurnedAway
  dsimp only
  cases side : w.block (p.toward f) with
  -- a wire or a torch beside it is reached at once
  | wire | torch | wallTorch => simp
  -- a circuit is reached unless it turns the wire away
  | circuit facing => simp
  -- Nothing else ends the search, so the wire is found a step up or a step down.
  | air | solid | breadboard =>
    refine ⟨fun _ => ?_, fun _ => ?_⟩
    · rintro ⟨facing, circuit, -⟩
      cases circuit
    rcases stands with level | ⟨free, rfl⟩ | ⟨free, rfl⟩
    · rw [level, side] at other
      cases other
    · simp [free, other, Block.isWire]
    · rw [side] at free
      simp [free, other, Block.isWire]

/-- **A wire points at a wire that it joins**, unless a nested circuit turns it away and it reaches
anything but straight back. -/
theorem points_iff_of_joined (wire : w.block p = .wire) (other : w.block q = .wire)
    (across : Across p q f) (joined : w.Joined p q) : w.wireConnects p (.ofFacing f) = true ↔
      (w.TurnedAway p f → ∀ g, w.wireReaches p g = true → g = f.opposite) := by
  rw [wireConnects, Direction.facing?_ofFacing, Option.any_some, wirePoints_iff, and_iff_right wire,
    reaches_iff_of_joined other across joined, ← imp_iff_not_or]

end World

/-! ### Joined when traced -/

/-- **Tracing joins wires that join**: each is a feed of the other. -/
theorem Board.exists_wireFeeds_of_joined {b : Board} (wire : b.WireAt w p) (other : b.WireAt w q)
    (joined : w.Joined p q) : ∃ feeds, b.wireFeeds w p = .ok feeds ∧ Feed.wire q ∈ feeds := by
  obtain ⟨feeds, found, lists⟩ := finds_wireFeeds wire
  obtain ⟨feed, mem, eq⟩ := lists.complete (.wire q)
    ⟨powers_wire_wire_iff.2 ⟨other, wire, joined_symm joined⟩, fun _ => Terminal.noConfusion⟩
  refine ⟨feeds, found, ?_⟩
  cases feed with
  | wire q' =>
    cases eq
    exact mem
  | torch _ => cases eq
  | circuit _ _ _ => cases eq

namespace World

/-- **Wires that join point at each other**, which tracing joins on any board. The only exception is
a wire that a nested circuit turns away, and that reaches anything but straight back. On one level
there is none. -/
theorem connects_iff_of_joined (w : World) (p q : Position) (f : Facing) (wire : w.block p = .wire)
    (other : w.block q = .wire) (across : Across p q f) (joined : w.Joined p q) :
    (∀ b : Board, b.WireAt w p → b.WireAt w q →
      (∃ feeds, b.wireFeeds w p = .ok feeds ∧ .wire q ∈ feeds) ∧
        ∃ feeds, b.wireFeeds w q = .ok feeds ∧ .wire p ∈ feeds) ∧
    (w.wireConnects p (.ofFacing f) = true ↔
      (w.TurnedAway p f → ∀ g, w.wireReaches p g = true → g = f.opposite)) ∧
    (w.wireConnects q (.ofFacing f.opposite) = true ↔
      (w.TurnedAway q f.opposite → ∀ g, w.wireReaches q g = true → g = f)) ∧
    (p.y = q.y → ¬ w.TurnedAway p f ∧ ¬ w.TurnedAway q f.opposite) := by
  have joined' := Board.joined_symm joined
  refine ⟨fun b wire other => ?_, points_iff_of_joined wire other across joined,
    ?_, fun level => ?_⟩
  · -- each of the two feeds the other
    exact ⟨Board.exists_wireFeeds_of_joined wire other joined,
      Board.exists_wireFeeds_of_joined other wire joined'⟩
  · have points := points_iff_of_joined other wire across.symm joined'
    rwa [Facing.opposite_opposite] at points
  · -- What stands beside each of the two is the other one.
    have height := Position.toward_y p f
    rcases joined_across_iff.1 ⟨joined, across⟩ with rfl | ⟨-, rfl⟩ | ⟨-, rfl⟩
    · refine ⟨?_, ?_⟩
      · rintro ⟨facing, circuit, -⟩
        rw [other] at circuit
        cases circuit
      · rintro ⟨facing, circuit, -⟩
        rw [Board.toward_opposite, wire] at circuit
        cases circuit
    · rw [Position.above_y] at level
      omega
    · rw [Position.below_y] at level
      omega

/-! ### A step over a nested circuit -/

open Layout (Repeater.table)

namespace Kerb

def board : Board := ⟨⟨0, 0, 0⟩, fun f => if f = .north then .output else .empty⟩

/-- **A step up over a nested repeater** that faces a given way. The lower wire stands on the north
socket of a board, with another wire south of it. -/
def world (facing : Facing) : World :=
  ((((empty.layBoard board.corner board.role).placeCircuit ⟨4, 1, 0⟩ facing Repeater.table).setBlock
    ⟨3, 1, 0⟩ .wire).setBlock ⟨4, 2, 0⟩ .wire).setBlock ⟨3, 1, 1⟩ .wire

theorem lower_eq (facing : Facing) : (world facing).block ⟨3, 1, 0⟩ = .wire := by
  cases facing <;> cbv

theorem upper_eq (facing : Facing) : (world facing).block ⟨4, 2, 0⟩ = .wire := by
  cases facing <;> cbv

theorem joined (facing : Facing) : (world facing).Joined ⟨3, 1, 0⟩ ⟨4, 2, 0⟩ :=
  .up ⟨3, 1, 0⟩ .east (by cases facing <;> cbv)

theorem turnedAway_iff (facing : Facing) : (world facing).TurnedAway ⟨3, 1, 0⟩ .east ↔
    Repeater.table.uses (Side.relative facing .west) = false := by
  have block : (world facing).block ((⟨3, 1, 0⟩ : Position).toward .east) = .circuit facing := by
    cases facing <;> cbv
  have kept : (world facing).table? ((⟨3, 1, 0⟩ : Position).toward .east) =
      some Repeater.table := by
    cases facing <;> cbv
  rw [TurnedAway, block, kept]
  simp [Facing.opposite, Facing.clockwise]

theorem across : Across ⟨3, 1, 0⟩ ⟨4, 2, 0⟩ .east := ⟨rfl, rfl⟩

end Kerb

open Kerb in
/-- If the nested circuit faces south, its input looks at the lower wire, and the wires point at
each other. -/
theorem connects_iff_of_joined_kerb : (world .south).block ⟨3, 1, 0⟩ = .wire ∧
    (world .south).block ⟨4, 2, 0⟩ = .wire ∧ Across ⟨3, 1, 0⟩ ⟨4, 2, 0⟩ .east ∧
    (world .south).Joined ⟨3, 1, 0⟩ ⟨4, 2, 0⟩ ∧
    (world .south).wireConnects ⟨3, 1, 0⟩ .east = true ∧
    (world .south).wireConnects ⟨4, 2, 0⟩ .west = true := by
  obtain ⟨-, lower, upper, -⟩ := connects_iff_of_joined (world .south) ⟨3, 1, 0⟩ ⟨4, 2, 0⟩ .east
    (lower_eq .south) (upper_eq .south) across (joined .south)
  refine ⟨lower_eq _, upper_eq _, across, joined _, lower.2 ?_, upper.2 ?_⟩
  · -- the circuit beside the lower wire uses the side that looks at it
    intro away
    rw [turnedAway_iff] at away
    cases away
  -- Beside the upper wire is air.
  · rintro ⟨facing, circuit, -⟩
    have air : (world .south).block ((⟨4, 2, 0⟩ : Position).toward .west) = .air := by cbv
    rw [Facing.opposite, Facing.clockwise, Facing.clockwise, air] at circuit
    cases circuit

open Kerb in
/-- **Joined and unseen.** If it faces north, it has nothing on its west side, and the lower wire
does not point at the upper one that powers it. -/
theorem joined_unseen : (world .north).block ⟨3, 1, 0⟩ = .wire ∧
    (world .north).block ⟨4, 2, 0⟩ = .wire ∧ Across ⟨3, 1, 0⟩ ⟨4, 2, 0⟩ .east ∧
    (world .north).Joined ⟨3, 1, 0⟩ ⟨4, 2, 0⟩ ∧
    (∃ feeds, board.wireFeeds (world .north) ⟨3, 1, 0⟩ = .ok feeds ∧ .wire ⟨4, 2, 0⟩ ∈ feeds) ∧
    (world .north).TurnedAway ⟨3, 1, 0⟩ .east ∧
    (world .north).wireConnects ⟨3, 1, 0⟩ .east = false := by
  refine ⟨lower_eq _, upper_eq _, across, joined _, ?_, (turnedAway_iff _).2 (by decide), by cbv⟩
  exact Board.exists_wireFeeds_of_joined ⟨by decide, lower_eq _⟩ ⟨by decide, upper_eq _⟩ (joined _)

end World

end TorchLogic
