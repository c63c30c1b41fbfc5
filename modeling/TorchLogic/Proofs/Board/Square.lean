import Mathlib.Tactic.SplitIfs
import TorchLogic.Board.Basic

/-!
# The square of a board

A board is listed by places along its edges and cells in rows. The statements about it are about
positions: which are on its square (`Board.OnSquare`), which belong to the socket of a side
(`Board.mem_socketBlocks_iff`) and which are in the area above it (`Board.covers_iff`), each said by
comparing coordinates.
-/

namespace TorchLogic

namespace Board

variable {b : Board} {corner p : Position} {f : Facing} {x z : Nat}

/-- **Whether a position is on the square** with a given north-west corner. -/
def OnSquare (corner p : Position) : Prop :=
  p.y = corner.y ∧ (corner.x ≤ p.x ∧ p.x < corner.x + 8) ∧ corner.z ≤ p.z ∧ p.z < corner.z + 8

instance : Decidable (OnSquare corner p) := inferInstanceAs (Decidable (_ ∧ _))

theorem covers_iff : b.covers p = true ↔ b.corner.y < p.y ∧
    (b.corner.x ≤ p.x ∧ p.x < b.corner.x + 8) ∧ b.corner.z ≤ p.z ∧ p.z < b.corner.z + 8 := by
  have within_iff (start n : Int) : within start n = true ↔ start ≤ n ∧ n < start + 8 := by
    rw [within, Bool.and_eq_true, decide_eq_true_iff, decide_eq_true_iff]
    rfl
  rw [covers, Bool.and_eq_true, Bool.and_eq_true, decide_eq_true_iff, within_iff, within_iff,
    and_assoc]

theorem covers_above (h : b.covers p = true) : b.covers p.above = true := by
  rw [covers_iff] at h ⊢
  simp only [Position.above, Position.step, Position.offset]
  omega

/-- The blocks of a socket are in one line, between the corners. -/
theorem mem_socketBlocks_iff : p ∈ socketBlocks corner f ↔ p.y = corner.y ∧
    match f with
    | .north => p.z = corner.z ∧ corner.x < p.x ∧ p.x < corner.x + 7
    | .east => p.x = corner.x + 7 ∧ corner.z < p.z ∧ p.z < corner.z + 7
    | .south => p.z = corner.z + 7 ∧ corner.x < p.x ∧ p.x < corner.x + 7
    | .west => p.x = corner.x ∧ corner.z < p.z ∧ p.z < corner.z + 7 := by
  -- The blocks of a socket leave out the corners.
  have inner (n : Nat) : n ∈ (List.range edge).filter isInner ↔ 0 < n ∧ n < 7 := by
    simp only [List.mem_filter, List.mem_range, isInner, edge, Bool.and_eq_true, bne_iff_ne]
    omega
  simp only [socketBlocks, List.mem_map, inner]
  refine ⟨?_, fun h => ?_⟩
  · rintro ⟨n, bounds, rfl⟩
    cases f <;> simp only [edgeCell, cellAt, Position.offset, edge] <;> omega
  · obtain ⟨px, py, pz⟩ := p
    cases f with
    | north | south =>
      -- how far along the edge the block lies is its number, along x or along z
      dsimp only at h
      refine ⟨(px - corner.x).toNat, by omega, ?_⟩
      simp only [edgeCell, cellAt, Position.offset, edge, Position.mk.injEq]
      omega
    | east | west =>
      dsimp only at h
      refine ⟨(pz - corner.z).toNat, by omega, ?_⟩
      simp only [edgeCell, cellAt, Position.offset, edge, Position.mk.injEq]
      omega

theorem onSquare_of_mem_socketBlocks (h : p ∈ socketBlocks corner f) : OnSquare corner p := by
  rw [mem_socketBlocks_iff] at h
  unfold OnSquare
  cases f <;> dsimp only at h <;> omega

/-! ### Cells -/

theorem mem_cells_iff : (x, z) ∈ cells ↔ x < 8 ∧ z < 8 := by
  simp only [cells, edge, List.mem_flatMap, List.mem_map, List.mem_range, Prod.mk.injEq]
  refine ⟨?_, fun ⟨xs, zs⟩ => ⟨z, zs, x, xs, rfl, rfl⟩⟩
  rintro ⟨z', zs, x', xs, rfl, rfl⟩
  exact ⟨xs, zs⟩

/-- The positions on a square are its cells. -/
theorem onSquare_iff_cell : OnSquare corner p ↔ ∃ x z, x < 8 ∧ z < 8 ∧ cellAt corner x z = p := by
  obtain ⟨px, py, pz⟩ := p
  simp only [OnSquare, cellAt, Position.offset, Position.mk.injEq]
  refine ⟨fun h => ⟨(px - corner.x).toNat, (pz - corner.z).toNat, ?_⟩, ?_⟩
  · omega
  · rintro ⟨x, z, h⟩
    omega

theorem socketSide?_eq_some_iff (hx : x < 8) (hz : z < 8) :
    socketSide? x z = some f ↔ cellAt corner x z ∈ socketBlocks corner f := by
  rw [mem_socketBlocks_iff]
  simp only [socketSide?, isInner, edge, cellAt, Position.offset, Bool.and_eq_true, bne_iff_ne]
  cases f <;> split_ifs <;> simp only [Option.some.injEq, reduceCtorEq, false_iff, true_iff] <;>
    omega

end Board

end TorchLogic
