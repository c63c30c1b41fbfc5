import TorchLogic.Proofs.Board.Motion
import TorchLogic.Proofs.Board.Resolve

/-!
# A board turned by a quarter

Turning the world turns its boards (`Board.resolve_turn`), and a quarter turn carries a board to the
turned board (`Board.carries_turn`). So the turned board has the table that the board has, but for
the sides, each of which is the next one (`synthesize_turn`). How boards are found and circuits are
traced goes by north, west and the corner, and none of that shows.
-/

namespace TorchLogic

namespace Board

/-- **A board turned clockwise** about the vertical axis. The corner that was in the south-west is
in the north-west then. -/
def turn (b : Board) : Board where
  corner := ⟨-b.corner.z - 7, b.corner.y, b.corner.x⟩
  role f := b.role f.counterclockwise

variable {b : Board} {w : World} {p : Position} {f : Facing}

@[simp] theorem role_turn (b : Board) (f : Facing) : b.turn.role f.clockwise = b.role f :=
  congrArg b.role (Facing.clockwise_counterclockwise f)

theorem covers_turn (b : Board) (p : Position) : b.turn.covers p.turn = b.covers p := by
  rw [Bool.eq_iff_iff, covers_iff, covers_iff]
  dsimp only [turn, Position.turn]
  omega

theorem mem_socketBlocks_turn :
    p.turn ∈ socketBlocks b.turn.corner f.clockwise ↔ p ∈ socketBlocks b.corner f := by
  rw [mem_socketBlocks_iff, mem_socketBlocks_iff]
  cases f <;> simp only [Facing.clockwise, turn, Position.turn] <;> omega

theorem onSquare_turn : OnSquare b.turn.corner p.turn ↔ OnSquare b.corner p := by
  dsimp only [OnSquare, turn, Position.turn]
  omega

/-- **What is on a board is, turned, on the turned board.** -/
theorem carries_turn (b : Board) (w : World) : Motion.quarter.Carries b b.turn w w.turn where
  role := b.role_turn
  socket _ _ := mem_socketBlocks_turn
  covers := b.covers_turn
  block _ _ := World.block_turn
  table _ _ := World.table?_turn
  points _ _ _ _ := World.wirePoints_turn

/-- **A square that is a board is one, turned.** -/
theorem Laid.turn {styles : Facing → Style} (laid : Laid w b.corner styles) :
    Laid w.turn b.turn.corner fun f => (styles f.counterclockwise).mapFacing Facing.clockwise := by
  -- Each position is another one turned, and each facing the next one.
  refine ⟨fun {f q} socket => ?_, fun {q} mem none => ?_, fun {q f} mem out => ?_⟩
  all_goals obtain ⟨p, rfl⟩ : ∃ p : Position, p.turn = q := ⟨_, q.turn_turnBack⟩
  · rw [← Facing.counterclockwise_clockwise f, mem_socketBlocks_turn] at socket
    rw [World.block_turn, laid.socket socket]
    rfl
  · have none (f : Facing) : p ∉ socketBlocks b.corner f := fun socket =>
      none _ (mem_socketBlocks_turn.2 socket)
    rw [World.block_turn, laid.plain (onSquare_turn.1 mem) none]
    rfl
  · rw [← Facing.counterclockwise_clockwise f, ← Position.turn_toward] at out ⊢
    rw [onSquare_turn] at out
    rw [World.block_turn, Block.isBreadboard_mapFacing, laid.alone (onSquare_turn.1 mem) out]

/-- **A board turns with the world.** -/
theorem resolve_turn (h : resolve w p = .ok b) : resolve w.turn p.turn = .ok b.turn := by
  obtain ⟨mem, styles, laid, roles⟩ := resolve_eq_ok_iff.1 h
  refine resolve_eq_ok_iff.2 ⟨onSquare_turn.2 mem, _, laid.turn, fun f => ?_⟩
  rw [Style.role_mapFacing, ← roles]
  rfl

/-- **The answers for a board and the turned board**: both are feedback, or both are tables, and the
table of the turned board does with every signal on the next side what the table of the board does.
-/
theorem synthesize_turn_cases (h : resolve w p = .ok b) :
    (synthesize w p = .error .cyclic ∧ synthesize w.turn p.turn = .error .cyclic) ∨
    ∃ t t', synthesize w p = .ok t ∧ synthesize w.turn p.turn = .ok t' ∧
      (t.inputs = b.inputs.map (Side.relative .north) ∧
        t.outputs = b.outputs.map (Side.relative .north)) ∧
      (t'.inputs = b.turn.inputs.map (Side.relative .north) ∧
        t'.outputs = b.turn.outputs.map (Side.relative .north)) ∧
      ∀ signals, t'.apply signals.turn = (t.apply signals).turn := by
  have turned := resolve_turn h
  rcases (carries_turn b w).tables with ⟨none, none'⟩ | ⟨t, t', some, some', sides, sides', same⟩
  · exact .inl ⟨synthesize_eq_of_table? h none, synthesize_eq_of_table? turned none'⟩
  refine .inr ⟨t, t', synthesize_eq_of_table? h some, synthesize_eq_of_table? turned some', sides,
    sides', fun signals => Signals.ext_get fun side => ?_⟩
  obtain ⟨f, rfl⟩ : ∃ f : Facing, .relative .north f.clockwise = side :=
    ⟨(side.absolute .north).counterclockwise, by simp⟩
  have given (f : Facing) :
      signals.turn.get (.relative .north f.clockwise) = signals.get (.relative .north f) := by
    rw [Side.relative_clockwise_right, Signals.get_turn]
  have agree : (t'.apply signals.turn).get (.relative .north f.clockwise) =
      (t.apply signals).get (.relative .north f) := same signals signals.turn given f
  rw [agree, Side.relative_clockwise_right, Signals.get_turn]

end Board

/-- **Synthesis turns with the world.** The circuit on the turned board has feedback if the circuit
on the board has. Otherwise the table of the turned board does, with every signal on the next side,
what the table of the board does. -/
theorem synthesize_turn {w : World} {p : Position} {b : Board} (h : Board.resolve w p = .ok b) :
    (synthesize w.turn p.turn = .error .cyclic ↔ synthesize w p = .error .cyclic) ∧
    (synthesize w p ≠ .error .cyclic → ∃ t t', synthesize w p = .ok t ∧
      synthesize w.turn p.turn = .ok t' ∧
      ∀ signals, t'.apply signals.turn = (t.apply signals).turn) := by
  rcases Board.synthesize_turn_cases h with ⟨cyclic, cyclic'⟩ | ⟨t, t', ok, ok', -, -, turned⟩
  · exact ⟨iff_of_true cyclic' cyclic, fun no => absurd cyclic no⟩
  · refine ⟨iff_of_false ?_ ?_, fun _ => ⟨t, t', ok, ok', turned⟩⟩
    · rw [ok']
      exact nofun
    · rw [ok]
      exact nofun

/-- The inverter at the edge, turned. -/
theorem synthesize_turn_edgeInverter :
    Board.resolve EdgeInverter.world ⟨3, 0, 4⟩ = .ok EdgeInverter.board ∧
    synthesize EdgeInverter.world ⟨3, 0, 4⟩ = .ok EdgeInverter.table ∧
    ∃ t', synthesize EdgeInverter.world.turn ⟨-4, 0, 3⟩ = .ok t' ∧
      ∀ signals, t'.apply signals.turn = (EdgeInverter.table.apply signals).turn := by
  refine ⟨EdgeInverter.resolve_eq, EdgeInverter.synthesize_eq, ?_⟩
  have acyclic : synthesize EdgeInverter.world ⟨3, 0, 4⟩ ≠ .error .cyclic := by
    rw [EdgeInverter.synthesize_eq]
    exact nofun
  obtain ⟨t, t', ok, ok', turned⟩ := (synthesize_turn EdgeInverter.resolve_eq).2 acyclic
  rw [EdgeInverter.synthesize_eq] at ok
  cases ok
  exact ⟨t', ok', turned⟩

end TorchLogic
