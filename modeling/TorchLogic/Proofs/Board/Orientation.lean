import TorchLogic.Proofs.Board.Turn

/-!
# The order of the inputs of a turned board

The table of a board lists its sides clockwise from north, not from its own front. When a board is
turned clockwise its left side comes to the north, so what was the last input becomes the first one
(`exists_synthesize_turn`). Every other input keeps its place among the rest.

A signature mentions no sides, but the rows of a column are numbered by the inputs in their order.
So it survives the turn if the left side is no input, or the only one, or if the order of the inputs
does not show in the columns (`turned_signature_eq`). Otherwise it need not: the inverter at the
edge has another signature when it is turned (`edgeInverter_signature_ne`).
-/

namespace TorchLogic

namespace Side

/-- **Sides with the left one put first.** -/
def leftFirst (sides : List Side) : List Side :=
  sides.filter (· = left) ++ sides.filter (· ≠ left)

theorem leftFirst_perm (sides : List Side) : (leftFirst sides).Perm sides := by
  have split : leftFirst sides =
      sides.filter (· = left) ++ sides.filter fun side => !decide (side = left) := by
    simp only [leftFirst, ne_eq, decide_not]
  rw [split]
  exact List.filter_append_perm _ sides

theorem leftFirst_eq_self {sides : List Side} (only : left ∈ sides → sides = [left]) :
    leftFirst sides = sides := by
  by_cases mem : left ∈ sides
  · rw [only mem]
    rfl
  · have ne {side : Side} (h : side ∈ sides) : side ≠ left := fun eq => mem (eq ▸ h)
    have none : sides.filter (· = left) = [] :=
      List.filter_eq_nil_iff.2 fun side h => by rw [decide_eq_true_iff]; exact ne h
    have all : sides.filter (· ≠ left) = sides :=
      List.filter_eq_self.2 fun side h => decide_eq_true (ne h)
    rw [leftFirst, none, all, List.nil_append]

end Side

/-- The sides in a role, on the turned board, are those on the board, turned, with the left one
first. -/
theorem Board.sidesWith_turn (b : Board) (r : SocketRole) :
    (b.turn.sidesWith r).map (Side.relative .north) =
      (Side.leftFirst ((b.sidesWith r).map (Side.relative .north))).map Side.clockwise := by
  have all (has : Facing → Bool) :
      (Facing.all.filter fun f => has f.counterclockwise).map (Side.relative .north) =
        (Side.leftFirst ((Facing.all.filter has).map (Side.relative .north))).map
          Side.clockwise := by
    simp only [Facing.all, List.filter, Facing.counterclockwise]
    cases has .north <;> cases has .east <;> cases has .south <;> cases has .west <;> rfl
  exact all fun f => b.role f = r

/-- **The table of a turned board** lists the turned sides, what was the left one first. -/
theorem exists_synthesize_turn {w : World} {p : Position} {t : TruthTable}
    (h : synthesize w p = .ok t) : ∃ t', synthesize w.turn p.turn = .ok t' ∧
      t'.inputs = (Side.leftFirst t.inputs).map Side.clockwise ∧
      t'.outputs = (Side.leftFirst t.outputs).map Side.clockwise ∧
      ∀ signals, t'.apply signals.turn = (t.apply signals).turn := by
  obtain ⟨b, resolved⟩ := exists_resolve_of_synthesize h
  rcases Board.synthesize_turn_cases resolved with
    ⟨cyclic, -⟩ | ⟨t₀, t', ok, ok', ⟨ins, outs⟩, ⟨ins', outs'⟩, turned⟩
  · rw [cyclic] at h
    cases h
  · rw [ok] at h
    cases h
    refine ⟨t', ok', ?_, ?_, turned⟩
    · rw [ins', ins]
      exact b.sidesWith_turn .input
    · rw [outs', outs]
      exact b.sidesWith_turn .output

/-- **Turning a board keeps the signature of its table** if listing the left side first makes no
other columns. That is so if the left side is no input, or the only one. In any case the turned
board has a table, which does the same, turned, and lists the same sides, turned, with what was the
left one first. -/
theorem turned_signature_eq {w : World} {p : Position} {t : TruthTable}
    (h : synthesize w p = .ok t) : ∃ t', synthesize w.turn p.turn = .ok t' ∧
      t'.inputs = (Side.leftFirst t.inputs).map Side.clockwise ∧
      t'.outputs = (Side.leftFirst t.outputs).map Side.clockwise ∧
      (∀ signals, t'.apply signals.turn = (t.apply signals).turn) ∧
      ((t.outputs.map (TruthTable.columnOf (Side.leftFirst t.inputs) t.apply)).Perm t.columns →
        t'.signature = t.signature) ∧
      ((.left ∈ t.inputs → t.inputs = [.left]) → t'.signature = t.signature) := by
  obtain ⟨t', ok, ins, outs, turned⟩ := exists_synthesize_turn h
  -- The columns are those of the board, for inputs with the left one first.
  have columns : t'.columns =
      (Side.leftFirst t.outputs).map (TruthTable.columnOf (Side.leftFirst t.inputs) t.apply) := by
    rw [t'.columns_eq, ins, outs, List.map_map]
    exact List.map_congr_left fun side _ => TruthTable.columnOf_turn turned _ side
  have count : t'.inputs.length = t.inputs.length := by
    rw [ins, List.length_map, (Side.leftFirst_perm t.inputs).length_eq]
  have keeps (same : (t.outputs.map (TruthTable.columnOf (Side.leftFirst t.inputs) t.apply)).Perm
      t.columns) : t'.signature = t.signature := by
    refine TruthTable.signature_eq_of_perm count ?_
    rw [columns]
    exact ((Side.leftFirst_perm t.outputs).map _).trans same
  refine ⟨t', ok, ins, outs, turned, keeps, fun only => keeps ?_⟩
  rw [Side.leftFirst_eq_self only, ← t.columns_eq]

/-- The table of the inverter at the edge, turned: right is on when back, the second input, is off.
-/
def EdgeInverter.turnedTable : TruthTable :=
  ⟨[.front, .back], [.right], [⟨0b0011⟩], by decide, rfl, by decide⟩

theorem EdgeInverter.synthesize_turn_eq :
    synthesize EdgeInverter.world.turn ⟨-4, 0, 3⟩ = .ok EdgeInverter.turnedTable := by
  obtain ⟨t', ok, ins, outs, turned⟩ := exists_synthesize_turn synthesize_eq
  have apply (signals : Signals) : t'.apply signals = turnedTable.apply signals := by
    obtain ⟨⟨front, right, back, left⟩, rfl⟩ := signals.exists_turn_eq
    rw [turned]
    cases front <;> cases right <;> cases back <;> cases left <;> rfl
  have found : t' = turnedTable := TruthTable.ext_apply ins outs apply
  rw [← found]
  exact ok

/-- The turned inverter has no input on the left, so it may be turned once more. -/
theorem turned_signature_eq_edgeInverter :
    synthesize EdgeInverter.world.turn ⟨-4, 0, 3⟩ = .ok EdgeInverter.turnedTable ∧
    ∃ t', synthesize EdgeInverter.world.turn.turn ⟨-3, 0, -4⟩ = .ok t' ∧
      t'.signature = EdgeInverter.turnedTable.signature := by
  refine ⟨EdgeInverter.synthesize_turn_eq, ?_⟩
  obtain ⟨t', ok, -, -, -, -, same⟩ := turned_signature_eq EdgeInverter.synthesize_turn_eq
  exact ⟨t', ok, same (by decide)⟩

/-- **A turned board may have another signature.** -/
theorem edgeInverter_signature_ne : ∃ t t',
    synthesize EdgeInverter.world ⟨3, 0, 4⟩ = .ok t ∧
    synthesize EdgeInverter.world.turn (Position.turn ⟨3, 0, 4⟩) = .ok t' ∧
    t'.signature ≠ t.signature := by
  refine ⟨_, _, EdgeInverter.synthesize_eq, EdgeInverter.synthesize_turn_eq, ?_⟩
  have before : EdgeInverter.table.signature = "2->1;\x7b0, 2\x7d" := by cbv
  have after : EdgeInverter.turnedTable.signature = "2->1;\x7b0, 1\x7d" := by cbv
  rw [before, after]
  decide

end TorchLogic
