import TorchLogic.Proofs.Board.Role
import TorchLogic.Proofs.Board.Unplugged

/-!
# Emptying the sides of a board

Emptying sides of a board one after the other in the world leaves the table of the board without
these sides (`Board.table?_emptySides`), whatever the styles of the sockets are then. Two laws
follow.

Emptying an input takes the cofactor of the table (`Board.table?_empty_input`): the smaller table
does what the table does when that input is off. And outputs are independent
(`Board.outputs_independent`): the column of an output is the one that it has when it is the only
output of the board, and something feeds back on the board exactly if something feeds back to one of
the outputs by itself.
-/

namespace TorchLogic

variable {f o : Facing} {sides : List Facing} {b : Board} {w : World}

namespace Board

/-! ### Emptying sides in the world -/

/-- **Empties sides**, one after the other. -/
def emptySides (b : Board) (w : World) : List Facing → Board × World
  | [] => (b, w)
  | f :: rest => (b.setRole w f .empty).1.emptySides (b.setRole w f .empty).2 rest

theorem without_setRole (b : Board) (w : World) (f : Facing) (rest : List Facing) :
    (b.setRole w f .empty).1.without rest = b.without (f :: rest) := by
  unfold setRole without
  congr 1
  funext g
  dsimp only
  by_cases first : g = f
  · rw [if_pos first, ite_self, if_pos (List.mem_cons.2 (.inl first))]
  · simp only [List.mem_cons, first, false_or, if_false]

/-- **The board after sides were emptied** has nothing on them, and it sees the world that it saw.
-/
theorem emptySides_spec (b : Board) (w : World) (sides : List Facing) :
    (b.emptySides w sides).1 = b.without sides ∧
      World.SameAbove b.corner.y w (b.emptySides w sides).2 := by
  induction sides generalizing b w with
  | nil => exact ⟨rfl, .refl _ _⟩
  | cons f rest ih =>
    -- The first side is emptied in the world as it is, and the rest in what that leaves.
    obtain ⟨board, above⟩ := ih (b.setRole w f .empty).1 (b.setRole w f .empty).2
    rw [emptySides]
    exact ⟨board.trans (without_setRole b w f rest), (sameAbove_setRole b w f .empty).trans above⟩

/-- **Emptying sides** leaves the table of the board without them. -/
theorem table?_emptySides (b : Board) (w : World) (sides : List Facing) :
    (b.emptySides w sides).1.table? (b.emptySides w sides).2 = (b.without sides).table? w := by
  obtain ⟨board, above⟩ := emptySides_spec b w sides
  rw [board]
  exact table?_eq_of_sameAbove above

/-! ### Emptying an input -/

/-- **Emptying an input takes the cofactor**: there is a table exactly if there was one, and it does
what the old one did with that input off. -/
theorem table?_empty_input (b : Board) (w : World) (f : Facing) (input : b.role f = .input) :
    ((b.setRole w f .empty).1.table? (b.setRole w f .empty).2 = .ok none ↔ b.table? w = .ok none) ∧
    (b.table? w ≠ .ok none → ∃ t t', b.table? w = .ok (some t) ∧
      (b.setRole w f .empty).1.table? (b.setRole w f .empty).2 = .ok (some t') ∧
      (∀ signals, t'.apply signals = t.apply (signals.set (.relative .north f) false)) ∧
      t'.outputs = t.outputs ∧ t'.inputs = t.inputs.filter (· ≠ .relative .north f)) := by
  -- Emptying one side is unplugging the list of it alone.
  have emptied : (b.setRole w f .empty).1.table? (b.setRole w f .empty).2 =
      (b.without [f]).table? w := by
    rw [← table?_emptySides, emptySides, emptySides]
  -- No output is gone, so what feeds back is what fed back.
  have no_output : ∀ g ∈ [f], b.role g ≠ .output := by
    intro g gone output
    rw [List.mem_singleton.1 gone, input] at output
    cases output
  have kept {o : Facing} (role : b.role o = .output) : o ∉ [f] := fun gone => no_output o gone role
  have none_iff : (b.without [f]).table? w = .ok none ↔ b.table? w = .ok none := by
    rw [table?_without_eq_none_iff, table?_eq_none_iff]
    exact exists_congr fun o => and_congr_left fun _ => and_iff_left_of_imp kept
  rw [emptied]
  refine ⟨none_iff, fun steady => ?_⟩
  obtain ⟨t, ok, ins, outs⟩ := exists_table?_of_ne_none steady
  obtain ⟨t', ok', ins', outs'⟩ := exists_table?_of_ne_none (mt none_iff.1 steady)
  refine ⟨t, t', ok, ok', fun signals => Signals.ext_get fun side => ?_, ?_, ?_⟩
  · -- the input that is gone reads as off, and the others as they are
    rw [← Side.relative_absolute .north side]
    refine get_apply_without ok ok' (fun g gone _ => ?_) (fun g plugged => ?_) kept
    · rw [List.mem_singleton.1 gone, Signals.get_set, if_pos rfl]
    · rw [Signals.get_set, if_neg]
      intro eq
      obtain rfl := Side.relative_inj.1 eq
      exact plugged ⟨List.mem_singleton_self f, input⟩
  · have outputs_eq : (b.without [f]).outputs = b.outputs := sidesWith_without_eq nofun no_output
    rw [outs, outs', outputs_eq]
  · have inputs_eq : (b.without [f]).inputs = b.inputs.filter (· ∉ [f]) := sidesWith_without nofun
    rw [ins, ins', inputs_eq, List.filter_map]
    refine congrArg _ (List.filter_congr fun g _ => ?_)
    simp

open EdgeInverter in
/-- Without its east socket, the inverter at the edge is always on. -/
theorem table?_empty_input_edgeInverter :
    board.role .east = .input ∧ board.table? world = .ok (some table) ∧
    ∃ t', (board.setRole world .east .empty).1.table? (board.setRole world .east .empty).2 =
        .ok (some t') ∧
      (∀ signals, t'.apply signals = table.apply (signals.set .right false)) ∧
      t'.outputs = [.front] ∧ t'.inputs = [.left] := by
  refine ⟨rfl, table?_eq, ?_⟩
  have steady : board.table? world ≠ .ok none := by
    rw [table?_eq]
    exact nofun
  obtain ⟨t, t', ok, ok', apply, outs, ins⟩ := (table?_empty_input board world .east rfl).2 steady
  cases ok.symm.trans table?_eq
  exact ⟨t', ok', apply, outs, ins⟩

/-! ### One output at a time -/

section Others

variable (role : b.role o = .output) (others : ∀ g, g ∈ sides ↔ b.role g = .output ∧ g ≠ o)

include role others

/-- Without the other outputs, one output is left. -/
theorem output_iff_of_others (g : Facing) : b.role g = .output ∧ g ∉ sides ↔ g = o := by
  rw [others]
  constructor
  · rintro ⟨output, stays⟩
    by_contra ne
    exact stays ⟨output, ne⟩
  · rintro rfl
    exact ⟨role, fun h => h.2 rfl⟩

theorem outputs_without_others : (b.without sides).outputs = [o] := by
  refine List.perm_singleton.1 ((List.perm_ext_iff_of_nodup (nodup_sidesWith _)
    (List.nodup_singleton o)).2 fun g => ?_)
  rw [mem_sidesWith, output_without_iff, output_iff_of_others role others, List.mem_singleton]

theorem table?_without_others_eq_none_iff :
    (b.without sides).table? w = .ok none ↔ b.FeedsBack w o := by
  simp only [table?_without_eq_none_iff, output_iff_of_others role others, exists_eq_left]

end Others

/-- **A column stays** when no input is emptied. -/
theorem columnOf_without {t t' : TruthTable} (ok : b.table? w = .ok (some t))
    (ok' : (b.without sides).table? w = .ok (some t')) (inputs : t'.inputs = t.inputs)
    (no_input : ∀ f ∈ sides, b.role f ≠ .input) (kept : o ∉ sides) :
    TruthTable.columnOf t'.inputs t'.apply (.relative .north o) =
      TruthTable.columnOf t.inputs t.apply (.relative .north o) := by
  unfold TruthTable.columnOf
  rw [inputs]
  refine congrArg _ (funext fun row => ?_)
  exact get_apply_without ok ok' (fun f gone input => absurd input (no_input f gone))
    (fun _ _ => rfl) fun _ => kept

/-- **Outputs are independent**: there is no table exactly if one of the outputs has none by itself,
and otherwise each has the column that it has by itself. -/
theorem outputs_independent (b : Board) (w : World) (others : Facing → List Facing)
    (lists : ∀ o, b.role o = .output → ∀ g, g ∈ others o ↔ b.role g = .output ∧ g ≠ o) :
    (b.table? w = .ok none ↔ ∃ o, b.role o = .output ∧
      (b.emptySides w (others o)).1.table? (b.emptySides w (others o)).2 = .ok none) ∧
    (b.table? w ≠ .ok none → ∃ t, b.table? w = .ok (some t) ∧ ∀ o, b.role o = .output →
      ∃ t' c, (b.emptySides w (others o)).1.table? (b.emptySides w (others o)).2 = .ok (some t') ∧
        t'.inputs = t.inputs ∧ t'.outputs = [.relative .north o] ∧ t'.columns = [c] ∧
        (.relative .north o, c) ∈ t.outputs.zip t.columns) := by
  have none_iff {o : Facing} (role : b.role o = .output) :
      (b.without (others o)).table? w = .ok none ↔ b.FeedsBack w o :=
    table?_without_others_eq_none_iff role (lists o role)
  simp only [table?_emptySides]
  constructor
  · rw [table?_eq_none_iff]
    exact exists_congr fun o => and_congr_right fun role => (none_iff role).symm
  intro steady
  obtain ⟨t, ok, ins, outs⟩ := exists_table?_of_ne_none steady
  refine ⟨t, ok, fun o role => ?_⟩
  -- Where nothing feeds back, nothing feeds back to this output.
  have alone : (b.without (others o)).table? w ≠ .ok none := fun none =>
    steady (table?_eq_none_iff.2 ⟨o, role, (none_iff role).1 none⟩)
  obtain ⟨t', ok', ins', outs'⟩ := exists_table?_of_ne_none alone
  have no_input : ∀ g ∈ others o, b.role g ≠ .input := by
    intro g gone input
    cases input.symm.trans ((lists o role g).1 gone).1
  have inputs_eq : t'.inputs = t.inputs := by
    have stay : (b.without (others o)).inputs = b.inputs := sidesWith_without_eq nofun no_input
    rw [ins, ins', stay]
  have outputs_eq : t'.outputs = [.relative .north o] := by
    rw [outs', outputs_without_others role (lists o role), List.map_singleton]
  have output : .relative .north o ∈ t.outputs := by
    rw [outs]
    exact List.mem_map_of_mem (mem_sidesWith.2 role)
  refine ⟨t', _, ok', inputs_eq, outputs_eq, ?_, TruthTable.mem_zip_columns output⟩
  have kept : o ∉ others o := fun gone => ((lists o role o).1 gone).2 rfl
  rw [t'.columns_eq, outputs_eq, List.map_singleton,
    columnOf_without ok ok' inputs_eq no_input kept]

end Board

/-! ### A board with two outputs -/

namespace TwoOutputs

/-- The sides of the board. -/
def role : Facing → SocketRole
  | .east => .input
  | .north | .west => .output
  | .south => .empty

def board : Board := ⟨⟨0, 0, 0⟩, role⟩

/-- **Two outputs**: the north socket is powered by an inverter of the east socket, and the west
socket by a torch. -/
def world : World :=
  [((⟨7, 1, 2⟩ : Position), Block.wire), (⟨7, 1, 1⟩, .solid), (⟨6, 1, 1⟩, .wallTorch .west),
    (⟨6, 1, 0⟩, .wire), (⟨0, 1, 1⟩, .wire), (⟨1, 1, 1⟩, .torch)].foldl
    (fun w e => w.setBlock e.1 e.2) (World.empty.layBoard ⟨0, 0, 0⟩ role)

/-- Its table: north is on when east is off, and west is always on. -/
def table : TruthTable :=
  ⟨[.right], [.front, .left], [⟨0b01⟩, ⟨0b11⟩], by decide, rfl, by decide⟩

theorem table?_eq : board.table? world = .ok (some table) := by
  cbv

/-- The output besides one. -/
def others (o : Facing) : List Facing := if o = .north then [.west] else [.north]

end TwoOutputs

open TwoOutputs in
/-- Each of the two outputs goes by itself. -/
theorem Board.outputs_independent_twoOutputs :
    (∀ o, board.role o = .output → ∀ g, g ∈ others o ↔ board.role g = .output ∧ g ≠ o) ∧
    board.table? world = .ok (some table) ∧
    ∀ o, board.role o = .output → ∃ t' c,
      (board.emptySides world (others o)).1.table? (board.emptySides world (others o)).2 =
        .ok (some t') ∧
      t'.inputs = [.right] ∧ t'.outputs = [.relative .north o] ∧ t'.columns = [c] ∧
      (.relative .north o, c) ∈ [(Side.front, (⟨0b01⟩ : Column)), (.left, ⟨0b11⟩)] := by
  -- The sides are four, so what the lists have to be can be looked up.
  have lists : ∀ o, board.role o = .output →
      ∀ g, g ∈ others o ↔ board.role g = .output ∧ g ≠ o := by
    intro o output g
    revert output
    cases o <;> cases g <;> decide
  have steady : board.table? world ≠ .ok none := by
    rw [table?_eq]
    exact nofun
  obtain ⟨t, ok, each⟩ := (outputs_independent board world others lists).2 steady
  cases ok.symm.trans table?_eq
  exact ⟨lists, table?_eq, each⟩

end TorchLogic
