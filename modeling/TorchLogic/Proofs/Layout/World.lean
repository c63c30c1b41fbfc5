import TorchLogic.Layout.World
import TorchLogic.Proofs.Board.Diagram
import TorchLogic.Proofs.Board.Lay

/-!
# The board of a layout

The world of a layout starts as a board laid in the empty world. Then each glyph puts a block down,
with a table or without, at a cell of one of the layers, or leaves the cell alone. So what holds of
the laid board and is kept by whatever is stacked on it (`Layout.StackingKeeps`) holds of the world
(`Layout.StackingKeeps.world`).

All cells are above the level of the board, because the limits keep their numbers from wrapping
around (`Layout.position_eq`). So the board stays a board (`Layout.laid_of_world`), every block of
its square belongs to it, and all of them have the same answer to a request for a table
(`Layout.synthesize_of_world`): a table with the sides that the layout lists, or feedback.
-/

namespace TorchLogic

open Board

namespace Layout

variable {l : Layout} {w : World} {c : Cell}

/-- **The sides listed in a role**, clockwise from the front, which is north. -/
def listed (l : Layout) (r : SocketRole) : List Side :=
  Side.all.filter fun side => l.sockets (side.absolute .north) = some r

/-- Whether a cell is in the layers of a layout. -/
structure Holds (l : Layout) (c : Cell) : Prop where
  layer : c.layer < l.layers.length
  row : c.row < gridSize
  column : c.column < gridSize

/-! ### Stacking components -/

/-- Nested circuits have a glyph of their own. -/
theorem Glyph.not_isCircuit_of_ofChar? {glyph : Char} {b : Block}
    (h : Glyph.ofChar? glyph = some (.block b)) : b.isCircuit = false := by
  unfold Glyph.ofChar? at h
  split at h <;> cases h <;> rfl

/-- **Putting a glyph down** leaves the world alone, sets a block that is no nested circuit, or
places a nested circuit. -/
theorem placeGlyph_cases {s s' : Site} {glyph : Char} (h : l.placeGlyph s c glyph = .ok s') :
    s'.world = s.world ∨
    (∃ b, b.isCircuit = false ∧ s'.world = s.world.setBlock (l.position c) b) ∨
    ∃ facing table, s'.world = s.world.placeCircuit (l.position c) facing table := by
  unfold placeGlyph at h
  split at h
  case h_1 => cases h
  case h_2 =>
    cases h
    exact .inl rfl
  case h_3 b _ glyph? =>
    -- any other block of the legend, which is never a circuit
    cases h
    exact .inr (.inl ⟨b, Glyph.not_isCircuit_of_ofChar? glyph?, rfl⟩)
  case h_4 =>
    split at h
    case h_1 => cases h
    case h_2 p _ =>
      cases h
      exact .inr (.inr ⟨p.facing, p.table, rfl⟩)

/-- **Whether stacking components keeps something**, whichever they are and wherever in the layers.
-/
structure StackingKeeps (l : Layout) (P : World → Prop) : Prop where
  block : ∀ w c b, l.Holds c → b.isCircuit = false → P w → P (w.setBlock (l.position c) b)
  circuit : ∀ w c facing table, l.Holds c → P w → P (w.placeCircuit (l.position c) facing table)

namespace StackingKeeps

variable {P : World → Prop} {s s' : Site} {layer row : Nat}

theorem placeGlyph (keeps : l.StackingKeeps P) (holds : l.Holds c) {glyph : Char}
    (placed : l.placeGlyph s c glyph = .ok s') (start : P s.world) : P s'.world := by
  rcases placeGlyph_cases placed with same | ⟨b, plain, set⟩ | ⟨facing, table, set⟩
  · rwa [same]
  · rw [set]
    exact keeps.block _ _ _ holds plain start
  · rw [set]
    exact keeps.circuit _ _ _ _ holds start

theorem placeRow (keeps : l.StackingKeeps P) (hl : layer < l.layers.length) (hr : row < gridSize)
    {glyphs : String} (placed : l.placeRow layer s row glyphs = .ok s') (start : P s.world) :
    P s'.world := by
  unfold Layout.placeRow at placed
  split at placed
  case isFalse => cases placed
  case isTrue width =>
    refine of_foldlM_eq_ok (P := fun s : Site => P s.world) placed start ?_
    rintro ⟨glyph, column⟩ mem s s' start placed
    have hc := List.snd_lt_of_mem_zipIdx mem
    rw [String.length_toList, width] at hc
    exact keeps.placeGlyph ⟨hl, hr, hc⟩ placed start

theorem placeLayer (keeps : l.StackingKeeps P) (hl : layer < l.layers.length) {rows : List String}
    (placed : l.placeLayer s layer rows = .ok s') (start : P s.world) : P s'.world := by
  unfold Layout.placeLayer at placed
  split at placed
  case isFalse => cases placed
  case isTrue height =>
    refine of_foldlM_eq_ok (P := fun s : Site => P s.world) placed start ?_
    rintro ⟨glyphs, row⟩ mem s s' start placed
    have hr := List.snd_lt_of_mem_zipIdx mem
    rw [height] at hr
    exact keeps.placeRow hl hr placed start

end StackingKeeps

/-- **The world of a layout** is within the limits, and all of its layers were put down. -/
theorem of_world_eq_ok (built : l.world = .ok w) : l.fits = true ∧ ∃ s,
    l.layers.zipIdx.foldlM (fun s (rows, layer) => l.placeLayer s layer rows)
      ⟨World.empty.layBoard l.origin l.role, l.circuits⟩ = .ok s ∧ s.world = w := by
  -- A world is built only where each of the checks passes.
  unfold world at built
  split at built
  case isFalse => cases built
  case isTrue fits =>
    refine ⟨fits, ?_⟩
    split at built
    case h_1 => cases built
    case h_2 =>
      obtain ⟨s, placed, rest⟩ := of_bind_eq_ok built
      split at rest
      case h_1 => cases rest
      case h_2 =>
        cases rest
        exact ⟨s, placed, rfl⟩

/-- **What holds of the laid board and is kept by stacking** holds of the world. -/
theorem StackingKeeps.world {P : World → Prop} (keeps : l.StackingKeeps P) (built : l.world = .ok w)
    (laid : P (World.empty.layBoard l.origin l.role)) : P w := by
  obtain ⟨-, s, placed, rfl⟩ := of_world_eq_ok built
  refine of_foldlM_eq_ok (P := fun s : Site => P s.world) placed laid ?_
  rintro ⟨rows, layer⟩ mem s s' start placed
  exact keeps.placeLayer (List.snd_lt_of_mem_zipIdx mem) placed start

/-! ### Above the board -/

/-- Small numbers are their own coordinates. -/
theorem coordinate_eq {n : Nat} (small : n < 2147483648) : coordinate n = n := by
  exact Int.bmod_eq_of_le (by omega) (by omega)

/-- **Where a cell is**: as far east, up and south of the corner as it is counted, and one further
up. -/
theorem position_eq (fits : l.fits = true) (holds : l.Holds c) :
    l.position c = l.origin.offset c.column (c.layer + 1) c.row := by
  have layers : (l.layers.length : Int) ≤ 30000000 := by
    simp only [Layout.fits, Bool.and_eq_true, decide_eq_true_iff] at fits
    exact fits.1.2
  obtain ⟨hl, hr, hc⟩ := holds
  rw [gridSize] at hr hc
  rw [position, coordinate_eq (by omega), coordinate_eq (by omega), coordinate_eq (by omega)]

/-- **The board of a layout stays a board**, whatever is stacked on it. -/
theorem laid_of_world (built : l.world = .ok w) :
    Laid w l.origin fun f => Style.ofSocket f (l.role f) := by
  obtain ⟨fits, -⟩ := of_world_eq_ok built
  -- The cells are above the board.
  have above {c : Cell} (holds : l.Holds c) {p : Position} (level : p.y = l.origin.y) :
      l.position c ≠ p := by
    rintro rfl
    rw [position_eq fits holds, Position.offset] at level
    dsimp only at level
    omega
  -- So on the level of the board nothing changes after the board was laid.
  have keeps : l.StackingKeeps fun w => ∀ p, p.y = l.origin.y →
      w.block p = (World.empty.layBoard l.origin l.role).block p := by
    refine ⟨?_, ?_⟩
    · intro w c b holds _ same p level
      rw [World.block_setBlock, if_neg (above holds level), same p level]
    · intro w c facing table holds same p level
      rw [World.block_placeCircuit, if_neg (above holds level), same p level]
  exact (World.laid_layBoard_empty l.origin l.role).of_level (keeps.world built fun _ _ => rfl)

/-! ### The table -/

/-- The sides of a board in a role are those that the layout lists in it. -/
theorem listed_eq (l : Layout) {r : SocketRole} (used : r ≠ .empty) :
    Board.listed ⟨l.origin, l.role⟩ r = l.listed r := by
  refine List.filter_congr fun side _ => ?_
  rw [decide_eq_decide]
  dsimp only [role]
  cases l.sockets (side.absolute .north) with
  | none => simpa using used.symm
  | some r' => simp

/-- **A layout that has a world has a board**, at each of the blocks of its square, with the roles
that it lists. One answer is right for all of them: feedback, or a table for the listed sides. -/
theorem synthesize_of_world (l : Layout) (w : World) (built : l.world = .ok w) :
    ∃ answer,
      (∀ p, OnSquare l.origin p →
        Board.resolve w p = .ok ⟨l.origin, fun f => (l.sockets f).getD .empty⟩ ∧
        synthesize w p = answer) ∧
      (answer = .error .cyclic ∨
        ∃ t, answer = .ok t ∧ t.inputs = l.listed .input ∧ t.outputs = l.listed .output) := by
  -- Every block of the board resolves to it, so all of them have the answer of its table.
  have resolved (p : Position) (mem : OnSquare l.origin p) :
      resolve w p = .ok ⟨l.origin, l.role⟩ := by
    rw [(laid_of_world built).resolve_eq mem]
    simp only [Style.role_ofSocket]
  rcases table?_cases ⟨l.origin, l.role⟩ w with ⟨none, -⟩ | ⟨t, some, -, ins, outs, -⟩
  · refine ⟨_, fun p mem => ⟨resolved p mem, ?_⟩, .inl rfl⟩
    exact synthesize_eq_of_table? (resolved p mem) none
  · refine ⟨_, fun p mem => ⟨resolved p mem, synthesize_eq_of_table? (resolved p mem) some⟩,
      .inr ⟨t, rfl, ?_, ?_⟩⟩
    · rw [ins, inputs, map_sidesWith, listed_eq l (by decide)]
    · rw [outs, outputs, map_sidesWith, listed_eq l (by decide)]

/-! ### A nested repeater -/

namespace Repeater

def table : TruthTable := ⟨[.right], [.front], [⟨0b10⟩], by decide, rfl, by decide⟩

/-- **A board with a nested repeater**, between a wire on the east socket and one on the north
socket. -/
def layout : Layout where
  origin := ⟨0, 0, 0⟩
  sockets
    | .north => some .output
    | .east => some .input
    | .south | .west => none
  layers := [["......+.", "......C+", "........", "........", "........", "........", "........",
    "........"]]
  circuits := [⟨⟨0, 1, 6⟩, .north, table⟩]

def world : World :=
  (((World.empty.layBoard layout.origin layout.role).setBlock ⟨6, 1, 0⟩ .wire).placeCircuit
    ⟨6, 1, 1⟩ .north table).setBlock ⟨7, 1, 1⟩ .wire

theorem world_eq : layout.world = .ok world := rfl

theorem table?_eq : Board.table? ⟨layout.origin, layout.role⟩ world = .ok (some table) := by
  cbv

end Repeater

/-- The board passes its input on, and any of its blocks will tell. -/
theorem synthesize_of_world_repeater : Repeater.layout.world = .ok Repeater.world ∧
    ∀ p, OnSquare ⟨0, 0, 0⟩ p → synthesize Repeater.world p = .ok Repeater.table := by
  refine ⟨Repeater.world_eq, ?_⟩
  obtain ⟨answer, same, -⟩ := synthesize_of_world Repeater.layout Repeater.world Repeater.world_eq
  intro p mem
  exact synthesize_eq_of_table? (same p mem).1 Repeater.table?_eq

end Layout

end TorchLogic
