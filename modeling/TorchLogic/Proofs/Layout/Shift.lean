import TorchLogic.Proofs.Board.Shift
import TorchLogic.Proofs.Layout.Exact

/-!
# The same layout at another origin

The world of a layout is known block by block (`Layout.IsWorld`), and each block is where it is
because of how far it is from the origin. So the same layout at another origin describes the same
world, moved (`Layout.IsWorld.shifted`), and what is traced on its board is the same netlist. A
table, or the feedback that there is none for, does not tell where the board stands
(`Layout.synthesize_at`).
-/

namespace TorchLogic

namespace Board

variable {w w' : World} {corner p d : Position} {styles : Facing → Style}

/-- Two boards that look alike have the same blocks. -/
theorem Laid.block_shift (laid : Laid w corner styles) (laid' : Laid w' (corner.shift d) styles)
    (mem : OnSquare corner p) : w'.block (p.shift d) = w.block p := by
  by_cases socket : ∃ f, p ∈ socketBlocks corner f
  · obtain ⟨f, socket⟩ := socket
    rw [laid.socket socket, laid'.socket (mem_socketBlocks_shift.2 socket)]
  · have none (f : Facing) : p ∉ socketBlocks corner f := fun mem => socket ⟨f, mem⟩
    rw [laid.plain mem none,
      laid'.plain (onSquare_shift.2 mem) fun f => mt mem_socketBlocks_shift.1 (none f)]

end Board

namespace Layout

open Board

variable {l : Layout} {w w' : World} {c : Cell} {char : Char} {d : Position}

/-- The layout moved as a whole. -/
def shift (l : Layout) (d : Position) : Layout := { l with origin := l.origin.shift d }

theorem position_shift (l : Layout) (c : Cell) (d : Position) :
    (l.shift d).position c = (l.position c).shift d :=
  Position.shift_offset l.origin d _ _ _

theorem holds_shift : (l.shift d).Holds c ↔ l.Holds c :=
  ⟨fun ⟨hl, hr, hc⟩ => ⟨hl, hr, hc⟩, fun ⟨hl, hr, hc⟩ => ⟨hl, hr, hc⟩⟩

/-- What two worlds show for a glyph is the same, if no two entries are for the same cell. -/
theorem Shows.eq_of_shift (distinct : (l.circuits.map Placement.cell).Nodup)
    (shows : l.Shows w c char) (shows' : (l.shift d).Shows w' c char) :
    w'.block ((l.position c).shift d) = w.block (l.position c) ∧
      w'.table? ((l.position c).shift d) = w.table? (l.position c) := by
  cases shows with
  | block listed block bare =>
    cases shows' with
    | block listed' block' bare' =>
      rw [position_shift] at block' bare'
      rw [block, block', bare, bare', eq_of_mem_legend listed' listed]
      exact ⟨rfl, rfl⟩
    | circuit => exact absurd listed not_mem_legend
  | circuit entry cell block table =>
    cases shows' with
    | block listed' => exact absurd listed' not_mem_legend
    | circuit entry' cell' block' table' =>
      -- Both worlds show the same entry, the only one for the cell.
      obtain rfl := List.inj_on_of_nodup_map distinct entry' entry (cell'.trans cell.symm)
      rw [position_shift] at block' table'
      exact ⟨block'.trans block.symm, table'.trans table.symm⟩

/-- **The same layout at another origin** describes the same world, moved. -/
theorem IsWorld.shifted (sound : l.Sound) (world : l.IsWorld w) (world' : (l.shift d).IsWorld w') :
    w.Shifted w' d := by
  suffices same : ∀ p, w'.block (p.shift d) = w.block p ∧ w'.table? (p.shift d) = w.table? p from
    ⟨fun p => (same p).1, fun p => (same p).2⟩
  intro p
  by_cases cell : ∃ c, l.Holds c ∧ l.position c = p
  · -- a cell of the layers shows the same glyph in both worlds
    obtain ⟨c, holds, rfl⟩ := cell
    obtain ⟨char, found, shows⟩ := world.shows c holds
    obtain ⟨char', found', shows'⟩ := world'.shows c (holds_shift.2 holds)
    obtain rfl : char' = char := Option.some.inj (found'.symm.trans found)
    exact shows.eq_of_shift sound.distinct shows'
  · have away (c : Cell) (holds : l.Holds c) : l.position c ≠ p := fun eq => cell ⟨c, holds, eq⟩
    have away' (c : Cell) (holds : l.Holds c) : (l.shift d).position c ≠ p.shift d := by
      rw [position_shift, ne_eq, Position.shift_inj]
      exact away c holds
    -- Every entry is for a cell of the layers.
    have holds (q : Placement) (mem : q ∈ l.circuits) : l.Holds q.cell :=
      sound.holds_iff.2 ⟨'C', (sound.matched _).2 ⟨q, mem, rfl⟩⟩
    constructor
    · -- elsewhere there is the board, and air
      by_cases mem : OnSquare l.origin p
      · exact world.board.block_shift world'.board mem
      · rw [world.air p mem away]
        exact world'.air _ (mt onSquare_shift.1 mem) fun c holds => away' c (holds_shift.1 holds)
    · rw [world.bare p fun q mem => away _ (holds q mem)]
      exact world'.bare _ fun q mem => away' _ (holds q mem)

/-- **What a board computes does not depend on where it stands.** If the same layout has a world at
two origins, the netlists of the two boards are the same, number by number, and so is the answer to
a request for the table, which is a table or that there is feedback. -/
theorem synthesize_at (l : Layout) (o : Position) (w w' : World) (built : l.world = .ok w)
    (built' : Layout.world { l with origin := o } = .ok w') :
    (∃ g, resolve w l.origin = .ok ⟨l.origin, l.role⟩ ∧ Board.trace ⟨l.origin, l.role⟩ w = .ok g ∧
      resolve w' o = .ok ⟨o, l.role⟩ ∧ Board.trace ⟨o, l.role⟩ w' = .ok g) ∧
    synthesize w l.origin = synthesize w' o ∧
    (synthesize w l.origin = .error .cyclic ∨ ∃ t, synthesize w l.origin = .ok t) := by
  obtain ⟨d, rfl⟩ := l.origin.exists_shift_eq o
  have shifted : w.Shifted w' d :=
    (isWorld_of_world built).shifted (sound_of_world built).1
      (isWorld_of_world (l := l.shift d) built')
  obtain ⟨g, -, -, -, traced, -⟩ := exists_trace ⟨l.origin, l.role⟩ w
  have traced' : Board.trace ⟨l.origin.shift d, l.role⟩ w' = .ok g := by
    have same := trace_shift (b := ⟨l.origin, l.role⟩) shifted
    rwa [traced] at same
  -- Either world resolves to its own board, by its corner.
  have resolved {l : Layout} {w : World} (built : l.world = .ok w) :
      resolve w l.origin = .ok ⟨l.origin, l.role⟩ := by
    have corner : OnSquare l.origin l.origin := by
      unfold OnSquare
      omega
    rw [(laid_of_world built).resolve_eq corner]
    simp only [Style.role_ofSocket]
  have table : Board.table? ⟨l.origin.shift d, l.role⟩ w' = Board.table? ⟨l.origin, l.role⟩ w := by
    rw [Board.table?, Board.table?, traced, traced']
  refine ⟨⟨g, resolved built, traced, resolved (l := l.shift d) built', traced'⟩, ?_⟩
  rcases table?_cases ⟨l.origin, l.role⟩ w with ⟨none, -⟩ | ⟨t, some, -⟩
  · have answer := synthesize_eq_of_table? (resolved built) none
    have answer' := synthesize_eq_of_table? (resolved (l := l.shift d) built') (table.trans none)
    exact ⟨answer.trans answer'.symm, .inl answer⟩
  · have answer := synthesize_eq_of_table? (resolved built) some
    have answer' := synthesize_eq_of_table? (resolved (l := l.shift d) built') (table.trans some)
    exact ⟨answer.trans answer'.symm, .inr ⟨t, answer⟩⟩

namespace Repeater

/-- The world of the nested repeater at another origin. -/
def movedWorld : World :=
  (((World.empty.layBoard ⟨-20, 64, 300⟩ layout.role).setBlock ⟨-14, 65, 300⟩ .wire).placeCircuit
    ⟨-14, 65, 301⟩ .north table).setBlock ⟨-13, 65, 301⟩ .wire

theorem movedWorld_eq :
    Layout.world { layout with origin := ⟨-20, 64, 300⟩ } = .ok movedWorld := rfl

end Repeater

/-- The nested repeater passes its input on wherever it stands. -/
theorem synthesize_at_repeater : Repeater.layout.world = .ok Repeater.world ∧
    Layout.world { Repeater.layout with origin := ⟨-20, 64, 300⟩ } = .ok Repeater.movedWorld ∧
    synthesize Repeater.movedWorld ⟨-20, 64, 300⟩ = .ok Repeater.table := by
  refine ⟨Repeater.world_eq, Repeater.movedWorld_eq, ?_⟩
  obtain ⟨⟨g, resolved, -⟩, same, -⟩ := synthesize_at Repeater.layout ⟨-20, 64, 300⟩ Repeater.world
    Repeater.movedWorld Repeater.world_eq Repeater.movedWorld_eq
  rw [← same]
  exact synthesize_eq_of_table? resolved Repeater.table?_eq

end Layout

end TorchLogic
