import TorchLogic.Proofs.Layout.Defect

/-!
# What a layout describes

The world of a layout is known block by block (`Layout.IsWorld`): the board with the listed sides,
at each cell of the layers what its glyph stands for, and air everywhere else. What glyphs stand for
is written out in the legend (`Layout.legend`), which they are read by
(`Layout.Glyph.ofChar?_eq_block_iff`). Different cells are at different positions, none of them on
the level of the board (`Layout.position_inj`, `Layout.not_onSquare_position`), so every glyph is
put down at a position that nothing was put at before, and stays as it was put (`Layout.Built.run`).

With the order of the defects this says everything about the world of a layout: which layouts have
one, what it is, and for the others which error is reported (`Layout.world_exact`).
-/

namespace TorchLogic.Layout

open Board

variable {l : Layout} {w w' : World} {c d : Cell} {char : Char} {p q : Position}

/-! ### Cells and their positions -/

/-- The cells of a sound layout have glyphs. -/
theorem Sound.holds_iff (sound : l.Sound) : l.Holds c ↔ ∃ char, l.glyph? c = some char := by
  constructor
  · -- each layer has eight rows, and each row eight glyphs
    intro ⟨hl, hr, hc⟩
    have height := sound.height _ (List.getElem_mem hl)
    have hr : c.row < l.layers[c.layer].length := height ▸ hr
    have width := sound.width _ (List.getElem_mem hl) _ (List.getElem_mem hr)
    have hc : c.column < l.layers[c.layer][c.row].toList.length := by
      rw [String.length_toList, width]
      exact hc
    have row : l.row? c.layer c.row = some l.layers[c.layer][c.row] :=
      row?_eq_some_iff.2 ⟨_, List.getElem?_eq_getElem hl, List.getElem?_eq_getElem hr⟩
    exact ⟨_, glyph?_eq_some_iff.2 ⟨_, row, List.getElem?_eq_getElem hc⟩⟩
  · rintro ⟨char, found⟩
    obtain ⟨row, found, found'⟩ := glyph?_eq_some_iff.1 found
    obtain ⟨rows, found, found''⟩ := row?_eq_some_iff.1 found
    have height := sound.height _ (List.mem_of_getElem? found)
    have width := sound.width _ (List.mem_of_getElem? found) _ (List.mem_of_getElem? found'')
    have hl := (List.getElem?_eq_some_iff.1 found).1
    have hr := (List.getElem?_eq_some_iff.1 found'').1
    have hc := (List.getElem?_eq_some_iff.1 found').1
    rw [height] at hr
    rw [String.length_toList, width] at hc
    exact ⟨hl, hr, hc⟩

/-- **Different cells are at different positions.** -/
theorem position_inj (fits : l.fits = true) (holds : l.Holds c) (holds' : l.Holds d) :
    l.position c = l.position d ↔ c = d := by
  refine ⟨fun eq => ?_, fun eq => eq ▸ rfl⟩
  rw [position_eq fits holds, position_eq fits holds'] at eq
  obtain ⟨layer, row, column⟩ := c
  obtain ⟨layer', row', column'⟩ := d
  simp only [Position.offset, Position.mk.injEq, Cell.mk.injEq] at eq ⊢
  omega

/-- All cells are above the level of the board. -/
theorem not_onSquare_position (fits : l.fits = true) (holds : l.Holds c) :
    ¬ OnSquare l.origin (l.position c) := by
  intro mem
  have level := mem.1
  rw [position_eq fits holds, Position.offset] at level
  dsimp only at level
  omega

/-! ### Putting glyphs down -/

/-- **The legend of layouts**: the glyphs that stand for a block of their own. The glyph of nested
circuits is not among them, as its block is told by an entry. -/
def legend : List (Char × Block) :=
  [('.', .air), ('+', .wire), ('#', .solid), ('*', .torch),
    ('^', .wallTorch .north), ('>', .wallTorch .east),
    ('v', .wallTorch .south), ('<', .wallTorch .west)]

/-- **Whether a world shows a glyph at a cell**: the block that the legend gives for it, without a
table, or a nested circuit that faces as its entry says, with the table of the entry. -/
inductive Shows (l : Layout) (w : World) (c : Cell) : Char → Prop
  | block {char : Char} {b : Block} (listed : (char, b) ∈ legend)
      (block : w.block (l.position c) = b) (bare : w.table? (l.position c) = none) :
      Shows l w c char
  | circuit {p : Placement} (entry : p ∈ l.circuits) (cell : p.cell = c)
      (block : w.block (l.position c) = .circuit p.facing)
      (table : w.table? (l.position c) = some p.table) : Shows l w c 'C'

/-- **Glyphs are read as the legend says.** -/
theorem Glyph.ofChar?_eq_block_iff {b : Block} :
    Glyph.ofChar? char = some (.block b) ↔ (char, b) ∈ legend := by
  unfold Glyph.ofChar?
  split <;> simp_all [legend, eq_comm]

/-- No glyph of the legend stands for two blocks. -/
theorem eq_of_mem_legend {b b' : Block} (listed : (char, b) ∈ legend)
    (listed' : (char, b') ∈ legend) : b = b' := by
  rw [← Glyph.ofChar?_eq_block_iff] at listed listed'
  rw [listed] at listed'
  cases listed'
  rfl

/-- The glyph of nested circuits is not in the legend. -/
theorem not_mem_legend {b : Block} : ('C', b) ∉ legend := by
  simp [legend]

/-- What a world shows at a cell is told at the position of the cell. -/
theorem Shows.congr (shows : l.Shows w c char)
    (block : w'.block (l.position c) = w.block (l.position c))
    (table : w'.table? (l.position c) = w.table? (l.position c)) : l.Shows w' c char := by
  cases shows with
  | block listed here bare => exact .block listed (block.trans here) (table.trans bare)
  | circuit entry cell here told => exact .circuit entry cell (block.trans here) (table.trans told)

/-- **A glyph that is put down at an empty position is shown**, and no other position changes. -/
theorem placeGlyph_shows {s s' : Site} (placed : l.placeGlyph s c char = .ok s')
    (unused : ∀ p ∈ s.unused, p ∈ l.circuits) (air : s.world.block (l.position c) = .air)
    (bare : s.world.table? (l.position c) = none) :
    l.Shows s'.world c char ∧ (∀ p ∈ s'.unused, p ∈ l.circuits) ∧ ∀ q, l.position c ≠ q →
      s'.world.block q = s.world.block q ∧ s'.world.table? q = s.world.table? q := by
  unfold placeGlyph at placed
  split at placed
  case h_1 => cases placed
  -- A glyph for air changes nothing, and the position is empty already.
  case h_2 glyph =>
    cases placed
    exact ⟨.block (Glyph.ofChar?_eq_block_iff.1 glyph) air bare, unused, fun q _ => ⟨rfl, rfl⟩⟩
  case h_3 b _ glyph =>
    -- any other block takes the place, and leaves no table there
    cases placed
    have plain := Glyph.not_isCircuit_of_ofChar? glyph
    refine ⟨.block (Glyph.ofChar?_eq_block_iff.1 glyph) ?_ ?_, unused, fun q other => ⟨?_, ?_⟩⟩
    · rw [World.block_setBlock, if_pos rfl]
    · rw [World.table?_setBlock, if_pos ⟨rfl, plain⟩]
    · rw [World.block_setBlock, if_neg other]
    · rw [World.table?_setBlock, if_neg fun h => other h.1]
  case h_4 glyph =>
    -- a circuit comes with the facing and the table of its entry
    obtain rfl := Glyph.ofChar?_eq_circuit_iff.1 glyph
    split at placed
    case h_1 => cases placed
    case h_2 p found =>
      cases placed
      refine ⟨.circuit (unused p (List.mem_of_find?_eq_some found)) ?_ ?_ ?_, ?_,
        fun q other => ⟨?_, ?_⟩⟩
      · exact eq_of_beq (List.find?_some (p := fun p : Placement => p.cell == c) found)
      · rw [World.block_placeCircuit, if_pos rfl]
      · rw [World.table?_placeCircuit, if_pos rfl]
      · exact fun q mem => unused q (List.mem_of_mem_filter mem)
      · rw [World.block_placeCircuit, if_neg other]
      · rw [World.table?_placeCircuit, if_neg other]

/-- **What holds while the layers are read**: the glyphs that were put down are shown, and all other
positions are as they were when the board was laid. -/
structure Built (l : Layout) (done : List Step) (s : Site) : Prop where
  unused : ∀ p ∈ s.unused, p ∈ l.circuits
  shows : ∀ c char, .glyph c char ∈ done → l.Shows s.world c char
  rest : ∀ q, (∀ c char, .glyph c char ∈ done → l.position c ≠ q) →
    s.world.block q = (World.empty.layBoard l.origin l.role).block q ∧ s.world.table? q = none

/-- A step that puts nothing down. -/
theorem Built.concat_of_ne {s : Site} {t : Step} {done : List Step} (built : l.Built done s)
    (ne : ∀ c char, t ≠ .glyph c char) : l.Built (done ++ [t]) s := by
  have same (c : Cell) (char : Char) : .glyph c char ∈ done ++ [t] ↔ .glyph c char ∈ done := by
    rw [List.mem_append, List.mem_singleton, or_iff_left (ne c char).symm]
  refine ⟨built.unused, ?_, ?_⟩
  · simpa only [same] using built.shows
  · simpa only [same] using built.rest

/-- **Each step keeps what holds while the layers are read.** -/
theorem Built.run {s s' : Site} {t : Step} {done rest : List Step} (sound : l.Sound)
    (eq : l.steps = done ++ t :: rest) (built : l.Built done s) (stepped : l.run s t = .ok s') :
    l.Built (done ++ [t]) s' := by
  cases t with
  | height layer count =>
    -- counting puts nothing down
    rw [Layout.run] at stepped
    split at stepped <;> cases stepped
    exact built.concat_of_ne fun _ _ => Step.noConfusion
  | width layer row count =>
    rw [Layout.run] at stepped
    split at stepped <;> cases stepped
    exact built.concat_of_ne fun _ _ => Step.noConfusion
  | glyph c char =>
    -- Every glyph is that of a cell.
    have holds {d : Cell} {char' : Char} (mem : .glyph d char' ∈ l.steps) : l.Holds d :=
      sound.holds_iff.2 ⟨char', glyph_mem_steps.1 mem⟩
    have here : l.Holds c := holds (eq ▸ List.mem_append_right done List.mem_cons_self)
    -- What was put down before is at other positions.
    have apart (d : Cell) (char' : Char) (mem : .glyph d char' ∈ done) :
        l.position d ≠ l.position c := by
      intro same
      rw [position_inj sound.fits (holds (eq ▸ List.mem_append_left _ mem)) here] at same
      exact place_ne_of_mem eq mem (congrArg Cell.place same)
    obtain ⟨untouched, bare⟩ := built.rest (l.position c) apart
    -- The position is above the board, and so nothing stands there yet.
    have air : s.world.block (l.position c) = .air := by
      rw [untouched,
        World.block_layBoard_of_not_onSquare _ _ (not_onSquare_position sound.fits here),
        World.block_empty]
    obtain ⟨shows, unused, others⟩ := placeGlyph_shows stepped built.unused air bare
    refine ⟨unused, ?_, ?_⟩
    · intro d char' mem
      rw [List.mem_append, List.mem_singleton] at mem
      rcases mem with mem | same
      · obtain ⟨block, table⟩ := others _ (apart d char' mem).symm
        exact (built.shows d char' mem).congr block table
      · obtain ⟨rfl, rfl⟩ := Step.glyph.inj same
        exact shows
    · intro q ne
      obtain ⟨block, table⟩ := others q (ne c char (List.mem_append_right done List.mem_cons_self))
      obtain ⟨block', table'⟩ := built.rest q fun d char' mem =>
        ne d char' (List.mem_append_left _ mem)
      exact ⟨block.trans block', table.trans table'⟩

/-! ### The world of a layout -/

/-- **Whether a world is the one that a layout describes**, block by block. -/
structure IsWorld (l : Layout) (w : World) : Prop where
  /-- Cells are counted from the corner, and the first layer stands on the board. -/
  position : ∀ c, l.Holds c → l.position c = l.origin.offset c.column (c.layer + 1) c.row
  /-- The board has the listed sides, and touches no other breadboard block. -/
  board : Laid w l.origin fun f => Style.ofSocket f ((l.sockets f).getD .empty)
  shows : ∀ c, l.Holds c → ∃ char, l.glyph? c = some char ∧ l.Shows w c char
  air : ∀ q, ¬ OnSquare l.origin q → (∀ c, l.Holds c → l.position c ≠ q) → w.block q = .air
  /-- Tables are for the cells of entries only. -/
  bare : ∀ q, (∀ p ∈ l.circuits, l.position p.cell ≠ q) → w.table? q = none

/-- A layout that has a world is sound, and all of its layers were put down. -/
theorem sound_of_world (built : l.world = .ok w) : l.Sound ∧ ∃ s,
    l.steps.foldlM l.run ⟨World.empty.layBoard l.origin l.role, l.circuits⟩ = .ok s ∧
      s.world = w := by
  rcases l.world_outcome with ⟨e, place, failed, -⟩ | ⟨none, s, placed, done⟩
  · rw [built] at failed
    cases failed
  · rw [built] at done
    cases done
    exact ⟨sound_iff.2 none, s, placed, rfl⟩

/-- **The world of a layout is the one that it describes.** -/
theorem isWorld_of_world (world : l.world = .ok w) : l.IsWorld w := by
  obtain ⟨sound, s, placed, rfl⟩ := sound_of_world world
  -- It starts with the board alone,
  have start : l.Built [] ⟨World.empty.layBoard l.origin l.role, l.circuits⟩ := by
    refine ⟨fun p mem => mem, fun c char mem => absurd mem List.not_mem_nil, fun q _ => ⟨rfl, ?_⟩⟩
    rw [World.table?_layBoard, World.table?_empty]
  -- and each step keeps what is there and adds its own glyph.
  have built : l.Built l.steps s := of_foldlM_eq_ok_of_append (P := l.Built) placed start
    fun done t rest s s' eq built stepped => built.run sound eq stepped
  have shows (c : Cell) (holds : l.Holds c) :
      ∃ char, l.glyph? c = some char ∧ l.Shows s.world c char := by
    obtain ⟨char, found⟩ := sound.holds_iff.1 holds
    exact ⟨char, found, built.shows c char (glyph_mem_steps.2 found)⟩
  refine ⟨fun c => position_eq sound.fits, laid_of_world world, shows, ?_, ?_⟩
  · intro q out away
    rw [(built.rest q fun c char mem => away c (sound.holds_iff.2 ⟨char, glyph_mem_steps.1 mem⟩)).1,
      World.block_layBoard_of_not_onSquare _ _ out, World.block_empty]
  -- A table at a cell is there because of an entry.
  · intro q away
    by_cases cell : ∃ c, l.Holds c ∧ l.position c = q
    · obtain ⟨c, holds, rfl⟩ := cell
      obtain ⟨char, found, shown⟩ := shows c holds
      cases shown with
      | block _ _ bare => exact bare
      | circuit entry cell => exact absurd (cell ▸ rfl) (away _ entry)
    · exact (built.rest q fun c char mem eq =>
        cell ⟨c, sound.holds_iff.2 ⟨char, glyph_mem_steps.1 mem⟩, eq⟩).2

/-- **What is known about the world of a layout.** There is one exactly if the layout is sound, and
it is the one that the layout describes. For other layouts the error is the first of the defects. -/
theorem world_exact (l : Layout) :
    ((∃ w, l.world = .ok w) ↔ l.Sound) ∧ (∀ w, l.world = .ok w → l.IsWorld w) ∧
    ∀ e, l.world = .error e ↔ ∃ place, l.First place e := by
  refine ⟨⟨?_, ?_⟩, fun w => isWorld_of_world, fun e => ⟨?_, ?_⟩⟩
  · rintro ⟨w, built⟩
    exact (sound_of_world built).1
  · -- a layout without defects has nothing to report
    intro sound
    rcases l.world_outcome with ⟨e, place, -, first⟩ | ⟨-, s, -, built⟩
    · exact absurd first.defect sound.not_defect
    · exact ⟨s.world, built⟩
  · intro failed
    rcases l.world_outcome with ⟨e', place, failed', first⟩ | ⟨-, s, -, built⟩
    · rw [failed] at failed'
      cases failed'
      exact ⟨place, first⟩
    · rw [failed] at built
      cases built
  · -- no two defects are the first
    rintro ⟨place, first⟩
    rcases l.world_outcome with ⟨e', place', failed, first'⟩ | ⟨none, -⟩
    · rw [failed, first.unique first']
    · exact absurd first.defect (none place e)

/-- Layers are read from below, and entries without a glyph come last: a row that is too short is
reported before the unknown glyph above it and before the entry. -/
example : world ⟨⟨0, 0, 0⟩, fun _ => none, [["+.", "", "", "", "", "", "", ""], ["?"]],
    [⟨⟨0, 0, 0⟩, .north, Repeater.table⟩]⟩ = .error (.rowWidth 0 0 2) := rfl

end TorchLogic.Layout
