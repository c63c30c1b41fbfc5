import Mathlib.Data.List.Lex
import TorchLogic.Proofs.Layout.World

/-!
# Reading a layout step by step

The layers of a layout are read by loops in loops, and reading stops at the first thing that is
wrong. Written as one list (`Layout.steps`), what happens is: the rows of a layer are counted, then
the glyphs of its first row, then each of these glyphs is put down, and so on. Taking these steps
one after the other is what the loops do (`Layout.foldlM_placeLayer`).

Each step is for a place: a layer, a row of it or a cell. Places are written as lists of numbers and
come one after the other as words in a dictionary do, so a layer comes before its rows and a row
before its cells (`Layout.steps_pairwise`). Which steps there are can be told from what is found at
their places (`Layout.height_mem_steps`, `Layout.width_mem_steps`, `Layout.glyph_mem_steps`).

What a step can fail with can be told from the step alone (`Layout.fault?`), except for a circuit
glyph, which fails if no entry is left for it. But no cell comes twice, so the entries left are at
any time those whose glyph is still to come (`Layout.left`), and a circuit glyph fails if there is
no entry for its cell at all. So reading ends with the first fault, or with the entries that no
glyph is for (`Layout.steps_outcome`).
-/

namespace TorchLogic

variable {l : Layout} {c d : Cell} {char : Char} {layer row count : Nat}

/-- The numbers of a cell, from the largest part of the layout to the smallest. -/
def Cell.place (c : Cell) : List Nat := [c.layer, c.row, c.column]

theorem Cell.place_inj : c.place = d.place ↔ c = d := by
  refine ⟨fun eq => ?_, fun eq => eq ▸ rfl⟩
  obtain ⟨layer, row, column⟩ := c
  obtain ⟨layer', row', column'⟩ := d
  simpa [Cell.place] using eq

/-- **Cells come one after the other as their numbers do.** -/
theorem Cell.before_iff_lex : c.before d = true ↔ List.Lex (· < ·) c.place d.place := by
  simp only [Cell.before, Cell.place, Bool.or_eq_true, Bool.and_eq_true, decide_eq_true_iff,
    beq_iff_eq, List.cons_lex_cons_iff, List.not_lex_nil, and_false, or_false]

theorem Cell.before_eq_false_iff : c.before d = false ↔ d.layer < c.layer ∨
    d.layer = c.layer ∧ (d.row < c.row ∨ d.row = c.row ∧ d.column ≤ c.column) := by
  simp only [Cell.before, Bool.or_eq_false_iff, Bool.and_eq_false_iff, decide_eq_false_iff_not,
    beq_eq_false_iff_ne]
  omega

namespace Layout

/-- The row of glyphs at a place. -/
def row? (l : Layout) (layer row : Nat) : Option String := l.layers[layer]?.bind (·[row]?)

/-- **The glyph at a cell.** -/
def glyph? (l : Layout) (c : Cell) : Option Char :=
  (l.row? c.layer c.row).bind (·.toList[c.column]?)

theorem row?_eq_some_iff {glyphs : String} : l.row? layer row = some glyphs ↔
    ∃ rows, l.layers[layer]? = some rows ∧ rows[row]? = some glyphs :=
  Option.bind_eq_some_iff

theorem glyph?_eq_some_iff : l.glyph? c = some char ↔
    ∃ glyphs, l.row? c.layer c.row = some glyphs ∧ glyphs.toList[c.column]? = some char :=
  Option.bind_eq_some_iff

/-! ### Steps -/

/-- **One step of reading a layout.** -/
inductive Step
  /-- Counts the rows of a layer. -/
  | height (layer count : Nat)
  /-- Counts the glyphs of a row. -/
  | width (layer row count : Nat)
  /-- Puts a glyph down. -/
  | glyph (c : Cell) (char : Char)
  deriving DecidableEq

/-- What a step looks at. -/
def Step.place : Step → List Nat
  | height layer _ => [layer]
  | width layer row _ => [layer, row]
  | glyph c _ => c.place

/-- Takes a step. -/
def run (l : Layout) (s : Site) : Step → Except LayoutError Site
  | .height layer count => if count = gridSize then .ok s else .error (.rowCount layer count)
  | .width layer row count => if count = gridSize then .ok s else .error (.rowWidth layer row count)
  | .glyph c char => l.placeGlyph s c char

/-- The steps for a row. -/
def rowSteps (layer row : Nat) (glyphs : String) : List Step :=
  .width layer row glyphs.length ::
    glyphs.toList.zipIdx.map fun (char, column) => .glyph ⟨layer, row, column⟩ char

/-- The steps for a layer. -/
def layerSteps (layer : Nat) (rows : List String) : List Step :=
  .height layer rows.length :: rows.zipIdx.flatMap fun (glyphs, row) => rowSteps layer row glyphs

/-- **The steps for all layers.** -/
def steps (l : Layout) : List Step :=
  l.layers.zipIdx.flatMap fun (rows, layer) => layerSteps layer rows

theorem foldlM_rowSteps (l : Layout) (s : Site) (layer row : Nat) (glyphs : String) :
    (rowSteps layer row glyphs).foldlM l.run s = l.placeRow layer s row glyphs := by
  rw [rowSteps, List.foldlM_cons, run, placeRow]
  split
  · rw [ok_bind, List.foldlM_map]
    rfl
  · rfl

theorem foldlM_layerSteps (l : Layout) (s : Site) (layer : Nat) (rows : List String) :
    (layerSteps layer rows).foldlM l.run s = l.placeLayer s layer rows := by
  rw [layerSteps, List.foldlM_cons, run, placeLayer]
  split
  · rw [ok_bind, foldlM_flatMap]
    simp only [foldlM_rowSteps]
  · rfl

/-- **Reading the layers is taking the steps.** -/
theorem foldlM_placeLayer (l : Layout) (s : Site) :
    l.layers.zipIdx.foldlM (fun s (rows, layer) => l.placeLayer s layer rows) s =
      l.steps.foldlM l.run s := by
  rw [steps, foldlM_flatMap]
  simp only [foldlM_layerSteps]

/-! ### Which steps there are -/

section Members

variable {s : Step} {glyphs : String} {rows : List String}

theorem mem_rowSteps : s ∈ rowSteps layer row glyphs ↔ s = .width layer row glyphs.length ∨
    ∃ column char, glyphs.toList[column]? = some char ∧ s = .glyph ⟨layer, row, column⟩ char := by
  rw [rowSteps, List.mem_cons, List.mem_map]
  refine or_congr_right ⟨?_, ?_⟩
  · rintro ⟨⟨char, column⟩, mem, rfl⟩
    exact ⟨column, char, List.mk_mem_zipIdx_iff_getElem?.1 mem, rfl⟩
  · rintro ⟨column, char, get, rfl⟩
    exact ⟨(char, column), List.mk_mem_zipIdx_iff_getElem?.2 get, rfl⟩

theorem mem_layerSteps : s ∈ layerSteps layer rows ↔ s = .height layer rows.length ∨
    ∃ row glyphs, rows[row]? = some glyphs ∧ s ∈ rowSteps layer row glyphs := by
  rw [layerSteps, List.mem_cons, List.mem_flatMap]
  refine or_congr_right ⟨?_, ?_⟩
  · rintro ⟨⟨glyphs, row⟩, mem, step⟩
    exact ⟨row, glyphs, List.mk_mem_zipIdx_iff_getElem?.1 mem, step⟩
  · rintro ⟨row, glyphs, get, step⟩
    exact ⟨(glyphs, row), List.mk_mem_zipIdx_iff_getElem?.2 get, step⟩

theorem mem_steps : s ∈ l.steps ↔
    (∃ layer rows, l.layers[layer]? = some rows ∧ s = .height layer rows.length) ∨
    ∃ layer row glyphs, l.row? layer row = some glyphs ∧ s ∈ rowSteps layer row glyphs := by
  rw [steps, List.mem_flatMap]
  refine ⟨?_, ?_⟩
  · -- a step of a layer counts it or is a step of one of its rows
    rintro ⟨⟨rows, layer⟩, mem, step⟩
    have get := List.mk_mem_zipIdx_iff_getElem?.1 mem
    rcases mem_layerSteps.1 step with rfl | ⟨row, glyphs, get', step⟩
    · exact .inl ⟨layer, rows, get, rfl⟩
    · exact .inr ⟨layer, row, glyphs, row?_eq_some_iff.2 ⟨rows, get, get'⟩, step⟩
  · rintro (⟨layer, rows, get, rfl⟩ | ⟨layer, row, glyphs, get, step⟩)
    · exact ⟨(rows, layer), List.mk_mem_zipIdx_iff_getElem?.2 get, mem_layerSteps.2 (.inl rfl)⟩
    · obtain ⟨rows, get, get'⟩ := row?_eq_some_iff.1 get
      exact ⟨(rows, layer), List.mk_mem_zipIdx_iff_getElem?.2 get,
        mem_layerSteps.2 (.inr ⟨row, glyphs, get', step⟩)⟩

end Members

theorem height_mem_steps : .height layer count ∈ l.steps ↔
    ∃ rows, l.layers[layer]? = some rows ∧ count = rows.length := by
  simp [mem_steps, mem_rowSteps]

theorem width_mem_steps : .width layer row count ∈ l.steps ↔
    ∃ glyphs, l.row? layer row = some glyphs ∧ count = glyphs.length := by
  simp [mem_steps, mem_rowSteps]

theorem glyph_mem_steps : .glyph c char ∈ l.steps ↔ l.glyph? c = some char := by
  obtain ⟨layer, row, column⟩ := c
  simp [mem_steps, mem_rowSteps, glyph?_eq_some_iff]

/-! ### The order of the steps -/

/-- Members are numbered in their order. -/
theorem zipIdx_pairwise {α : Type} (xs : List α) : xs.zipIdx.Pairwise fun x y => x.2 < y.2 := by
  rw [← List.pairwise_map, List.zipIdx_map_snd]
  exact List.pairwise_lt_range'

/-- Whether the place of a step comes before the place of another. -/
def Step.Before (s t : Step) : Prop := List.Lex (· < ·) s.place t.place

theorem rowSteps_pairwise (layer row : Nat) (glyphs : String) :
    (rowSteps layer row glyphs).Pairwise Step.Before := by
  rw [rowSteps, List.pairwise_cons, List.pairwise_map]
  refine ⟨?_, (zipIdx_pairwise _).imp fun less => .cons (.cons (.rel less))⟩
  intro s mem
  obtain ⟨x, -, rfl⟩ := List.mem_map.1 mem
  exact .cons (.cons .nil)

theorem layerSteps_pairwise (layer : Nat) (rows : List String) :
    (layerSteps layer rows).Pairwise Step.Before := by
  -- All places of a row start with the numbers of the row.
  have place {row : Nat} {glyphs : String} {s : Step} (mem : s ∈ rowSteps layer row glyphs) :
      ∃ rest, s.place = layer :: row :: rest := by
    rcases mem_rowSteps.1 mem with rfl | ⟨column, char, -, rfl⟩
    · exact ⟨[], rfl⟩
    · exact ⟨[column], rfl⟩
  rw [layerSteps, List.pairwise_cons, List.pairwise_flatMap]
  refine ⟨?_, fun x _ => rowSteps_pairwise layer x.2 x.1, ?_⟩
  · -- the layer is counted before its rows
    intro s mem
    obtain ⟨x, -, mem⟩ := List.mem_flatMap.1 mem
    obtain ⟨rest, eq⟩ := place mem
    rw [Step.Before, eq]
    exact .cons .nil
  · refine (zipIdx_pairwise _).imp fun less s mem t mem' => ?_
    obtain ⟨rest, eq⟩ := place mem
    obtain ⟨rest', eq'⟩ := place mem'
    rw [Step.Before, eq, eq']
    exact .cons (.rel less)

/-- **The steps come in the order of their places.** -/
theorem steps_pairwise (l : Layout) : l.steps.Pairwise Step.Before := by
  -- All places of a layer start with the number of the layer.
  have place {layer : Nat} {rows : List String} {s : Step} (mem : s ∈ layerSteps layer rows) :
      ∃ rest, s.place = layer :: rest := by
    rcases mem_layerSteps.1 mem with rfl | ⟨row, glyphs, -, mem⟩
    · exact ⟨[], rfl⟩
    · rcases mem_rowSteps.1 mem with rfl | ⟨column, char, -, rfl⟩
      · exact ⟨[row], rfl⟩
      · exact ⟨[row, column], rfl⟩
  rw [steps, List.pairwise_flatMap]
  refine ⟨fun x _ => layerSteps_pairwise x.2 x.1, ?_⟩
  refine (zipIdx_pairwise _).imp fun less s mem t mem' => ?_
  obtain ⟨rest, eq⟩ := place mem
  obtain ⟨rest', eq'⟩ := place mem'
  rw [Step.Before, eq, eq']
  exact .rel less

/-- A step is for another place than the steps before it. -/
theorem place_ne_of_mem {done rest : List Step} {s t : Step} (eq : l.steps = done ++ t :: rest)
    (mem : s ∈ done) : s.place ≠ t.place := by
  intro same
  have ordered := l.steps_pairwise
  rw [eq, List.pairwise_append] at ordered
  have before := ordered.2.2 s mem t List.mem_cons_self
  rw [Step.Before, same] at before
  exact List.lex_irrefl Nat.lt_irrefl _ before

/-- Steps are known by their places. -/
theorem eq_of_place_eq {s t : Step} (mem : s ∈ l.steps) (mem' : t ∈ l.steps)
    (same : s.place = t.place) : s = t := by
  obtain ⟨done, rest, eq⟩ := List.append_of_mem mem
  have mem := mem'
  rw [eq, List.mem_append, List.mem_cons] at mem
  rcases mem with before | here | after
  · exact absurd same.symm (place_ne_of_mem eq before)
  · exact here.symm
  · obtain ⟨done', rest', eq'⟩ := List.append_of_mem after
    have eq : l.steps = (done ++ s :: done') ++ t :: rest' := by
      rw [eq, eq', List.append_assoc, List.cons_append]
    exact absurd same (place_ne_of_mem eq (List.mem_append_right done List.mem_cons_self))

/-! ### What each step can fail with -/

/-- **What is wrong with a step**, whatever was done before it. -/
def fault? (l : Layout) : Step → Option LayoutError
  | .height layer count => if count = gridSize then none else some (.rowCount layer count)
  | .width layer row count => if count = gridSize then none else some (.rowWidth layer row count)
  | .glyph c char =>
    match Glyph.ofChar? char with
    | none => some (.unknownGlyph c char)
    | some (.block _) => none
    | some .circuit => if ∃ p ∈ l.circuits, p.cell = c then none else some (.missingCircuit c)

/-- **The entries left** when some steps are done: those whose glyph was not put down. -/
def left (l : Layout) (done : List Step) : List Placement :=
  l.circuits.filter fun p => .glyph p.cell 'C' ∉ done

theorem Glyph.ofChar?_eq_circuit_iff : Glyph.ofChar? char = some .circuit ↔ char = 'C' := by
  unfold Glyph.ofChar?
  split <;> simp_all

theorem mem_left {done : List Step} {p : Placement} :
    p ∈ l.left done ↔ p ∈ l.circuits ∧ .glyph p.cell 'C' ∉ done := by
  rw [left, List.mem_filter, decide_eq_true_iff]

/-- A step that is no circuit glyph leaves all entries that were left. -/
theorem left_concat_of_ne {done : List Step} {s : Step} (ne : ∀ c, s ≠ .glyph c 'C') :
    l.left (done ++ [s]) = l.left done := by
  refine List.filter_congr fun p _ => ?_
  simp [(ne p.cell).symm]

/-- A circuit glyph leaves the entries for other cells. -/
theorem left_concat_circuit {done : List Step} :
    l.left (done ++ [.glyph c 'C']) = (l.left done).filter fun p => p.cell != c := by
  rw [left, left, List.filter_filter]
  refine List.filter_congr fun p _ => ?_
  by_cases here : p.cell = c <;> simp [here]

section Run

variable {s : Site} {t : Step} {done : List Step}

/-- **A step fails with its fault**, and without one it leaves the entries whose glyph is still to
come. -/
theorem run_outcome (unused : s.unused = l.left done) (fresh : t ∉ done) :
    (∃ e, l.fault? t = some e ∧ l.run s t = .error e) ∨
    (l.fault? t = none ∧ ∃ s', l.run s t = .ok s' ∧ s'.unused = l.left (done ++ [t])) := by
  cases t with
  -- Counting uses no entries.
  | height layer count =>
    rw [fault?, run, left_concat_of_ne fun _ => Step.noConfusion]
    split
    · exact .inr ⟨rfl, s, rfl, unused⟩
    · exact .inl ⟨_, rfl, rfl⟩
  | width layer row count =>
    rw [fault?, run, left_concat_of_ne fun _ => Step.noConfusion]
    split
    · exact .inr ⟨rfl, s, rfl, unused⟩
    · exact .inl ⟨_, rfl, rfl⟩
  | glyph c char =>
    rw [fault?, run, placeGlyph]
    cases glyph : Glyph.ofChar? char with
    -- no glyph at all
    | none => exact .inl ⟨_, rfl, rfl⟩
    | some g =>
      cases g with
      | block b =>
        -- a block uses no entry
        have other : char ≠ 'C' := fun eq => by
          rw [Glyph.ofChar?_eq_circuit_iff.2 eq] at glyph
          cases glyph
        rw [left_concat_of_ne fun d eq => other (Step.glyph.inj eq).2]
        cases b <;> exact .inr ⟨rfl, _, rfl, unused⟩
      | circuit =>
        obtain rfl := Glyph.ofChar?_eq_circuit_iff.1 glyph
        dsimp only
        cases found : s.unused.find? fun p => p.cell == c with
        | none =>
          -- An entry for the cell would be left, as its glyph was not put down before.
          have none : ¬ ∃ p ∈ l.circuits, p.cell = c := by
            rintro ⟨p, mem, rfl⟩
            rw [List.find?_eq_none, unused] at found
            exact found p (mem_left.2 ⟨mem, fresh⟩) (beq_self_eq_true _)
          rw [if_neg none]
          exact .inl ⟨_, rfl, rfl⟩
        | some p =>
          -- the entry that is found is for this cell, and it is used up
          have mem : p ∈ l.circuits ∧ p.cell = c := by
            have mem := List.mem_of_find?_eq_some found
            rw [unused, mem_left] at mem
            exact ⟨mem.1, eq_of_beq (List.find?_some (p := fun p : Placement => p.cell == c) found)⟩
          rw [if_pos ⟨p, mem⟩]
          exact .inr ⟨rfl, _, rfl, by rw [left_concat_circuit, unused]⟩

end Run

/-- **Reading the layers** fails with the first fault, or leaves the entries without a glyph. -/
theorem steps_outcome {s : Site} (unused : s.unused = l.circuits) :
    (∃ e, l.steps.findSome? l.fault? = some e ∧ l.steps.foldlM l.run s = .error e) ∨
    (l.steps.findSome? l.fault? = none ∧
      ∃ s', l.steps.foldlM l.run s = .ok s' ∧ s'.unused = l.left l.steps) := by
  refine foldlM_findSome? (P := fun done (s : Site) => s.unused = l.left done) ?_ ?_
  · rw [unused, left, List.filter_eq_self.2 (by simp)]
  · exact fun done t rest s eq unused =>
      run_outcome unused fun mem => place_ne_of_mem eq mem rfl

end Layout

end TorchLogic
