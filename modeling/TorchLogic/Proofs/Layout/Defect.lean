import TorchLogic.Proofs.Layout.Scan

/-!
# What can be wrong with a layout

A layout is sound (`Layout.Sound`) if it lies within the limits, its circuit entries are for
different cells, every layer has eight rows of eight known glyphs, and the cells with a circuit
glyph are those with an entry. Each way to miss this is a defect with a place (`Layout.Defect`), and
places come one after the other: the corner first, then the entries that repeat a cell, then the
layers, and last the cells whose entry has no glyph.

A layout is read in stages, and the first number of a place is that of the stage. Reading ends at
the first stage with a defect, and within the stage at the first of its defects: entries are
compared with those before them (`Layout.first_duplicate`), the layers are read step by step
(`Layout.first_fault`), and of the entries that are left the one for the least cell is reported
(`Layout.first_stray`). So a layout without a defect has a world, and for others the error is the
first defect (`Layout.world_outcome`). There is no other first defect, as different defects have
different places (`Layout.First.unique`).
-/

namespace TorchLogic.Layout

variable {l : Layout} {c : Cell} {char : Char} {e : LayoutError} {place : List Nat}

/-! ### Sound layouts and defects -/

/-- The glyphs of layouts. -/
def glyphs : List Char := ['.', '+', '#', '*', '^', '>', 'v', '<', 'C']

/-- **Whether nothing is wrong with a layout.** -/
structure Sound (l : Layout) : Prop where
  fits : l.fits = true
  /-- No two entries are for the same cell. -/
  distinct : (l.circuits.map Placement.cell).Nodup
  height : ∀ rows ∈ l.layers, rows.length = 8
  width : ∀ rows ∈ l.layers, ∀ row ∈ rows, row.length = 8
  known : ∀ rows ∈ l.layers, ∀ row ∈ rows, ∀ char ∈ row.toList, char ∈ glyphs
  /-- The cells with a circuit glyph are those with an entry. -/
  matched : ∀ c, l.glyph? c = some 'C' ↔ ∃ p ∈ l.circuits, p.cell = c

/-- **What is wrong with a layout, and at which place.** -/
inductive Defect (l : Layout) : List Nat → LayoutError → Prop
  | corner (out : l.fits = false) : Defect l [0] (.originOutOfRange l.origin)
  /-- An earlier entry is for the same cell. -/
  | duplicate {n : Nat} {p : Placement} (entry : l.circuits[n]? = some p)
      (earlier : p.cell ∈ (l.circuits.take n).map Placement.cell) :
      Defect l [1, n] (.duplicateCircuit p.cell)
  | height {layer : Nat} {rows : List String} (found : l.layers[layer]? = some rows)
      (wrong : rows.length ≠ 8) : Defect l [2, layer] (.rowCount layer rows.length)
  | width {layer row : Nat} {glyphs : String} (found : l.row? layer row = some glyphs)
      (wrong : glyphs.length ≠ 8) : Defect l [2, layer, row] (.rowWidth layer row glyphs.length)
  | unknown {c : Cell} {char : Char} (found : l.glyph? c = some char) (wrong : char ∉ glyphs) :
      Defect l [2, c.layer, c.row, c.column] (.unknownGlyph c char)
  | missing {c : Cell} (found : l.glyph? c = some 'C') (none : ∀ p ∈ l.circuits, p.cell ≠ c) :
      Defect l [2, c.layer, c.row, c.column] (.missingCircuit c)
  | stray {p : Placement} (entry : p ∈ l.circuits) (none : l.glyph? p.cell ≠ some 'C') :
      Defect l [3, p.cell.layer, p.cell.row, p.cell.column] (.strayCircuit p.cell)

/-- **Whether an error is the first defect.** -/
structure First (l : Layout) (place : List Nat) (e : LayoutError) : Prop where
  defect : l.Defect place e
  least : ∀ place' e', List.Lex (· < ·) place' place → ¬ l.Defect place' e'

theorem row?_mem {layer row : Nat} {glyphs : String} (h : l.row? layer row = some glyphs) :
    ∃ rows ∈ l.layers, glyphs ∈ rows := by
  obtain ⟨rows, found, found'⟩ := row?_eq_some_iff.1 h
  exact ⟨rows, List.mem_of_getElem? found, List.mem_of_getElem? found'⟩

theorem exists_row? {rows : List String} {glyphs : String} (mem : rows ∈ l.layers)
    (mem' : glyphs ∈ rows) : ∃ layer row, l.row? layer row = some glyphs := by
  obtain ⟨layer, found⟩ := List.mem_iff_getElem?.1 mem
  obtain ⟨row, found'⟩ := List.mem_iff_getElem?.1 mem'
  exact ⟨layer, row, row?_eq_some_iff.2 ⟨rows, found, found'⟩⟩

/-- Where all cells are different, none is that of an earlier entry. -/
theorem not_mem_take_of_nodup {ps : List Placement} {n : Nat} {p : Placement}
    (nodup : (ps.map Placement.cell).Nodup) (entry : ps[n]? = some p) :
    p.cell ∉ (ps.take n).map Placement.cell := by
  intro earlier
  have nodup : ((ps.take (n + 1)).map Placement.cell).Nodup :=
    nodup.sublist ((List.take_sublist _ _).map _)
  rw [List.take_add_one, entry, List.map_append, List.nodup_append] at nodup
  exact nodup.2.2 _ earlier _ List.mem_cons_self rfl

/-- A sound layout has no defect. -/
theorem Sound.not_defect (sound : l.Sound) : ¬ l.Defect place e := by
  intro defect
  cases defect with
  | corner out => exact absurd sound.fits (Bool.not_eq_true _ ▸ out)
  | duplicate entry earlier => exact not_mem_take_of_nodup sound.distinct entry earlier
  | height found wrong => exact wrong (sound.height _ (List.mem_of_getElem? found))
  | width found wrong =>
    obtain ⟨rows, mem, mem'⟩ := row?_mem found
    exact wrong (sound.width rows mem _ mem')
  | unknown found wrong =>
    obtain ⟨row, found, found'⟩ := glyph?_eq_some_iff.1 found
    obtain ⟨rows, mem, mem'⟩ := row?_mem found
    exact wrong (sound.known rows mem row mem' _ (List.mem_of_getElem? found'))
  | missing found none =>
    obtain ⟨p, mem, eq⟩ := (sound.matched _).1 found
    exact none p mem eq
  | stray entry none => exact none ((sound.matched _).2 ⟨_, entry, rfl⟩)

/-! ### Which entry repeats a cell -/

theorem duplicate?_eq_none {earlier : List Cell} {ps : List Placement}
    (h : duplicate? earlier ps = none) :
    (ps.map Placement.cell).Nodup ∧ ∀ p ∈ ps, p.cell ∉ earlier := by
  induction ps generalizing earlier with
  | nil => exact ⟨List.nodup_nil, fun p mem => absurd mem List.not_mem_nil⟩
  | cons p rest ih =>
    rw [duplicate?] at h
    split at h
    case isTrue => cases h
    case isFalse fresh =>
      obtain ⟨nodup, apart⟩ := ih h
      refine ⟨List.nodup_cons.2 ⟨fun mem => ?_, nodup⟩,
        List.forall_mem_cons.2 ⟨fresh, fun q mem => ?_⟩⟩
      · -- the cell of this entry is among the earlier ones of the rest
        obtain ⟨q, mem, eq⟩ := List.mem_map.1 mem
        exact apart q mem (eq ▸ List.mem_cons_self)
      · exact fun mem' => apart q mem (List.mem_cons_of_mem _ mem')

/-- **The first entry for a cell of an earlier one** is the one that is reported. -/
theorem duplicate?_eq_some {earlier : List Cell} {ps : List Placement}
    (h : duplicate? earlier ps = some c) :
    ∃ n p, ps[n]? = some p ∧ p.cell = c ∧ (c ∈ earlier ∨ c ∈ (ps.take n).map Placement.cell) ∧
      ((ps.take n).map Placement.cell).Nodup ∧ ∀ q ∈ ps.take n, q.cell ∉ earlier := by
  -- The cells of the entries so far are in the list of earlier ones, which grows from entry to
  -- entry.
  induction ps generalizing earlier with
  | nil => cases h
  | cons p rest ih =>
    rw [duplicate?] at h
    split at h
    case isTrue again =>
      cases h
      exact ⟨0, p, rfl, rfl, .inl again, List.nodup_nil, fun q mem => absurd mem List.not_mem_nil⟩
    case isFalse fresh =>
      obtain ⟨n, q, entry, rfl, again, nodup, apart⟩ := ih h
      refine ⟨n + 1, q, entry, rfl, ?_, ?_, ?_⟩
      · rw [List.take_succ_cons, List.map_cons, List.mem_cons]
        rw [List.mem_cons] at again
        tauto
      · refine List.nodup_cons.2 ⟨fun mem => ?_, nodup⟩
        obtain ⟨r, mem, eq⟩ := List.mem_map.1 mem
        exact apart r mem (eq ▸ List.mem_cons_self)
      · exact List.forall_mem_cons.2
          ⟨fresh, fun r mem mem' => apart r mem (List.mem_cons_of_mem _ mem')⟩

/-! ### The least cell -/

theorem firstCell?_eq_none {ps : List Placement} (h : firstCell? ps = none) : ps = [] := by
  cases ps with
  | nil => rfl
  | cons p rest =>
    rw [firstCell?] at h
    split at h
    · cases h
    · split at h <;> cases h

/-- **The least cell of entries** is one that no other comes before. -/
theorem firstCell?_eq_some {ps : List Placement} (h : firstCell? ps = some c) :
    (∃ p ∈ ps, p.cell = c) ∧ ∀ p ∈ ps, p.cell.before c = false := by
  induction ps generalizing c with
  | nil => cases h
  | cons p rest ih =>
    rw [firstCell?] at h
    split at h
    case h_1 none =>
      -- this entry is the last
      cases h
      rw [firstCell?_eq_none none]
      refine ⟨⟨p, List.mem_cons_self, rfl⟩, List.forall_mem_singleton.2 ?_⟩
      exact Cell.before_eq_false_iff.2 (.inr ⟨rfl, .inr ⟨rfl, le_rfl⟩⟩)
    case h_2 d some =>
      -- the least of the rest is before this entry, or it is not
      obtain ⟨⟨q, mem, rfl⟩, least⟩ := ih some
      split at h
      case isTrue before =>
        cases h
        refine ⟨⟨q, List.mem_cons_of_mem p mem, rfl⟩, List.forall_mem_cons.2 ⟨?_, least⟩⟩
        have after : ¬ q.cell.before p.cell = false := by simp [before]
        rw [Cell.before_eq_false_iff] at after ⊢
        omega
      case isFalse before =>
        cases h
        refine ⟨⟨p, List.mem_cons_self, rfl⟩, List.forall_mem_cons.2 ⟨?_, fun r mem => ?_⟩⟩
        · exact Cell.before_eq_false_iff.2 (.inr ⟨rfl, .inr ⟨rfl, le_rfl⟩⟩)
        · have first := least r mem
          rw [Bool.not_eq_true, Cell.before_eq_false_iff] at before
          rw [Cell.before_eq_false_iff] at first ⊢
          omega

/-! ### The first defect -/

theorem Glyph.ofChar?_eq_none_iff : Glyph.ofChar? char = none ↔ char ∉ glyphs := by
  unfold Glyph.ofChar?
  split <;> simp_all [glyphs]

/-- **A defect of the layers is a fault of a step.** -/
theorem defect_layers_iff :
    l.Defect (2 :: place) e ↔ ∃ s ∈ l.steps, s.place = place ∧ l.fault? s = some e := by
  constructor
  · -- each kind of defect in a layer is the fault of one step
    intro defect
    cases defect with
    | height found wrong =>
      exact ⟨_, height_mem_steps.2 ⟨_, found, rfl⟩, rfl, if_neg wrong⟩
    | width found wrong =>
      exact ⟨_, width_mem_steps.2 ⟨_, found, rfl⟩, rfl, if_neg wrong⟩
    | unknown found wrong =>
      refine ⟨_, glyph_mem_steps.2 found, rfl, ?_⟩
      rw [fault?, Glyph.ofChar?_eq_none_iff.2 wrong]
    | missing found none =>
      refine ⟨_, glyph_mem_steps.2 found, rfl, ?_⟩
      rw [fault?, Glyph.ofChar?_eq_circuit_iff.2 rfl]
      refine if_neg ?_
      rintro ⟨p, mem, eq⟩
      exact none p mem eq
  · -- and the fault of a step is a defect
    rintro ⟨s, mem, rfl, fault⟩
    cases s with
    | height layer count =>
      obtain ⟨rows, found, rfl⟩ := height_mem_steps.1 mem
      obtain ⟨wrong, eq⟩ := Option.ite_none_left_eq_some.1 fault
      cases eq
      exact .height found wrong
    | width layer row count =>
      obtain ⟨glyphs, found, rfl⟩ := width_mem_steps.1 mem
      obtain ⟨wrong, eq⟩ := Option.ite_none_left_eq_some.1 fault
      cases eq
      exact .width found wrong
    | glyph c char =>
      have found := glyph_mem_steps.1 mem
      rw [fault?] at fault
      split at fault
      case h_1 none =>
        cases fault
        exact .unknown found (Glyph.ofChar?_eq_none_iff.1 none)
      case h_2 => cases fault
      case h_3 circuit =>
        obtain ⟨none, eq⟩ := Option.ite_none_left_eq_some.1 fault
        cases eq
        obtain rfl := Glyph.ofChar?_eq_circuit_iff.1 circuit
        exact .missing found fun p mem eq => none ⟨p, mem, eq⟩

/-- The stages of reading a layout come one after the other. -/
theorem First.of_stage {n : Nat} (defect : l.Defect (n :: place) e)
    (earlier : ∀ m < n, ∀ place' e', ¬ l.Defect (m :: place') e')
    (least : ∀ place' e', List.Lex (· < ·) place' place → ¬ l.Defect (n :: place') e') :
    l.First (n :: place) e := by
  refine ⟨defect, fun place' e' before => ?_⟩
  cases before with
  | nil =>
    intro defect
    cases defect
  | rel less => exact earlier _ less _ _
  | cons before => exact least _ _ before

theorem not_defect_corner (fits : l.fits = true) : ¬ l.Defect (0 :: place) e := by
  rintro ⟨out⟩
  rw [fits] at out
  cases out

theorem not_defect_circuits (none : duplicate? [] l.circuits = none) :
    ¬ l.Defect (1 :: place) e := by
  rintro ⟨⟩
  case duplicate entry earlier =>
    exact not_mem_take_of_nodup (duplicate?_eq_none none).1 entry earlier

theorem not_defect_layers (none : l.steps.findSome? l.fault? = none) :
    ¬ l.Defect (2 :: place) e := by
  rw [defect_layers_iff]
  rintro ⟨s, mem, -, fault⟩
  rw [List.findSome?_eq_none_iff.1 none s mem] at fault
  cases fault

theorem not_defect_stray (none : l.left l.steps = []) : ¬ l.Defect (3 :: place) e := by
  rintro ⟨⟩
  case stray p entry unmatched =>
    have mem : p ∈ l.left l.steps :=
      mem_left.2 ⟨entry, fun mem => unmatched (glyph_mem_steps.1 mem)⟩
    rw [none] at mem
    cases mem

/-- A layout of which all stages were read has no defect. -/
theorem not_defect (fits : l.fits = true) (none : duplicate? [] l.circuits = none)
    (faultless : l.steps.findSome? l.fault? = Option.none) (matched : l.left l.steps = []) :
    ¬ l.Defect place e := by
  intro defect
  cases place with
  | nil => cases defect
  | cons n place =>
    -- The place of a defect starts with the number of its stage.
    have stage : n = 0 ∨ n = 1 ∨ n = 2 ∨ n = 3 := by
      cases defect <;> simp
    rcases stage with rfl | rfl | rfl | rfl
    · exact not_defect_corner fits defect
    · exact not_defect_circuits none defect
    · exact not_defect_layers faultless defect
    · exact not_defect_stray matched defect

/-- The entry that is reported as a duplicate is the first. -/
theorem first_duplicate (fits : l.fits = true) (some : duplicate? [] l.circuits = some c) :
    ∃ place, l.First place (.duplicateCircuit c) := by
  obtain ⟨n, p, entry, rfl, earlier, nodup, -⟩ := duplicate?_eq_some some
  refine ⟨[1, n], .of_stage (.duplicate entry (earlier.resolve_left List.not_mem_nil)) ?_ ?_⟩
  · -- before the entries only the corner is looked at
    intro m less
    obtain rfl : m = 0 := by omega
    exact fun _ _ => not_defect_corner fits
  · rintro place' e' before ⟨⟩
    case duplicate m q entry earlier =>
      have less : m < n := by
        simpa only [List.cons_lex_cons_iff, List.not_lex_nil, and_false, or_false] using before
      -- Before the duplicate all cells are different.
      refine not_mem_take_of_nodup (n := m) (p := q) nodup ?_ ?_
      · rw [List.getElem?_take_of_lt less, entry]
      · rwa [List.take_take, min_eq_left less.le]

/-- The fault with which reading the layers ends is the first. -/
theorem first_fault (fits : l.fits = true) (none : duplicate? [] l.circuits = none)
    (fault : l.steps.findSome? l.fault? = some e) : ∃ place, l.First place e := by
  obtain ⟨done, s, rest, eq, fault, before⟩ := List.findSome?_eq_some_iff.1 fault
  have mem : s ∈ l.steps := eq ▸ List.mem_append_right done List.mem_cons_self
  refine ⟨2 :: s.place, .of_stage (defect_layers_iff.2 ⟨s, mem, rfl, fault⟩) ?_ ?_⟩
  · -- before the layers the corner and the entries are
    intro m less
    obtain rfl | rfl : m = 0 ∨ m = 1 := by omega
    · exact fun _ _ => not_defect_corner fits
    · exact fun _ _ => not_defect_circuits none
  · intro place' e' less defect
    obtain ⟨t, mem, rfl, fault'⟩ := defect_layers_iff.1 defect
    rw [eq, List.mem_append, List.mem_cons] at mem
    rcases mem with mem | rfl | mem
    · rw [before t mem] at fault'
      cases fault'
    · exact List.lex_irrefl Nat.lt_irrefl _ less
    -- What comes after the first fault is for a later place.
    · have ordered := l.steps_pairwise
      rw [eq, List.pairwise_append, List.pairwise_cons] at ordered
      exact List.lex_irrefl Nat.lt_irrefl _
        (List.lex_trans Nat.lt_trans less (ordered.2.1.1 t mem))

/-- The entry that is reported as having no glyph is for the first cell. -/
theorem first_stray (fits : l.fits = true) (none : duplicate? [] l.circuits = none)
    (faultless : l.steps.findSome? l.fault? = Option.none)
    (some : firstCell? (l.left l.steps) = some c) : ∃ place, l.First place (.strayCircuit c) := by
  obtain ⟨⟨p, mem, rfl⟩, least⟩ := firstCell?_eq_some some
  obtain ⟨entry, unmatched⟩ := mem_left.1 mem
  rw [glyph_mem_steps] at unmatched
  refine ⟨3 :: p.cell.place, .of_stage (.stray entry unmatched) ?_ ?_⟩
  · -- before the entries that are left all else is
    intro m less
    obtain rfl | rfl | rfl : m = 0 ∨ m = 1 ∨ m = 2 := by omega
    · exact fun _ _ => not_defect_corner fits
    · exact fun _ _ => not_defect_circuits none
    · exact fun _ _ => not_defect_layers faultless
  · -- the entry reported has the least cell of those left
    rintro place' e' before ⟨⟩
    case stray q entry unmatched =>
      have first := least q (mem_left.2 ⟨entry, fun mem => unmatched (glyph_mem_steps.1 mem)⟩)
      rw [Cell.before_iff_lex.2 before] at first
      cases first

/-- **A layout has a world if it has no defect**, and else its error is the first one. -/
theorem world_outcome (l : Layout) :
    (∃ e place, l.world = .error e ∧ l.First place e) ∨
    ((∀ place e, ¬ l.Defect place e) ∧ ∃ s,
      l.steps.foldlM l.run ⟨World.empty.layBoard l.origin l.role, l.circuits⟩ = .ok s ∧
      l.world = .ok s.world) := by
  rw [world]
  -- One stage after the other: the corner, the entries, the layers and the entries that are left.
  split
  case isFalse out =>
    refine .inl ⟨_, [0], rfl, .of_stage (.corner (Bool.not_eq_true _ ▸ out)) ?_ ?_⟩
    · exact fun m less => absurd less m.not_lt_zero
    · intro place' e' before
      cases before
  case isTrue fits =>
    split
    case h_1 c some =>
      obtain ⟨place, first⟩ := first_duplicate fits some
      exact .inl ⟨_, place, rfl, first⟩
    case h_2 none =>
      dsimp only
      rw [foldlM_placeLayer]
      rcases steps_outcome (l := l) (s :=
        ⟨World.empty.layBoard l.origin l.role, l.circuits⟩) rfl with
        ⟨e, fault, failed⟩ | ⟨faultless, s, placed, unused⟩
      · obtain ⟨place, first⟩ := first_fault fits none fault
        rw [failed]
        exact .inl ⟨e, place, rfl, first⟩
      · rw [placed, ok_bind, unused]
        cases stray : firstCell? (l.left l.steps) with
        | some c =>
          obtain ⟨place, first⟩ := first_stray fits none faultless stray
          exact .inl ⟨_, place, rfl, first⟩
        | none =>
          have unmatched := firstCell?_eq_none stray
          exact .inr ⟨fun place e => not_defect fits none faultless unmatched, s, rfl, rfl⟩

/-! ### No defect, and no two first defects -/

/-- **A layout is sound if and only if it has no defect.** -/
theorem sound_iff : l.Sound ↔ ∀ place e, ¬ l.Defect place e := by
  refine ⟨fun sound place e => sound.not_defect, fun none => ?_⟩
  -- Each part of being sound is the absence of one kind of defect.
  constructor
  case fits =>
    by_contra out
    exact none _ _ (.corner (Bool.not_eq_true _ ▸ out))
  case distinct =>
    cases duplicate : duplicate? [] l.circuits with
    | none => exact (duplicate?_eq_none duplicate).1
    | some c =>
      obtain ⟨n, p, entry, rfl, earlier, -⟩ := duplicate?_eq_some duplicate
      exact absurd (.duplicate entry (earlier.resolve_left List.not_mem_nil)) (none _ _)
  case height =>
    intro rows mem
    obtain ⟨layer, found⟩ := List.mem_iff_getElem?.1 mem
    by_contra wrong
    exact none _ _ (.height found wrong)
  case width =>
    intro rows mem glyphs mem'
    obtain ⟨layer, row, found⟩ := exists_row? mem mem'
    by_contra wrong
    exact none _ _ (.width found wrong)
  case known =>
    intro rows mem glyphs mem' char mem''
    obtain ⟨layer, row, found⟩ := exists_row? mem mem'
    obtain ⟨column, found'⟩ := List.mem_iff_getElem?.1 mem''
    by_contra wrong
    have glyph : l.glyph? ⟨layer, row, column⟩ = some char :=
      glyph?_eq_some_iff.2 ⟨_, found, found'⟩
    exact none _ _ (.unknown glyph wrong)
  case matched =>
    intro c
    constructor
    · intro found
      by_contra missing
      exact none _ _ (.missing found fun p mem eq => missing ⟨p, mem, eq⟩)
    · rintro ⟨p, mem, rfl⟩
      by_contra unmatched
      exact none _ _ (.stray mem unmatched)

/-- **At each place there is at most one defect.** -/
theorem Defect.unique {e' : LayoutError} (defect : l.Defect place e) (defect' : l.Defect place e') :
    e = e' := by
  -- In the layers there may be different kinds of defects, but a place has one step only.
  have layers {place : List Nat} (defect : l.Defect (2 :: place) e)
      (defect' : l.Defect (2 :: place) e') : e = e' := by
    obtain ⟨s, mem, rfl, fault⟩ := defect_layers_iff.1 defect
    obtain ⟨t, mem', same, fault'⟩ := defect_layers_iff.1 defect'
    rw [eq_of_place_eq mem' mem same, fault] at fault'
    exact Option.some.inj fault'
  cases defect with
  | corner =>
    cases defect'
    rfl
  | duplicate entry =>
    cases defect' with
    | duplicate entry' =>
      rw [entry] at entry'
      rw [Option.some.inj entry']
  | height found wrong => exact layers (.height found wrong) defect'
  | width found wrong => exact layers (.width found wrong) defect'
  | unknown found wrong => exact layers (.unknown found wrong) defect'
  | missing found none => exact layers (.missing found none) defect'
  | @stray p =>
    generalize eq : [3, p.cell.layer, p.cell.row, p.cell.column] = place at defect'
    cases defect' with
    | @stray q => rw [Cell.place_inj.1 (List.cons.inj eq).2]
    | _ => cases eq

/-- **There is one first defect at most.** -/
theorem First.unique {e' : LayoutError} {place' : List Nat} (first : l.First place e)
    (first' : l.First place' e') : e = e' := by
  have same : place = place' := List.le_antisymm
    (fun before => first.least _ _ before first'.defect)
    fun before => first'.least _ _ before first.defect
  subst same
  exact first.defect.unique first'.defect

end TorchLogic.Layout
