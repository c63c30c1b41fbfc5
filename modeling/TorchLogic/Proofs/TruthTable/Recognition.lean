import Mathlib.Data.List.Nodup
import Mathlib.Data.List.Pairwise
import Mathlib.Data.List.Permutation
import TorchLogic.Gate
import TorchLogic.Proofs.TruthTable.Rendering
import TorchLogic.Proofs.TruthTable.Rewire

/-!
# Gates are known however they are wired

A table with its inputs in another order is the same gate, or no gate as before, and no table is two
gates (`TruthTable.gate?_rewired`).

A gate accepts a table if the table has one of its shapes, and the shape of a table does change with
the order of its inputs. So all rests on what the catalogue lists, and three facts about it are
checked entry by entry. Its shapes are shapes that tables have, with columns and rows in ascending
order (`Gate.catalogue_canonical`); hence a table has a shape exactly if it has the columns of the
shape, in any order (`Shape.Canonical.eq_shape_iff`). No shape is listed twice
(`Gate.catalogue_shapes_nodup`). And with each shape an entry lists those that come from it by
listing the inputs in any other order (`Gate.catalogue_rewire`).
-/

namespace TorchLogic

variable {t u : TruthTable} {g g' : Gate} {s : Shape}

/-! ### Shapes as columns -/

/-- The column of which given rows are on. -/
def Column.ofOnRows (rows : List Nat) : Column := ofFn height rows.contains

theorem Column.ofOnRows_onRows (c : Column) : ofOnRows c.onRows = c := by
  refine ext_get fun row => ?_
  rw [ofOnRows, get_ofFn]
  by_cases low : row < height
  · have on_iff : c.onRows.contains row = true ↔ c.get row = true := by
      rw [List.contains_iff_mem, onRows, List.mem_filter, List.mem_range]
      exact ⟨fun on => on.2, fun on => ⟨low, on⟩⟩
    rw [decide_eq_true ⟨low, low⟩, Bool.true_and, Bool.eq_iff_iff, on_iff]
  · rw [get_eq_false_of_le (Nat.le_of_not_lt low), decide_eq_false fun inside => low inside.1,
      Bool.false_and]

namespace Shape

/-- The columns of a shape. -/
def toColumns (s : Shape) : List Column := s.columns.map Column.ofOnRows

/-- **A shape that is written as the shapes of tables are**: the rows of each column and the columns
themselves in ascending order. -/
def Canonical (s : Shape) : Prop :=
  s.toColumns.map Column.onRows = s.columns ∧
    s.toColumns.Pairwise fun a b => (a.compare b).isLE = true

instance (s : Shape) : Decidable s.Canonical := inferInstanceAs (Decidable (_ ∧ _))

theorem toColumns_shape (t : TruthTable) : t.shape.toColumns = t.sortedColumns := by
  have back : Column.ofOnRows ∘ Column.onRows = id := funext Column.ofOnRows_onRows
  rw [toColumns, TruthTable.shape, List.map_map, back, List.map_id]

/-- **A canonical shape is the shape of the tables that have its columns**, in any order. -/
theorem Canonical.eq_shape_iff (h : s.Canonical) :
    s = t.shape ↔ s.inputs = t.inputs.length ∧ t.columns.Perm s.toColumns := by
  constructor
  · rintro rfl
    refine ⟨rfl, ?_⟩
    rw [toColumns_shape]
    exact t.sortedColumns_perm.symm
  · -- there is one way to sort the columns
    rintro ⟨inputs, perm⟩
    have sorted : s.toColumns = t.sortedColumns :=
      Column.eq_of_perm_of_pairwise (t.sortedColumns_perm.trans perm).symm h.2
        t.pairwise_sortedColumns
    rw [TruthTable.shape, ← sorted, h.1, ← inputs]

end Shape

namespace Gate

/-! ### What the catalogue lists -/

/-- A shape that is not canonical would be no table's, so its gate would be missed. -/
theorem catalogue_canonical : ∀ g ∈ catalogue, ∀ s ∈ g.shapes, s.Canonical := by
  decide +kernel

/-- A shape that is listed twice would be claimed twice. -/
theorem catalogue_shapes_nodup : (catalogue.flatMap shapes).Nodup := by
  decide +kernel

/-- **The catalogue is closed under rewiring.** An order of the inputs that leads from a listed
shape to one that is not listed would be an order in which the gate is missed. -/
theorem catalogue_rewire : ∀ g ∈ catalogue, ∀ s ∈ g.shapes,
    ∀ places ∈ (List.range s.inputs).permutations', ∃ s' ∈ g.shapes,
      s'.inputs = s.inputs ∧ (s.toColumns.map (Column.rewire places)).Perm s'.toColumns := by
  decide +kernel

/-- No two entries share a shape. -/
theorem catalogue_disjoint : catalogue.Pairwise fun g g' => g.shapes.Disjoint g'.shapes :=
  (List.nodup_flatMap.1 catalogue_shapes_nodup).2

/-- A shape tells the gate. -/
theorem eq_of_mem_shapes (listed : g ∈ catalogue) (listed' : g' ∈ catalogue) (shape : s ∈ g.shapes)
    (shape' : s ∈ g'.shapes) : g = g' := by
  by_contra other
  have symmetric : Std.Symm fun g g' : Gate => g.shapes.Disjoint g'.shapes :=
    ⟨fun _ _ apart _ mem mem' => apart mem' mem⟩
  exact catalogue_disjoint.forall listed listed' other shape shape'

/-! ### Which tables a gate accepts -/

theorem accepts_iff_shape_mem : g.accepts t = true ↔ t.shape ∈ g.shapes := by
  rw [accepts, hasSignature, signatures, List.contains_iff_mem, List.mem_map]
  constructor
  · rintro ⟨s, shape, eq⟩
    rwa [← Shape.signature_inj.1 eq]
  · intro shape
    exact ⟨t.shape, shape, rfl⟩

/-- **A gate accepts the tables that have the columns of one of its shapes.** -/
theorem accepts_iff (listed : g ∈ catalogue) : g.accepts t = true ↔
    ∃ s ∈ g.shapes, s.inputs = t.inputs.length ∧ t.columns.Perm s.toColumns := by
  rw [accepts_iff_shape_mem]
  constructor
  · intro shape
    have canonical := catalogue_canonical g listed t.shape shape
    exact ⟨t.shape, shape, canonical.eq_shape_iff.1 rfl⟩
  · rintro ⟨s, shape, parts⟩
    have canonical := catalogue_canonical g listed s shape
    rwa [← canonical.eq_shape_iff.2 parts]

/-- **A gate that accepts a table accepts it with its inputs in any other order.** -/
theorem accepts_of_rewired (listed : g ∈ catalogue) (rewired : u.Rewired t)
    (accepted : g.accepts t = true) : g.accepts u = true := by
  obtain ⟨s, shape, inputs, columns⟩ := (accepts_iff listed).1 accepted
  have places : t.inputs.map u.inputs.idxOf ∈ (List.range s.inputs).permutations' := by
    rw [List.mem_permutations', inputs]
    exact rewired.places
  obtain ⟨s', shape', inputs', columns'⟩ := catalogue_rewire g listed s shape _ places
  refine (accepts_iff listed).2 ⟨s', shape', ?_, ?_⟩
  · rw [inputs', inputs, rewired.inputs.length_eq]
  · rw [rewired.columns_eq]
    exact (columns.map _).trans columns'

/-- **No table is two gates.** -/
theorem pairwise_not_accepts (t : TruthTable) :
    catalogue.Pairwise fun g g' => ¬(g.accepts t = true ∧ g'.accepts t = true) := by
  refine catalogue_disjoint.imp fun {g g'} apart both => ?_
  exact apart (accepts_iff_shape_mem.1 both.1) (accepts_iff_shape_mem.1 both.2)

theorem eq_of_accepts (listed : g ∈ catalogue) (listed' : g' ∈ catalogue)
    (accepted : g.accepts t = true) (accepted' : g'.accepts t = true) : g = g' :=
  eq_of_mem_shapes listed listed' (accepts_iff_shape_mem.1 accepted)
    (accepts_iff_shape_mem.1 accepted')

end Gate

/-! ### Recognition -/

/-- A search for the only one of its kind finds it, wherever in the list it stands. -/
theorem find?_eq_some_iff_of_unique {α : Type} {p : α → Bool} {l : List α}
    (unique : ∀ a ∈ l, ∀ b ∈ l, p a = true → p b = true → a = b) {a : α} :
    l.find? p = some a ↔ a ∈ l ∧ p a = true := by
  constructor
  · intro found
    exact ⟨List.mem_of_find?_eq_some found, List.find?_some found⟩
  · -- something passes, and it can only be this one
    rintro ⟨mem, pass⟩
    cases found : l.find? p with
    | none => exact absurd pass (List.find?_eq_none.1 found a mem)
    | some b =>
      have pass' : p b = true := List.find?_some found
      rw [unique b (List.mem_of_find?_eq_some found) a mem pass' pass]

namespace TruthTable

/-- **The gate that is found is the one that accepts the table**, in whatever order the catalogue
is. -/
theorem find?_accepts_eq_some_iff {order : List Gate} (perm : order.Perm Gate.catalogue) :
    order.find? (·.accepts t) = some g ↔ g ∈ Gate.catalogue ∧ g.accepts t = true := by
  have unique : ∀ a ∈ order, ∀ b ∈ order, a.accepts t = true → b.accepts t = true → a = b := by
    intro a mem b mem'
    exact Gate.eq_of_accepts (perm.mem_iff.1 mem) (perm.mem_iff.1 mem')
  rw [find?_eq_some_iff_of_unique unique, perm.mem_iff]

theorem gate?_eq_some_iff : t.gate? = some g ↔ g ∈ Gate.catalogue ∧ g.accepts t = true :=
  find?_accepts_eq_some_iff (.refl _)

/-- **Recognition does not depend on how the inputs are wired.** For each order of the inputs there
is one table that does the same, and this is the same gate, or none as before. A table is one gate
at most, so it does not matter in which order the catalogue is looked through. -/
theorem gate?_rewired (t : TruthTable) :
    (∀ inputs : List Side, inputs.Perm t.inputs →
      ∃! u : TruthTable, u.inputs = inputs ∧ u.Rewired t) ∧
    (∀ u : TruthTable, u.Rewired t → u.gate? = t.gate?) ∧
    (Gate.catalogue.Pairwise fun g g' => ¬(g.accepts t = true ∧ g'.accepts t = true)) ∧
    ∀ order : List Gate, order.Perm Gate.catalogue → order.find? (·.accepts t) = t.gate? := by
  refine ⟨fun inputs perm => ?_, fun u rewired => ?_, Gate.pairwise_not_accepts t,
    fun order perm => ?_⟩
  · -- the order of the inputs leaves one table
    refine ⟨t.rewire inputs perm, ⟨rfl, t.rewired_rewire perm⟩, ?_⟩
    rintro u ⟨rfl, rewired⟩
    exact rewired.eq_rewire
  · -- a gate accepts both tables or neither
    refine Option.ext fun g => ?_
    rw [gate?_eq_some_iff, gate?_eq_some_iff]
    constructor
    · rintro ⟨listed, accepted⟩
      exact ⟨listed, Gate.accepts_of_rewired listed rewired.symm accepted⟩
    · rintro ⟨listed, accepted⟩
      exact ⟨listed, Gate.accepts_of_rewired listed rewired accepted⟩
  · -- at most one gate accepts, so the order of the scan does not matter
    refine Option.ext fun g => ?_
    rw [find?_accepts_eq_some_iff perm, gate?_eq_some_iff]

/-- Implication: off only if the back is on and the left side is not. -/
def implication : TruthTable where
  inputs := [.back, .left]
  outputs := [.front]
  columns := [.ofOnRows [0, 2, 3]]
  sides_nodup := by decide
  columns_length := rfl
  columns_fit := by decide

/-- The entry of the catalogue for implication. -/
def implies : Gate := ⟨"impl", "impl", [⟨2, [[0, 1, 3]]⟩, ⟨2, [[0, 2, 3]]⟩]⟩

/-- With its inputs in the other order, implication has another column and is the same gate. -/
theorem gate?_rewired_implication : [Side.left, .back].Perm implication.inputs ∧
    implies ∈ Gate.catalogue ∧ implies.accepts implication = true ∧
    ∃ u : TruthTable, u.Rewired implication ∧ u.inputs = [.left, .back] ∧
      u.columns = [.ofOnRows [0, 1, 3]] ∧ u.gate? = some implies ∧
      Gate.catalogue.reverse.find? (·.accepts implication) = some implies := by
  have perm : [Side.left, .back].Perm implication.inputs := by decide
  have place : Gate.catalogue[15]? = some implies := rfl
  have listed : implies ∈ Gate.catalogue := List.mem_of_getElem? place
  -- The truth table has the shape that the gate lists.
  have accepted : implies.accepts implication = true := by
    refine (Gate.accepts_iff listed).2 ⟨⟨2, [[0, 2, 3]]⟩, ?_, rfl, .refl _⟩
    exact List.mem_cons_of_mem _ List.mem_cons_self
  have found : implication.gate? = some implies := gate?_eq_some_iff.2 ⟨listed, accepted⟩
  obtain ⟨orders, same, -, search⟩ := gate?_rewired implication
  obtain ⟨u, ⟨inputs, rewired⟩, -⟩ := orders [.left, .back] perm
  have columns : u.columns = [.ofOnRows [0, 1, 3]] := by
    rw [rewired.columns_eq, inputs]
    decide
  refine ⟨perm, listed, accepted, u, rewired, inputs, columns, ?_, ?_⟩
  · rw [same u rewired, found]
  · rw [search _ (List.reverse_perm _), found]

end TruthTable

end TorchLogic
