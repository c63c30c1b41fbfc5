import TorchLogic.Column
import TorchLogic.Signals
import TorchLogic.Socket

/-!
# Truth tables

A truth table has a list of input sides, a list of output sides, and one column per output. Its
rows are the assignments of the inputs: row `i` is the assignment in which input `j` is on exactly
when bit `j` of `i` is set, so a table with `n` inputs has `2 ^ n` rows.

The type `TruthTable` carries what makes a table sensible: no side is listed twice, there is one
column per output, and no column reaches past the last row. `TruthTable.ofColumns` decides
this and reports the first defect; `sideFault?_eq_none_iff` says that the check on sides is exact.
-/

namespace TorchLogic

/-- **Why three lists make no truth table.** -/
inductive TableError
  /-- A side is listed twice among the inputs, or twice among the outputs. -/
  | duplicateSide (side : Side)
  /-- A side is listed as an input and as an output. -/
  | overlappingSide (side : Side)
  /-- More sides are listed than there are. -/
  | tooManySides (count : Nat)
  /-- The number of columns is not the number of outputs. -/
  | columnCount (expected actual : Nat)
  /-- A column does not have one row per assignment. -/
  | columnWidth (index expected actual : Nat)
  deriving DecidableEq

def TableError.message : TableError → String
  | .duplicateSide side => "duplicate side: " ++ side.name
  | .overlappingSide side => "side " ++ side.name ++ " is both an input and an output"
  | .tooManySides count =>
    "table declares " ++ toString count ++ " sides, at most 4 are available"
  | .columnCount expected actual =>
    "expected " ++ toString expected ++ " mappings (one per output), got " ++ toString actual
  | .columnWidth index expected actual =>
    "mapping " ++ toString index ++ " has " ++ toString actual ++ " rows, expected "
      ++ toString expected

/-- The number of assignments of a number of inputs: two to its power. -/
def assignmentCount (inputs : Nat) : Nat := Nat.pow 2 inputs

/-- **A truth table** of a combinational circuit. -/
structure TruthTable where
  /-- The input sides; input `j` is bit `j` of a row number. -/
  inputs : List Side
  outputs : List Side
  /-- One column per output, in the order of `outputs`. -/
  columns : List Column
  sides_nodup : (inputs ++ outputs).Nodup
  columns_length : columns.length = outputs.length
  /-- No column reaches past the last row. -/
  columns_fit : ∀ c ∈ columns, c.bitLength ≤ assignmentCount inputs.length
  deriving DecidableEq

namespace TruthTable

theorem inputs_nodup (t : TruthTable) : t.inputs.Nodup := (List.nodup_append.1 t.sides_nodup).1

theorem outputs_nodup (t : TruthTable) : t.outputs.Nodup := (List.nodup_append.1 t.sides_nodup).2.1

/-- No side is an input and an output. -/
theorem not_mem_outputs (t : TruthTable) {side : Side} (input : side ∈ t.inputs) :
    side ∉ t.outputs :=
  fun output => (List.nodup_append.1 t.sides_nodup).2.2 side input side output rfl

theorem not_mem_inputs (t : TruthTable) {side : Side} (output : side ∈ t.outputs) :
    side ∉ t.inputs :=
  fun input => t.not_mem_outputs input output

/-- A list without repetition has a side in one place. -/
theorem place_unique {sides : List Side} (nodup : sides.Nodup) {i j : Nat} {side : Side}
    (hi : sides[i]? = some side) (hj : sides[j]? = some side) : i = j :=
  (List.getElem?_inj (List.getElem?_eq_some_iff.1 hi).1 nodup).1 (hi.trans hj.symm)

/-! ### Building a table -/

/-- The first side that a list repeats. -/
def firstRepeat? (earlier : List Side) : List Side → Option Side
  | [] => none
  | side :: rest => if side ∈ earlier then some side else firstRepeat? (side :: earlier) rest

/-- The first output that repeats an earlier output or is an input. -/
def outputFault? (inputs earlier : List Side) : List Side → Option TableError
  | [] => none
  | side :: rest =>
    if side ∈ earlier then some (.duplicateSide side)
    else if side ∈ inputs then some (.overlappingSide side)
    else outputFault? inputs (side :: earlier) rest

/-- **The first defect of two lists of sides**: too many of them, then a repeated input, then an
output that is repeated or is an input. -/
def sideFault? (inputs outputs : List Side) : Option TableError :=
  if 4 < inputs.length + outputs.length then some (.tooManySides (inputs.length + outputs.length))
  else match firstRepeat? [] inputs with
    | some side => some (.duplicateSide side)
    | none => outputFault? inputs [] outputs

/-- The first column, counted from `index`, that is longer than `rows`. -/
def widthFault? (rows index : Nat) : List Column → Option TableError
  | [] => none
  | c :: rest =>
    if rows < c.bitLength then some (.columnWidth index rows c.bitLength)
    else widthFault? rows (index + 1) rest

theorem firstRepeat?_eq_none_iff {earlier sides : List Side} :
    firstRepeat? earlier sides = none ↔ sides.Nodup ∧ ∀ s ∈ sides, s ∉ earlier := by
  induction sides generalizing earlier with
  | nil => simp [firstRepeat?]
  | cons side rest ih =>
    simp only [firstRepeat?]
    split
    case isTrue mem =>
      simp [mem]
    case isFalse notMem =>
      rw [ih]
      simp only [List.nodup_cons, List.mem_cons, not_or, forall_eq_or_imp]
      refine ⟨?_, ?_⟩
      · rintro ⟨nodup, apart⟩
        exact ⟨⟨fun mem => (apart _ mem).1 rfl, nodup⟩, notMem, fun s mem => (apart s mem).2⟩
      · rintro ⟨⟨fresh, nodup⟩, _, apart⟩
        exact ⟨nodup, fun s mem => ⟨fun eq => fresh (eq ▸ mem), apart s mem⟩⟩

theorem outputFault?_eq_none_iff {inputs earlier outputs : List Side} :
    outputFault? inputs earlier outputs = none ↔
      outputs.Nodup ∧ ∀ s ∈ outputs, s ∉ earlier ∧ s ∉ inputs := by
  induction outputs generalizing earlier with
  | nil => simp [outputFault?]
  | cons side rest ih =>
    simp only [outputFault?]
    split
    case isTrue mem =>
      simp [mem]
    case isFalse notMem =>
      split
      case isTrue mem =>
        simp [mem]
      case isFalse notInput =>
        rw [ih]
        simp only [List.nodup_cons, List.mem_cons, not_or, forall_eq_or_imp]
        refine ⟨?_, ?_⟩
        · rintro ⟨nodup, apart⟩
          exact ⟨⟨fun mem => (apart _ mem).1.1 rfl, nodup⟩, ⟨notMem, notInput⟩,
            fun s mem => ⟨(apart s mem).1.2, (apart s mem).2⟩⟩
        · rintro ⟨⟨fresh, nodup⟩, _, apart⟩
          exact ⟨nodup, fun s mem =>
            ⟨⟨fun eq => fresh (eq ▸ mem), (apart s mem).1⟩, (apart s mem).2⟩⟩

/-- A list of distinct sides has at most four. -/
theorem length_le_of_nodup {sides : List Side} (h : sides.Nodup) : sides.length ≤ 4 :=
  (h.length_le_of_subset fun s _ => Side.mem_all s : sides.length ≤ Side.all.length)

/-- **The check on sides is exact**: it passes exactly the lists that repeat no side. -/
theorem sideFault?_eq_none_iff {inputs outputs : List Side} :
    sideFault? inputs outputs = none ↔ (inputs ++ outputs).Nodup := by
  have split_nodup : (inputs ++ outputs).Nodup ↔
      firstRepeat? [] inputs = none ∧ outputFault? inputs [] outputs = none := by
    rw [firstRepeat?_eq_none_iff, outputFault?_eq_none_iff, List.nodup_append]
    refine ⟨?_, ?_⟩
    · rintro ⟨ins, outs, apart⟩
      exact ⟨⟨ins, by simp⟩, outs, fun s mem => ⟨by simp, fun h => apart s h s mem rfl⟩⟩
    · rintro ⟨⟨ins, _⟩, outs, apart⟩
      exact ⟨ins, outs, fun a ha b hb eq => (apart b hb).2 (eq ▸ ha)⟩
  simp only [sideFault?]
  split
  case isTrue many =>
    refine ⟨nofun, fun nodup => ?_⟩
    have := length_le_of_nodup nodup
    rw [List.length_append] at this
    omega
  case isFalse =>
    rw [split_nodup]
    cases firstRepeat? [] inputs <;> simp

theorem widthFault?_eq_none_iff {rows index : Nat} {columns : List Column} :
    widthFault? rows index columns = none ↔ ∀ c ∈ columns, c.bitLength ≤ rows := by
  induction columns generalizing index with
  | nil => simp [widthFault?]
  | cons c rest ih =>
    simp only [widthFault?]
    split
    case isTrue long =>
      simp [Nat.not_le_of_lt long]
    case isFalse fits =>
      simp [ih, Nat.le_of_not_lt fits]

/-- **The table with the given sides and columns**, or the first thing wrong with them: the sides,
then the number of columns, then their lengths. -/
def ofColumns (inputs outputs : List Side) (columns : List Column) :
    Except TableError TruthTable :=
  match sides : sideFault? inputs outputs with
  | some fault => .error fault
  | none =>
    if count : columns.length = outputs.length then
      match widths : widthFault? (assignmentCount inputs.length) 0 columns with
      | some fault => .error fault
      | none =>
        .ok ⟨inputs, outputs, columns, sideFault?_eq_none_iff.1 sides, count,
          widthFault?_eq_none_iff.1 widths⟩
    else .error (.columnCount outputs.length columns.length)

/-- The table of a blank circuit: no inputs and no outputs. -/
def empty : TruthTable := ⟨[], [], [], by simp, rfl, by simp⟩

/-- The states of `count` inputs in a row: input `j` is bit `j`. -/
def assignment (count row : Nat) : List Bool := (List.range count).map row.testBit

/-- The column of a function of `count` inputs. -/
def tabulate (count : Nat) (f : List Bool → Bool) : Column :=
  Column.ofFn (assignmentCount count) fun row => f (assignment count row)

/-- **The table of a list of functions**, one per output, each of the input states in the order of
`inputs`. The sides are checked before anything is tabulated. -/
def ofFunctions (inputs outputs : List Side) (functions : List (List Bool → Bool)) :
    Except TableError TruthTable :=
  match sideFault? inputs outputs with
  | some fault => .error fault
  | none => ofColumns inputs outputs (functions.map (tabulate inputs.length))

/-- The table of one function. -/
def ofFunction (inputs : List Side) (output : Side) (f : List Bool → Bool) :
    Except TableError TruthTable :=
  ofFunctions inputs [output] [f]

/-! ### Reading a table -/

def rowCount (t : TruthTable) : Nat := assignmentCount t.inputs.length

/-- The number whose bit `j` is the state of the `j`-th listed side. -/
def rowOf (signals : Signals) : List Side → Nat
  | [] => 0
  | side :: rest => (signals.get side).toNat + 2 * rowOf signals rest

/-- The row that signals select. -/
def row (t : TruthTable) (signals : Signals) : Nat := rowOf signals t.inputs

/-- The output states of a row, in the order of `outputs`. -/
def outputsAt (t : TruthTable) (row : Nat) : List Bool := t.columns.map (·.get row)

/-- **What the table computes**: the states of the output sides for given states of the input
sides. Every side that is not an output is off. -/
def apply (t : TruthTable) (signals : Signals) : Signals :=
  Signals.ofEntries (t.outputs.zip (t.outputsAt (t.row signals)))

def hasInput (t : TruthTable) (side : Side) : Bool := t.inputs.contains side

def hasOutput (t : TruthTable) (side : Side) : Bool := t.outputs.contains side

def uses (t : TruthTable) (side : Side) : Bool := t.hasInput side || t.hasOutput side

def roleOf (t : TruthTable) (side : Side) : SocketRole :=
  if t.hasInput side then .input else if t.hasOutput side then .output else .empty

end TruthTable

end TorchLogic
