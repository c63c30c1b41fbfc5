/-!
# Columns

One output column of a truth table: sixteen rows, each on or off, kept as the bits of a 16-bit
word. Row `i` is bit `i`. Rows past the sixteenth read as off and cannot be set.

A column is determined by its rows (`Column.ext_get`), and the lemmas say what each operation does
to them. The length of a column (`Column.bitLength`) is one more than its highest row that is on,
which is the least height that holds everything that is on (`Column.bitLength_le_iff`). A column and
a list of rows are read back from one another where the list is long enough for the column
(`Column.ofRows_toRows`), or the column high enough for the list (`Column.toRows_ofRows`).
-/

namespace TorchLogic

/-- **Sixteen rows of a truth table.** -/
structure Column where
  /-- Row `i` is bit `i`. -/
  bits : BitVec 16
  deriving DecidableEq

namespace Column

/-- The number of rows of a column. -/
def height : Nat := 16

def empty : Column := ⟨0⟩

def get (c : Column) (row : Nat) : Bool := c.bits.getLsbD row

/-- The same column with one row changed; a row past the sixteenth leaves the column as it is. -/
def set (c : Column) (row : Nat) (value : Bool) : Column :=
  if height ≤ row then c
  else if value then ⟨c.bits ||| BitVec.twoPow 16 row⟩
  else ⟨c.bits &&& ~~~ BitVec.twoPow 16 row⟩

/-- The column whose first `rows` rows are given by a function and whose others are off. -/
def ofFn (rows : Nat) (f : Nat → Bool) : Column :=
  (List.range rows).foldl (fun c row => c.set row (f row)) empty

/-- The column that starts with the given rows. -/
def ofRows (rows : List Bool) : Column := ofFn rows.length (rows.getD · false)

/-- The first `count` rows. -/
def toRows (c : Column) (count : Nat) : List Bool := (List.range count).map c.get

/-- The rows that are on, ascending. -/
def onRows (c : Column) : List Nat := (List.range height).filter c.get

def ones (c : Column) : Nat := (List.range height).countP c.get

/-- One more than the highest row that is on, or zero if none is. -/
def bitLength (c : Column) : Nat :=
  if c.bits.toNat = 0 then 0 else c.bits.toNat.log2 + 1

/-- Columns are ordered as numbers, so the highest row in which two differ decides. -/
def compare (a b : Column) : Ordering := Ord.compare a.bits.toNat b.bits.toNat

/-- A set of rows in braces. -/
def renderRows (rows : List Nat) : String :=
  "\x7b" ++ ", ".intercalate (rows.map toString) ++ "\x7d"

/-- The rows that are on, in braces. -/
def render (c : Column) : String := renderRows c.onRows

/-! ### Rows after each operation -/

theorem ext_get {a b : Column} (h : ∀ row, a.get row = b.get row) : a = b := by
  cases a; cases b
  simp only [mk.injEq]
  exact BitVec.eq_of_getLsbD_eq fun i _ => h i

theorem get_eq_false_of_le {c : Column} {row : Nat} (h : height ≤ row) : c.get row = false :=
  BitVec.getLsbD_of_ge c.bits row h

@[simp] theorem get_empty (row : Nat) : empty.get row = false := by simp [empty, get]

theorem get_set (c : Column) (row other : Nat) (value : Bool) :
    (c.set row value).get other =
      if row = other ∧ row < height then value else c.get other := by
  by_cases high : height ≤ row
  · simp [set, high, Nat.not_lt.2 high]
  · have low : row < 16 := Nat.lt_of_not_le high
    by_cases eq : row = other
    · subst eq
      cases value <;> simp [set, get, height, low, Nat.not_le.2 low]
    · have ne : ¬ other = row := fun h => eq h.symm
      by_cases lt : other < 16
      · cases value <;> simp [set, get, high, lt, eq, ne]
      · have out (d : Column) : d.get other = false := get_eq_false_of_le (Nat.le_of_not_lt lt)
        simp [out, eq]

theorem get_ofFn (rows : Nat) (f : Nat → Bool) (row : Nat) :
    (ofFn rows f).get row = (decide (row < rows ∧ row < height) && f row) := by
  induction rows with
  | zero => simp [ofFn]
  | succ n ih =>
    simp only [ofFn] at ih
    simp only [ofFn, List.range_succ, List.foldl_append, List.foldl_cons, List.foldl_nil, get_set,
      ih]
    by_cases eq : n = row
    · subst eq
      by_cases lt : n < height <;> simp [lt]
    · have : row < n + 1 ↔ row < n := by omega
      simp [eq, this]

theorem get_ofRows (rows : List Bool) (row : Nat) :
    (ofRows rows).get row = (decide (row < height) && rows.getD row false) := by
  rw [ofRows, get_ofFn]
  by_cases lt : row < rows.length
  · simp [lt]
  · simp [lt]

theorem bitLength_le_iff (c : Column) (rows : Nat) :
    c.bitLength ≤ rows ↔ ∀ row, rows ≤ row → c.get row = false := by
  have get_eq (row : Nat) : c.get row = c.bits.toNat.testBit row := by
    simp [get, BitVec.testBit_toNat]
  simp only [get_eq, bitLength]
  generalize c.bits.toNat = n
  have below : n < 2 ^ rows ↔ ∀ row, rows ≤ row → n.testBit row = false := by
    refine ⟨?_, ?_⟩
    · intro lt row le
      exact Nat.testBit_lt_two_pow (Nat.lt_of_lt_of_le lt (Nat.pow_le_pow_right (by decide) le))
    · intro h
      refine Nat.lt_pow_two_of_testBit n fun row le => ?_
      exact h row le
  split
  case isTrue zero =>
    simp [zero]
  case isFalse pos =>
    rw [← below, Nat.succ_le_iff, Nat.log2_lt pos]

/-! ### Columns and lists of rows -/

theorem bitLength_ofFn_le (rows : Nat) (f : Nat → Bool) : (ofFn rows f).bitLength ≤ rows := by
  rw [bitLength_le_iff]
  intro row past
  rw [get_ofFn, decide_eq_false fun inside => Nat.not_lt.2 past inside.1, Bool.false_and]

theorem bitLength_ofRows_le (rows : List Bool) : (ofRows rows).bitLength ≤ rows.length :=
  bitLength_ofFn_le rows.length _

@[simp] theorem length_toRows (c : Column) (count : Nat) : (c.toRows count).length = count := by
  rw [toRows, List.length_map, List.length_range]

/-- **A column is read back from its rows**, if it does not reach past them. -/
theorem ofRows_toRows {c : Column} {count : Nat} (fits : c.bitLength ≤ count) :
    ofRows (c.toRows count) = c := by
  refine ext_get fun row => ?_
  rw [get_ofRows, toRows, List.getD_eq_getElem?_getD, List.getElem?_map]
  by_cases inside : row < count
  · rw [List.getElem?_range inside, Option.map_some, Option.getD_some]
    by_cases low : row < height
    · rw [decide_eq_true low, Bool.true_and]
    · rw [get_eq_false_of_le (Nat.le_of_not_lt low), Bool.and_false]
  -- A row that is not in the list is off in the column.
  · have past : count ≤ row := Nat.le_of_not_lt inside
    rw [List.getElem?_eq_none (by rwa [List.length_range]), Option.map_none, Option.getD_none,
      Bool.and_false, (bitLength_le_iff c count).1 fits row past]

/-- **Rows are read back from their column**, if it has room for them. -/
theorem toRows_ofRows {rows : List Bool} (room : rows.length ≤ height) :
    (ofRows rows).toRows rows.length = rows := by
  refine List.ext_getElem (length_toRows _ _) fun row _ inside => ?_
  have low : row < height := Nat.lt_of_lt_of_le inside room
  simp only [toRows, List.getElem_map, List.getElem_range]
  rw [get_ofRows, decide_eq_true low, Bool.true_and, List.getD_eq_getElem?_getD,
    List.getElem?_eq_getElem inside, Option.getD_some]

/-- No more rows are on than there are. -/
theorem ones_le {c : Column} {rows : Nat} (fits : c.bitLength ≤ rows) : c.ones ≤ rows := by
  have inside : c.onRows ⊆ List.range rows := by
    intro row on
    have state : c.get row = true := (List.mem_filter.1 on).2
    refine List.mem_range.2 (Nat.lt_of_not_le fun past => ?_)
    rw [(bitLength_le_iff c rows).1 fits row past] at state
    cases state
  have distinct : c.onRows.Nodup := List.nodup_range.filter _
  have count : c.onRows.length ≤ (List.range rows).length := distinct.length_le_of_subset inside
  rwa [List.length_range, onRows, ← List.countP_eq_length_filter] at count

end Column

end TorchLogic
