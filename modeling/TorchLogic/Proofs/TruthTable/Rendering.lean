import Mathlib.Data.List.Basic
import Mathlib.Data.List.Perm.Basic
import Std.Data.String.ToNat
import TorchLogic.Proofs.TruthTable.Signature

/-!
# Signatures tell tables apart

A signature forgets the sides of a table and the order of its outputs, and nothing else: two tables
have the same signature exactly if they have as many inputs, as many outputs, and the same columns,
each as often (`TruthTable.signature_eq_iff`).

That a signature forgets no more is a matter of reading it back. Commas stand between the rows of a
column and between the columns, and a row may have two digits, so a signature is not read by cutting
it at a mark. It is read from the left: a text of a kind is *delimited* if it shows where it ends,
whatever admissible text follows (`Delimited`). A number is, if no digit follows
(`delimited_digits`), and a column in braces always is (`delimited_renderRows`). A list of delimited
texts with a separator between them is read text by text (`Delimited.intercalate_inj`).
-/

namespace TorchLogic

/-! ### Texts that show where they end -/

section Delimited

variable {α : Type} {text : α → List Char} {follows : List Char → Prop} {sep : List Char}

/-- **Texts that show where they end**, if what follows them is admissible. -/
def Delimited (text : α → List Char) (follows : List Char → Prop) : Prop :=
  ∀ {a b : α} {r s : List Char}, follows r → follows s → text a ++ r = text b ++ s → a = b ∧ r = s

/-- A list of texts with a separator between them is the first text, and the others with a separator
before each. -/
theorem intercalate_map_cons (a : α) (rest : List α) : sep.intercalate ((a :: rest).map text) =
    text a ++ rest.flatMap fun b => sep ++ text b := by
  induction rest generalizing a with
  | nil => simp
  | cons b rest ih =>
    calc sep.intercalate ((a :: b :: rest).map text)
        = text a ++ (sep ++ sep.intercalate ((b :: rest).map text)) := by
          simp only [List.map_cons, List.intercalate_cons_cons, List.append_assoc]
      _ = text a ++ (sep ++ (text b ++ rest.flatMap fun b => sep ++ text b)) := by rw [ih b]
      _ = text a ++ (b :: rest).flatMap fun b => sep ++ text b := by
          rw [List.flatMap_cons, List.append_assoc]

/-- Texts with a separator before each of them make nothing, or begin with a separator. -/
theorem follows_flatMap (ended : follows []) (separated : ∀ r, follows (sep ++ r)) (l : List α) :
    follows (l.flatMap fun a => sep ++ text a) := by
  cases l with
  | nil => exact ended
  | cons a rest =>
    rw [List.flatMap_cons, List.append_assoc]
    exact separated _

namespace Delimited

variable (h : Delimited text follows)

include h

/-- Texts that each have a separator before them are read one by one. -/
theorem flatMap_inj (proper : sep ≠ []) (ended : follows []) (separated : ∀ r, follows (sep ++ r))
    {l l' : List α}
    (eq : l.flatMap (fun a => sep ++ text a) = l'.flatMap fun a => sep ++ text a) : l = l' := by
  induction l generalizing l' with
  | nil =>
    -- each item starts with the separator, so an empty text has none
    cases l' with
    | nil => rfl
    | cons b rest' => simp [proper] at eq
  | cons a rest ih =>
    cases l' with
    | nil => simp [proper] at eq
    | cons b rest' =>
      rw [List.flatMap_cons, List.flatMap_cons, List.append_assoc, List.append_assoc] at eq
      -- The first item ends where the next separator starts, or the text does.
      obtain ⟨rfl, left⟩ := h (follows_flatMap ended separated rest)
        (follows_flatMap ended separated rest') (List.append_cancel_left eq)
      rw [ih left]

/-- **A list of texts with a separator between them is read back.** -/
theorem intercalate_inj (proper : sep ≠ []) (nonempty : ∀ a, text a ≠ []) (ended : follows [])
    (separated : ∀ r, follows (sep ++ r)) {l l' : List α}
    (eq : sep.intercalate (l.map text) = sep.intercalate (l'.map text)) : l = l' := by
  cases l with
  | nil =>
    -- no items leave no text
    cases l' with
    | nil => rfl
    | cons b rest' =>
      rw [intercalate_map_cons] at eq
      exact absurd (List.append_eq_nil_iff.1 eq.symm).1 (nonempty b)
  | cons a rest =>
    cases l' with
    | nil =>
      rw [intercalate_map_cons] at eq
      exact absurd (List.append_eq_nil_iff.1 eq).1 (nonempty a)
    | cons b rest' =>
      rw [intercalate_map_cons, intercalate_map_cons] at eq
      obtain ⟨rfl, left⟩ := h (follows_flatMap ended separated rest)
        (follows_flatMap ended separated rest') eq
      rw [h.flatMap_inj proper ended separated left]

end Delimited

/-- A text whose characters all pass a test ends before the first one that does not. -/
theorem append_inj_of_test {p : Char → Bool} {a b r s : List Char} (ha : ∀ c ∈ a, p c = true)
    (hb : ∀ c ∈ b, p c = true) (hr : r.takeWhile p = []) (hs : s.takeWhile p = [])
    (eq : a ++ r = b ++ s) : a = b ∧ r = s := by
  have same : a = b :=
    calc a = (a ++ r).takeWhile p := by
          rw [List.takeWhile_append_of_pos ha, hr, List.append_nil]
      _ = (b ++ s).takeWhile p := by rw [eq]
      _ = b := by rw [List.takeWhile_append_of_pos hb, hs, List.append_nil]
  rw [same] at eq
  exact ⟨same, List.append_cancel_left eq⟩

end Delimited

/-! ### Numbers and columns -/

/-- Whether no digit stands first. -/
def StartsNoDigit (r : List Char) : Prop := r.takeWhile Char.isDigit = []

theorem startsNoDigit_cons {c : Char} (other : c.isDigit = false) (r : List Char) :
    StartsNoDigit (c :: r) := by
  rw [StartsNoDigit, List.takeWhile_cons, other]
  rfl

theorem isDigit_of_mem_toString {n : Nat} {c : Char} (mem : c ∈ (toString n).toList) :
    c.isDigit = true := by
  rw [Nat.toString_eq_repr, Nat.toList_repr] at mem
  exact Nat.isDigit_of_mem_toDigits (by decide) (by decide) mem

theorem toList_toString_ne_nil (n : Nat) : (toString n).toList ≠ [] := by
  rw [Nat.toString_eq_repr, Nat.toList_repr]
  exact Nat.toDigits_ne_nil

/-- **A number shows where it ends**, if no digit follows. -/
theorem delimited_digits : Delimited (fun n : Nat => (toString n).toList) StartsNoDigit := by
  intro n m r s hr hs eq
  obtain ⟨same, rest⟩ := append_inj_of_test (fun _ => isDigit_of_mem_toString)
    (fun _ => isDigit_of_mem_toString) hr hs eq
  exact ⟨Nat.repr_inj.1 (String.toList_inj.1 same), rest⟩

namespace Column

/-- The rows in a column's text, without the braces. -/
def rowsText (rows : List Nat) : List Char :=
  [',', ' '].intercalate (rows.map fun n => (toString n).toList)

theorem toList_renderRows (rows : List Nat) :
    (renderRows rows).toList = '\x7b' :: (rowsText rows ++ ['\x7d']) := by
  simp [renderRows, rowsText, String.toList_append, String.toList_intercalate, Function.comp_def]

theorem rowsText_inj {rows rows' : List Nat} (eq : rowsText rows = rowsText rows') : rows = rows' :=
  delimited_digits.intercalate_inj (by decide) toList_toString_ne_nil rfl
    (fun _ => startsNoDigit_cons rfl _) eq

/-- The rows of a column are written with digits, commas and blanks. -/
theorem brace_not_mem_rowsText (rows : List Nat) : '\x7d' ∉ rowsText rows := by
  intro mem
  induction rows with
  | nil => simp [rowsText] at mem
  | cons n rest ih =>
    -- A number has digits only.
    have number : '\x7d' ∉ (toString n).toList := fun mem =>
      absurd (isDigit_of_mem_toString mem) (by decide)
    cases rest with
    | nil => exact number (by simpa [rowsText] using mem)
    | cons m rest =>
      have parts : rowsText (n :: m :: rest) =
          (toString n).toList ++ [',', ' '] ++ rowsText (m :: rest) := by
        simp only [rowsText, List.map_cons, List.intercalate_cons_cons]
      rw [parts, List.mem_append, List.mem_append] at mem
      rcases mem with (mem | mem) | mem
      · exact number mem
      · exact absurd mem (by decide)
      · exact ih mem

/-- **A column in braces shows where it ends**, whatever follows. -/
theorem delimited_renderRows : Delimited (fun rows => (renderRows rows).toList) fun _ => True := by
  intro rows rows' r s _ _ eq
  change (renderRows rows).toList ++ r = (renderRows rows').toList ++ s at eq
  rw [toList_renderRows, toList_renderRows, List.cons_append, List.cons_append, List.cons.injEq,
    List.append_assoc, List.append_assoc] at eq
  -- The closing brace is the first character that is not of the rows.
  have inside (rows : List Nat) (c : Char) (mem : c ∈ rowsText rows) : (c != '\x7d') = true :=
    bne_iff_ne.2 fun brace => brace_not_mem_rowsText rows (brace ▸ mem)
  obtain ⟨same, rest⟩ := append_inj_of_test (inside rows) (inside rows') rfl rfl eq.2
  exact ⟨rowsText_inj same, (List.cons.inj rest).2⟩

/-- A column is told by its rows that are on. -/
theorem onRows_inj {c d : Column} (eq : c.onRows = d.onRows) : c = d := by
  refine ext_get fun row => ?_
  have on_iff (e : Column) : row ∈ e.onRows ↔ row < height ∧ e.get row = true := by
    rw [onRows, List.mem_filter, List.mem_range]
  by_cases low : row < height
  · have same := (on_iff c).symm.trans ((iff_of_eq (congrArg (row ∈ ·) eq)).trans (on_iff d))
    rw [Bool.eq_iff_iff]
    exact ⟨fun on => (same.1 ⟨low, on⟩).2, fun on => (same.2 ⟨low, on⟩).2⟩
  · rw [get_eq_false_of_le (Nat.le_of_not_lt low), get_eq_false_of_le (Nat.le_of_not_lt low)]

end Column

/-! ### Signatures -/

theorem Shape.toList_signature (s : Shape) : s.signature.toList =
    (toString s.inputs).toList ++ '-' :: '>' :: ((toString s.columns.length).toList ++
      ';' :: [','].intercalate (s.columns.map fun rows => (Column.renderRows rows).toList)) := by
  simp [signature, String.toList_append, String.toList_intercalate, Function.comp_def]

/-- **A shape is read back from its signature.** -/
theorem Shape.signature_inj {s s' : Shape} : s.signature = s'.signature ↔ s = s' := by
  refine ⟨fun eq => ?_, congrArg signature⟩
  have chars := congrArg String.toList eq
  rw [toList_signature, toList_signature] at chars
  -- The number of inputs ends at the arrow, and the number of columns at the semicolon.
  obtain ⟨inputs, chars⟩ := delimited_digits (startsNoDigit_cons rfl _)
    (startsNoDigit_cons rfl _) chars
  simp only [List.cons.injEq, true_and] at chars
  obtain ⟨-, chars⟩ := delimited_digits (startsNoDigit_cons rfl _) (startsNoDigit_cons rfl _) chars
  have nonempty (rows : List Nat) : (Column.renderRows rows).toList ≠ [] := by
    rw [Column.toList_renderRows]
    exact List.cons_ne_nil _ _
  have columns : s.columns = s'.columns :=
    Column.delimited_renderRows.intercalate_inj (List.cons_ne_nil _ _) nonempty trivial
      (fun _ => trivial) (List.cons.inj chars).2
  cases s
  cases s'
  cases inputs
  cases columns
  rfl

namespace TruthTable

/-- **A signature is faithful.** Two tables have the same one exactly if they have as many inputs,
as many outputs, and the same columns, each as often; what the sides are called and how the outputs
are ordered does not show. -/
theorem signature_eq_iff (t u : TruthTable) : t.signature = u.signature ↔
    t.inputs.length = u.inputs.length ∧ t.outputs.length = u.outputs.length ∧
      t.columns.Perm u.columns := by
  constructor
  · -- equal texts are of equal shapes, whose columns are sorted
    intro eq
    have shapes : t.shape = u.shape := Shape.signature_inj.1 eq
    obtain ⟨inputs, rows⟩ := Shape.mk.inj shapes
    have sorted : t.sortedColumns = u.sortedColumns :=
      List.map_injective_iff.2 (fun _ _ => Column.onRows_inj) rows
    have perm : t.columns.Perm u.columns :=
      calc t.columns.Perm t.sortedColumns := (List.mergeSort_perm _ _).symm
        _ = u.sortedColumns := sorted
        List.Perm _ u.columns := List.mergeSort_perm _ _
    refine ⟨inputs, ?_, perm⟩
    rw [← t.columns_length, ← u.columns_length, perm.length_eq]
  · rintro ⟨inputs, -, columns⟩
    exact signature_eq_of_perm inputs columns

end TruthTable

end TorchLogic
