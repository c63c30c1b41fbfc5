import Mathlib.Data.List.Induction
import TorchLogic.TruthTable.Basic

/-!
# The first clash of two lists of sides

The sides of a table are checked one after the other, the inputs first. The first one that clashes
is reported (`TruthTable.Clash`): the sides before it are all distinct, and it is one of them. An
output that is one of the inputs is reported as such, and any other clash as a repeated side. Lists
of four sides at most have a clash unless all sides are distinct, and it is what the check on sides
reports (`TruthTable.sideFault?_eq_some_iff`).

Both scans are one: repeated inputs are found as repeated outputs of a table without inputs
(`TruthTable.outputFault?_no_inputs`). A scan of a list comes apart where the list does
(`TruthTable.outputFault?_append`), so what it finds is found at some side after all sides before it
have passed.
-/

namespace TorchLogic.TruthTable

variable {inputs outputs earlier : List Side} {side : Side} {e : TableError}

/-- **The first clash of two lists of sides**, by how it is reported. -/
inductive Clash (inputs outputs : List Side) : TableError → Prop
  /-- An input is one of those before it. -/
  | input {before after : List Side} {side : Side} (split : inputs = before ++ side :: after)
    (distinct : before.Nodup) (again : side ∈ before) : Clash inputs outputs (.duplicateSide side)
  /-- An output is one of those before it. -/
  | output {before after : List Side} {side : Side} (split : outputs = before ++ side :: after)
    (distinct : (inputs ++ before).Nodup) (again : side ∈ before) :
    Clash inputs outputs (.duplicateSide side)
  /-- An output is one of the inputs. -/
  | both {before after : List Side} {side : Side} (split : outputs = before ++ side :: after)
    (distinct : (inputs ++ before).Nodup) (again : side ∈ inputs) :
    Clash inputs outputs (.overlappingSide side)

/-- **A scan of a list** is a scan of its parts, the sides of the first part being known in the
second. -/
theorem outputFault?_append (inputs earlier first second : List Side) :
    outputFault? inputs earlier (first ++ second) = (outputFault? inputs earlier first).or
      (outputFault? inputs (first.reverse ++ earlier) second) := by
  induction first generalizing earlier with
  | nil => rfl
  | cons side rest ih =>
    rw [List.cons_append, outputFault?, outputFault?, ih, List.reverse_cons, List.append_assoc]
    split
    · rfl
    · split <;> rfl

theorem outputFault?_no_inputs (earlier sides : List Side) :
    outputFault? [] earlier sides = (firstRepeat? earlier sides).map .duplicateSide := by
  induction sides generalizing earlier with
  | nil => rfl
  | cons side rest ih =>
    rw [outputFault?, firstRepeat?, if_neg (List.not_mem_nil (a := side)), ih]
    split <;> rfl

/-- What a scan says of a side on its own. -/
theorem outputFault?_singleton_eq_some_iff : outputFault? inputs earlier [side] = some e ↔
    side ∈ earlier ∧ e = .duplicateSide side ∨
      side ∉ earlier ∧ side ∈ inputs ∧ e = .overlappingSide side := by
  rw [outputFault?, outputFault?]
  split
  case isTrue mem =>
    simp [mem, eq_comm]
  case isFalse notMem =>
    split <;> simp [*, eq_comm]

/-- **What a scan finds** is found at a side before which all sides have passed. -/
theorem outputFault?_eq_some_iff : outputFault? inputs [] outputs = some e ↔
    ∃ before side after, outputs = before ++ side :: after ∧ outputFault? inputs [] before = none ∧
      (side ∈ before ∧ e = .duplicateSide side ∨
        side ∉ before ∧ side ∈ inputs ∧ e = .overlappingSide side) := by
  -- After the sides that have passed, one side is scanned on its own.
  have next (before : List Side) (side : Side) (passed : outputFault? inputs [] before = none) :
      outputFault? inputs [] (before ++ [side]) = some e ↔
        side ∈ before ∧ e = .duplicateSide side ∨
          side ∉ before ∧ side ∈ inputs ∧ e = .overlappingSide side := by
    rw [outputFault?_append, passed, Option.none_or, outputFault?_singleton_eq_some_iff,
      List.append_nil, List.mem_reverse]
  constructor
  · intro found
    induction outputs using List.reverseRecOn with
    | nil => cases found
    | append_singleton front last ih =>
      cases earlier : outputFault? inputs [] front with
      | none => exact ⟨front, last, [], rfl, earlier, (next front last earlier).1 found⟩
      | some e' =>
        -- The last side is not looked at.
        rw [outputFault?_append, earlier, Option.some_or] at found
        obtain ⟨before, side, after, split, passed, fault⟩ := ih (earlier.trans found)
        exact ⟨before, side, after ++ [last], by rw [split, List.append_assoc]; rfl, passed, fault⟩
  · rintro ⟨before, side, after, rfl, passed, fault⟩
    rw [List.append_cons, outputFault?_append, (next before side passed).2 fault, Option.some_or]

/-- After inputs that are distinct, outputs pass if all of them together are distinct. -/
theorem nodup_append_iff (distinct : inputs.Nodup) :
    (inputs ++ outputs).Nodup ↔ outputFault? inputs [] outputs = none := by
  rw [outputFault?_eq_none_iff, List.nodup_append, and_iff_right distinct]
  refine and_congr_right fun _ => ⟨fun apart s mem => ⟨List.not_mem_nil, fun input => ?_⟩, ?_⟩
  · exact apart s input s mem rfl
  · rintro apart s input _ mem rfl
    exact (apart s mem).2 input

/-- **The check on sides reports the first clash**, if the sides are few. -/
theorem sideFault?_eq_some_iff (few : inputs.length + outputs.length ≤ 4) :
    sideFault? inputs outputs = some e ↔ Clash inputs outputs e := by
  -- The inputs are scanned as the outputs of a table without inputs are.
  have scans : sideFault? inputs outputs =
      (outputFault? [] [] inputs).or (outputFault? inputs [] outputs) := by
    rw [sideFault?, if_neg (Nat.not_lt.2 few), outputFault?_no_inputs]
    cases firstRepeat? [] inputs <;> rfl
  rw [scans, Option.or_eq_some_iff]
  constructor
  · -- the scan stops at an input, or at an output after all inputs have passed
    rintro (found | ⟨passed, found⟩)
    · obtain ⟨before, side, after, split, passed, ⟨again, rfl⟩ | ⟨-, none, -⟩⟩ :=
        outputFault?_eq_some_iff.1 found
      · exact .input split (outputFault?_eq_none_iff.1 passed).1 again
      · cases none
    · have distinct := (outputFault?_eq_none_iff.1 passed).1
      obtain ⟨before, side, after, split, passed, ⟨again, rfl⟩ | ⟨-, again, rfl⟩⟩ :=
        outputFault?_eq_some_iff.1 found
      · exact .output split ((nodup_append_iff distinct).2 passed) again
      · exact .both split ((nodup_append_iff distinct).2 passed) again
  -- The sides before a clash pass, and so do the inputs if it is at an output.
  · have inputs_pass (distinct : inputs.Nodup) : outputFault? [] [] inputs = none :=
      (nodup_append_iff List.nodup_nil).1 distinct
    rintro (⟨split, distinct, again⟩ | ⟨split, distinct, again⟩ | ⟨split, distinct, again⟩)
    · have passed := (nodup_append_iff List.nodup_nil).1 distinct
      exact .inl (outputFault?_eq_some_iff.2 ⟨_, _, _, split, passed, .inl ⟨again, rfl⟩⟩)
    · have ins := (List.nodup_append.1 distinct).1
      have passed := (nodup_append_iff ins).1 distinct
      exact .inr ⟨inputs_pass ins,
        outputFault?_eq_some_iff.2 ⟨_, _, _, split, passed, .inl ⟨again, rfl⟩⟩⟩
    · obtain ⟨ins, -, apart⟩ := List.nodup_append.1 distinct
      have passed := (nodup_append_iff ins).1 distinct
      have fresh : _ ∉ _ := fun mem => apart _ again _ mem rfl
      exact .inr ⟨inputs_pass ins,
        outputFault?_eq_some_iff.2 ⟨_, _, _, split, passed, .inr ⟨fresh, again, rfl⟩⟩⟩

/-- **A few sides that are not all distinct clash.** -/
theorem exists_clash (few : inputs.length + outputs.length ≤ 4)
    (not : ¬ (inputs ++ outputs).Nodup) : ∃ e, Clash inputs outputs e := by
  obtain ⟨e, found⟩ := Option.ne_none_iff_exists'.1 (mt sideFault?_eq_none_iff.1 not)
  exact ⟨e, (sideFault?_eq_some_iff few).1 found⟩

end TorchLogic.TruthTable
