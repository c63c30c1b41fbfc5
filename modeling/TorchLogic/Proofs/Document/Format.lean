import TorchLogic.Document.Toml
import TorchLogic.Document.Writing

/-!
# What formats keep their promises

Every format that is made of a view of its values reads what is in the value
(`Datum.View.lawful`), so both formats of the library do. What is written in JSON is read back
(`Json.readsBack`). The fields of an object are put in alphabetical order when it is made, which
loses none of them and makes no difference to a reader that looks for them by name.
-/

namespace TorchLogic

/-- **A loop that reads gives what is read** from each item. -/
theorem mapM_eq_some_iff {α β : Type} {read? : α → Option β} {items : List α} {values : List β} :
    items.mapM read? = some values ↔ items.map read? = values.map some := by
  induction items generalizing values with
  | nil =>
    rw [List.mapM_nil, List.map_nil, eq_comm (a := []), List.map_eq_nil_iff]
    exact ⟨fun eq => (Option.some.inj eq).symm, fun eq => congrArg some eq.symm⟩
  | cons item rest ih =>
    rw [List.mapM_cons, List.map_cons]
    constructor
    · -- the first item is read, and then the rest
      intro all
      obtain ⟨value, first, all⟩ := Option.bind_eq_some_iff.1 all
      obtain ⟨others, later, all⟩ := Option.bind_eq_some_iff.1 all
      cases all
      rw [first, ih.1 later, List.map_cons]
    · intro all
      cases values with
      | nil => cases all
      | cons value others =>
        obtain ⟨first, later⟩ := List.cons.inj all
        rw [first, ih.2 later]
        rfl

/-- Whether two lists are mapped to one depends on which items are. -/
theorem map_eq_map_congr {α β γ δ : Type} {f : α → γ} {g : β → γ} {f' : α → δ} {g' : β → δ}
    (same : ∀ a b, f a = g b ↔ f' a = g' b) {as : List α} {bs : List β} :
    as.map f = bs.map g ↔ as.map f' = bs.map g' := by
  induction as generalizing bs with
  | nil => cases bs <;> simp
  | cons a as ih => cases bs <;> simp [same, ih]

/-- Where all keys are different, there is one entry for the key of an entry. -/
theorem filter_key_eq_singleton {α : Type} {es : List (String × α)} {e : String × α}
    (nodup : (es.map Prod.fst).Nodup) (mem : e ∈ es) : es.filter (·.1 == e.1) = [e] := by
  induction es with
  | nil => cases mem
  | cons d rest ih =>
    obtain ⟨fresh, nodup⟩ := List.nodup_cons.1 nodup
    rcases List.mem_cons.1 mem with rfl | later
    · -- no later entry has the key of the first
      rw [List.filter_cons, if_pos (beq_self_eq_true _), List.filter_eq_nil_iff.2]
      intro d mem same
      exact fresh (beq_iff_eq.1 same ▸ List.mem_map_of_mem mem)
    · have other : ¬ (d.1 == e.1) = true := by
        intro same
        exact fresh (beq_iff_eq.1 same ▸ List.mem_map_of_mem later)
      rw [List.filter_cons, if_neg other, ih nodup later]

namespace Datum.View

variable {α : Type}

/-- **Whatever is looked at in this way is read as it is.** -/
theorem lawful (view : View α) : @Lawful α view.datum := by
  let := view.datum
  refine ⟨?_, ?_, ?_⟩
  · -- numbers
    intro low high n v
    change view.bounded? low high v = some n ↔ view.integer? v = some n ∧ _
    rw [bounded?]
    cases view.integer? v with
    | none => simp
    | some m =>
      rw [Option.ite_none_right_eq_some, Option.some.injEq]
      constructor
      · rintro ⟨inside, rfl⟩
        exact ⟨rfl, inside⟩
      · rintro ⟨rfl, inside⟩
        exact ⟨inside, rfl⟩
  · -- lists
    intro β item? v values
    change view.listOf? item? v = some values ↔ ∃ items, view.list? v = some items ∧ _
    rw [listOf?]
    cases view.list? v with
    | none => simp
    | some items => simp [mapM_eq_some_iff]
  · -- maps, where reading an entry is reading its key and its value
    intro κ β key? value? v es
    change view.entries? key? value? v = some es ↔ ∃ written, view.fields? v = some written ∧ _
    have entry (e : String × α) (d : κ × β) :
        (do some (← key? e.1, ← value? e.2)) = some d ↔
          (key? e.1, value? e.2) = (some d.1, some d.2) := by
      cases key? e.1 <;> cases value? e.2 <;> simp [Prod.ext_iff]
    rw [entries?]
    cases view.fields? v with
    | none => simp
    | some written =>
      have read : written.mapM (fun e => do some (← key? e.1, ← value? e.2)) = some es ↔
          written.map (fun e => (key? e.1, value? e.2)) = es.map fun d => (some d.1, some d.2) := by
        rw [mapM_eq_some_iff]
        exact map_eq_map_congr entry
      simpa using read

end Datum.View

namespace Json

open Datum

/-- **JSON values are read as they are.** -/
theorem lawful : Lawful Json := view.lawful

/-- The fields of an object that was made are those that were asked for. -/
theorem fields_sorted {written : List (String × Json)} (nodup : (written.map Prod.fst).Nodup) :
    fields (written.map Prod.fst) (sorted written) = some (written.map fun e => some e.2) := by
  have perm : (written.mergeSort fun a b => a.1 ≤ b.1).Perm written := List.mergeSort_perm ..
  change List.mapM _ (written.map Prod.fst) = _
  rw [mapM_eq_some_iff, List.map_map, List.map_map, List.map_inj_left]
  intro e mem
  -- A name is written once, wherever the field has been put.
  have once : (written.mergeSort fun a b => a.1 ≤ b.1).filter (·.1 == e.1) = [e] := by
    have found := perm.filter (·.1 == e.1)
    rw [filter_key_eq_singleton nodup mem] at found
    exact List.perm_singleton.1 found
  simp only [Function.comp_apply, once]

/-- **What is written in JSON is read back.** -/
theorem readsBack : ReadsBack Json where
  integer _ := rfl
  boolean _ := rfl
  text _ := rfl
  choice _ := rfl
  listOf _ _ := rfl
  tuple items := by
    change (if items.length < items.length || (true && items.length < items.length) then none
      else some (items.take items.length)) = some items
    simp
  record _ nodup := fields_sorted nodup
  entries _ _ _ _ := ⟨_, rfl, List.mergeSort_perm ..⟩

end Json

end TorchLogic
