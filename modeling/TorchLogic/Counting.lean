/-!
# Counting what is left

The walks of this library end because each of them leaves fewer things unseen: fewer nodes of a
netlist, fewer blocks of a world. `countP_lt_of_mem` is the step that all of them share.
-/

namespace TorchLogic

/-- A test that fails for a member of a list that another test passes, and passes for none that the
other fails, passes for fewer members. -/
theorem countP_lt_of_mem {α : Type} {p q : α → Bool} {l : List α} {a : α} (mem : a ∈ l)
    (le : ∀ x, q x = true → p x = true) (pass : p a = true) (fail : q a = false) :
    l.countP q < l.countP p := by
  induction l with
  | nil => simp at mem
  | cons b rest ih =>
    have rest_le : rest.countP q ≤ rest.countP p := List.countP_mono_left fun x _ => le x
    rcases List.mem_cons.1 mem with rfl | mem
    · simp only [List.countP_cons, pass, fail, if_true, Bool.false_eq_true, if_false]
      omega
    · have lt := ih mem
      have step : (if q b = true then 1 else 0) ≤ (if p b = true then 1 else 0) := by
        by_cases pass : q b = true
        · simp only [pass, le b pass, if_true, Nat.le_refl]
        · simp only [pass, Bool.false_eq_true, if_false, Nat.zero_le]
      simp only [List.countP_cons]
      exact Nat.add_lt_add_of_lt_of_le lt step

end TorchLogic
