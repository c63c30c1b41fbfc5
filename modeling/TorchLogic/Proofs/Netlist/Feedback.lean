import Mathlib.Logic.Relation
import TorchLogic.Netlist.Feedback
import TorchLogic.Proofs.Netlist.WellFormed

/-!
# The check for feedback is exact

A node is observed if the signal of an output depends on it (`Netlist.Observed`). The check for
feedback fails exactly if an observed node lies on a loop of drivers, a node that drives itself
included (`Netlist.isAcyclic_eq_false_iff`).

The proof is about one walk, of which the invariant `Walk.Sound` says two things. Everything done is
accessible: no infinite chain of drivers leads back from it, so it is on no loop. And above the
entry of an open node the stack holds nothing but nodes that lead to it, among them all of its
drivers that are not done. So when an open node is on top, all of its drivers are done, and it may
be closed; and when a driver of the node on top is open, it leads back to itself. Spare entries of a
node do no harm: an open node is never pushed again, so none of them is above its entry.
-/

namespace TorchLogic.Netlist

open Relation

variable {stage : Stage} {g : Netlist stage}

/-- **Whether an output depends on a node.** -/
def Observed (g : Netlist stage) (id : NodeId) : Prop :=
  ∃ output ∈ g.outputs, ReflTransGen g.Drives id output

/-- **Whether a node lies on a loop.** -/
def OnLoop (g : Netlist stage) (id : NodeId) : Prop := TransGen g.Drives id id

theorem not_onLoop_of_acc {a : NodeId} (h : Acc g.Drives a) : ¬ g.OnLoop a := by
  have acc : Acc (TransGen g.Drives) a := h.transGen
  clear h
  induction acc with
  | intro a _ ih => exact fun loop => ih a loop loop

theorem acc_of_reflTransGen {a b : NodeId} (h : Acc g.Drives b) (path : ReflTransGen g.Drives a b) :
    Acc g.Drives a := by
  induction path using ReflTransGen.head_induction_on with
  | refl => exact h
  | head edge _ ih => exact ih.inv edge

namespace Walk

variable {k : Walk}

/-- **What holds along a walk.** -/
structure Sound (g : Netlist stage) (k : Walk) : Prop where
  /-- Nothing is open and done. -/
  apart : ∀ id ∈ k.opened, id ∉ k.done
  /-- What is done is on no loop, and neither is anything that it depends on. -/
  acc : ∀ id ∈ k.done, Acc g.Drives id
  /-- An open node has its entry, and above it are its drivers that are not done, and nothing that
  does not lead to it. -/
  entry : ∀ id ∈ k.opened, ∃ above below, k.stack = above ++ id :: below ∧ id ∉ above ∧
    (∀ p ∈ g.drivers id, p ∈ k.done ∨ p ∈ above) ∧ ∀ p ∈ above, TransGen g.Drives p id

theorem Sound.start (g : Netlist stage) (output : NodeId) : (start output).Sound g where
  apart := fun id mem => by simp [Walk.start] at mem
  acc := fun id mem => by simp [Walk.start] at mem
  entry := fun id mem => by simp [Walk.start] at mem

/-- The entry of an open node other than the top is below the top. -/
theorem Sound.entry_tail (h : k.Sound g) {current id : NodeId} {rest : List NodeId}
    (stack : k.stack = current :: rest) (mem : id ∈ k.opened) (ne : id ≠ current) :
    ∃ above below, rest = above ++ id :: below ∧ id ∉ above ∧
      (∀ p ∈ g.drivers id, p ∈ k.done ∨ p = current ∨ p ∈ above) ∧
      ∀ p ∈ current :: above, TransGen g.Drives p id := by
  obtain ⟨above, below, split, fresh, covered, lead⟩ := h.entry id mem
  rw [stack] at split
  cases above with
  -- The open node would be on top itself.
  | nil =>
    rw [List.nil_append, List.cons.injEq] at split
    exact absurd split.1.symm ne
  | cons top above =>
    -- The node on top is the first of those above it.
    rw [List.cons_append, List.cons.injEq] at split
    obtain ⟨rfl, split⟩ := split
    refine ⟨above, below, split, fun mem => fresh (List.mem_cons_of_mem _ mem), ?_, lead⟩
    intro p edge
    simpa only [List.mem_cons] using covered p edge

/-- When an open node is on top, all of its drivers are done. -/
theorem Sound.acc_of_opened (h : k.Sound g) {current : NodeId} {rest : List NodeId}
    (stack : k.stack = current :: rest) (mem : current ∈ k.opened) : Acc g.Drives current := by
  obtain ⟨above, below, split, fresh, covered, -⟩ := h.entry current mem
  rw [stack] at split
  -- Nothing is above the top, so no driver is left to be looked at.
  have nothing : above = [] := by
    cases above with
    | nil => rfl
    | cons top above =>
      rw [List.cons_append, List.cons.injEq] at split
      exact absurd (split.1 ▸ List.mem_cons_self) fresh
  refine Acc.intro current fun p edge => ?_
  rcases covered p edge with done | mem
  · exact h.acc p done
  · rw [nothing] at mem
    cases mem

/-- Closing keeps the invariant if the node on top may be closed. -/
theorem Sound.close (h : k.Sound g) {current : NodeId} {rest : List NodeId}
    (stack : k.stack = current :: rest) (acc : Acc g.Drives current) :
    (k.close current rest).Sound g where
  apart := by
    intro id mem
    simp only [Walk.close, Std.HashSet.mem_erase, Std.HashSet.mem_insert, beq_iff_eq] at mem ⊢
    rintro (eq | done)
    · -- a node that is closed now is open no more
      simp [eq] at mem
    · exact h.apart id mem.2 done
  acc := by
    intro id mem
    simp only [Walk.close, Std.HashSet.mem_insert, beq_iff_eq] at mem
    rcases mem with rfl | done
    · -- it is on no loop by assumption
      exact acc
    · exact h.acc id done
  entry := by
    intro id mem
    simp only [Walk.close, Std.HashSet.mem_erase, Std.HashSet.mem_insert, beq_iff_eq] at mem ⊢
    -- The entry of another open node stays; the node closed above it is now done.
    obtain ⟨ne, opened⟩ := mem
    obtain ⟨above, below, split, fresh, covered, lead⟩ :=
      h.entry_tail stack opened fun eq => by simp [eq] at ne
    refine ⟨above, below, split, fresh, fun p edge => ?_,
      fun p mem => lead p (List.mem_cons_of_mem _ mem)⟩
    rcases covered p edge with done | rfl | mem
    · exact .inl (.inr done)
    · exact .inl (.inl rfl)
    · exact .inr mem

/-- Opening the node on top keeps the invariant if no edge leads back to an open node. -/
theorem Sound.enter (h : k.Sound g) {current : NodeId} {rest : List NodeId}
    (stack : k.stack = current :: rest) (fresh : k.seen current = false)
    (noLoop : k.meetsLoop g current = false) : (k.enter g current).Sound g where
  apart := by
    intro id mem
    have notDone : current ∉ k.done := by
      intro done
      simp [seen, done] at fresh
    simp only [Walk.enter, Std.HashSet.mem_insert, beq_iff_eq] at mem ⊢
    rcases mem with rfl | opened
    · exact notDone
    · exact h.apart id opened
  acc := h.acc
  entry := by
    intro id mem
    -- What is pushed is neither the node itself nor open.
    have pushed_fresh : ∀ p ∈ g.drivers current, p ≠ current ∧ p ∉ k.opened := by
      intro p edge
      have := List.any_eq_false.1 noLoop p edge
      simpa [not_or] using this
    simp only [Walk.enter, Std.HashSet.mem_insert, beq_iff_eq] at mem ⊢
    rcases mem with rfl | opened
    -- The node itself: above its entry is what was just pushed, its drivers that are not done.
    · -- no more than its drivers are above its entry
      refine ⟨k.pending g _, rest, by rw [stack], ?_, fun p edge => ?_, fun p mem => ?_⟩
      · rw [mem_pending]
        rintro ⟨edge, -⟩
        exact (pushed_fresh _ edge).1 rfl
      · by_cases done : p ∈ k.done
        · exact .inl done
        · exact .inr (mem_pending.2 ⟨edge, done⟩)
      · exact .single (mem_pending.1 mem).1
    -- An open node below: what was just pushed leads to it by way of the node on top.
    · have ne : id ≠ current := by
        rintro rfl
        simp [seen, opened] at fresh
      obtain ⟨above, below, split, apart, covered, lead⟩ := h.entry_tail stack opened ne
      refine ⟨k.pending g current ++ current :: above, below, ?_, ?_, fun p edge => ?_,
        fun p mem => ?_⟩
      · rw [stack, split, List.append_assoc, List.cons_append]
      · rw [List.mem_append, mem_pending, List.mem_cons]
        rintro (⟨edge, -⟩ | eq | mem)
        · exact (pushed_fresh id edge).2 opened
        · exact ne eq
        · exact apart mem
      · rcases covered p edge with done | rfl | mem
        · exact .inl done
        · exact .inr (List.mem_append_right _ List.mem_cons_self)
        · exact .inr (List.mem_append_right _ (List.mem_cons_of_mem _ mem))
      · rcases List.mem_append.1 mem with pushed | mem
        · exact .head (mem_pending.1 pushed).1 (lead current List.mem_cons_self)
        · exact lead p mem

/-- An edge back to an open node closes a loop. -/
theorem Sound.loop (h : k.Sound g) {current : NodeId} {rest : List NodeId}
    (stack : k.stack = current :: rest) (loop : k.meetsLoop g current = true) :
    ∃ id, g.OnLoop id ∧ g.Drives id current := by
  obtain ⟨p, edge, back⟩ := List.any_eq_true.1 loop
  refine ⟨p, ?_, edge⟩
  by_cases eq : p = current
  · subst eq
    exact .single edge
  · have opened : p ∈ k.opened := by simpa [eq] using back
    obtain ⟨_, _, _, _, _, lead⟩ := h.entry_tail stack opened eq
    exact .head edge (lead current List.mem_cons_self)

/-- A node that was looked at may be closed when it is on top. -/
theorem Sound.acc_of_seen (h : k.Sound g) {current : NodeId} {rest : List NodeId}
    (stack : k.stack = current :: rest) (seen : k.seen current = true) : Acc g.Drives current := by
  simp only [Walk.seen, Bool.or_eq_true, Std.HashSet.contains_iff_mem] at seen
  rcases seen with opened | done
  · exact h.acc_of_opened stack opened
  · exact h.acc current done

/-- A number without a node is driven by nothing. -/
theorem acc_of_size_le {id : NodeId} (out : ¬ id < g.size) : Acc g.Drives id := by
  refine Acc.intro id fun p edge => ?_
  have none : g.nodes[id]? = none := Array.getElem?_eq_none (Nat.le_of_not_lt out)
  simp [Drives, drivers, none] at edge

/-- **A walk that finishes has met no loop**: everything on the stack is accessible. -/
theorem Sound.acc_of_finishes (h : k.Sound g) (finishes : k.finishes g = true) :
    ∀ id ∈ k.stack, Acc g.Drives id := by
  -- The walk hands the stack on from step to step, and the invariant with it.
  induction k using Walk.finishes.induct g with
  | case1 k stack => simp [stack]
  | case2 k current rest stack seen ih =>
    -- A node that was seen before is taken off the stack.
    rw [finishes_cons stack, if_pos seen] at finishes
    have acc := h.acc_of_seen stack seen
    rw [stack]
    exact List.forall_mem_cons.2 ⟨acc, ih (h.close stack acc) finishes⟩
  | case3 k current rest stack seen stands ih =>
    -- A fresh node stays on the stack, and its drivers come on top of it.
    rw [finishes_cons stack, if_neg seen, if_pos stands, Bool.and_eq_true,
      Bool.not_eq_true'] at finishes
    have all := ih (h.enter stack (by simpa using seen) finishes.1) finishes.2
    exact fun id mem => all id (List.mem_append_right _ mem)
  | case4 k current rest stack seen out ih =>
    -- What is no node has no drivers.
    rw [finishes_cons stack, if_neg seen, if_neg out] at finishes
    have acc := acc_of_size_le out
    rw [stack]
    exact List.forall_mem_cons.2 ⟨acc, ih (h.close stack acc) finishes⟩

/-- **A walk that does not finish has met a loop**, and a node on the stack depends on it. -/
theorem Sound.loop_of_not_finishes (h : k.Sound g) (finishes : k.finishes g = false) :
    ∃ id, g.OnLoop id ∧ ∃ e ∈ k.stack, ReflTransGen g.Drives id e := by
  induction k using Walk.finishes.induct g with
  | case1 k stack =>
    rw [finishes_nil stack] at finishes
    cases finishes
  | case2 k current rest stack seen ih =>
    -- A node that was seen is on no loop, so the loop is met further down the stack.
    rw [finishes_cons stack, if_pos seen] at finishes
    obtain ⟨id, loop, e, mem, path⟩ := ih (h.close stack (h.acc_of_seen stack seen)) finishes
    exact ⟨id, loop, e, by rw [stack]; exact List.mem_cons_of_mem _ mem, path⟩
  | case3 k current rest stack seen stands ih =>
    have top : current ∈ k.stack := by rw [stack]; exact List.mem_cons_self
    -- Either this step meets the loop, or a later one does.
    by_cases loop : k.meetsLoop g current = true
    · obtain ⟨id, onLoop, edge⟩ := h.loop stack loop
      exact ⟨id, onLoop, current, top, .single edge⟩
    · rw [Bool.not_eq_true] at loop
      rw [finishes_cons stack, if_neg seen, if_pos stands, loop, Bool.not_false,
        Bool.true_and] at finishes
      obtain ⟨id, onLoop, e, mem, path⟩ := ih (h.enter stack (by simpa using seen) loop) finishes
      rcases List.mem_append.1 mem with pushed | mem
      · -- the loop leads to a driver of the node on top, and so to that node
        exact ⟨id, onLoop, current, top, path.tail (mem_pending.1 pushed).1⟩
      · exact ⟨id, onLoop, e, mem, path⟩
  | case4 k current rest stack seen out ih =>
    -- The same is true of what is no node.
    rw [finishes_cons stack, if_neg seen, if_neg out] at finishes
    obtain ⟨id, loop, e, mem, path⟩ := ih (h.close stack (acc_of_size_le out)) finishes
    exact ⟨id, loop, e, by rw [stack]; exact List.mem_cons_of_mem _ mem, path⟩

end Walk

/-- An acyclic netlist has no loop that an output depends on. -/
theorem acc_of_isAcyclic (h : g.isAcyclic = true) {id : NodeId} (observed : g.Observed id) :
    Acc g.Drives id := by
  obtain ⟨output, mem, path⟩ := observed
  have finishes := List.all_eq_true.1 h output mem
  have acc := (Walk.Sound.start g output).acc_of_finishes finishes output List.mem_cons_self
  exact acc_of_reflTransGen acc path

/-- A netlist that fails the check has a loop that an output depends on. -/
theorem exists_onLoop_of_isAcyclic_eq_false (cyclic : g.isAcyclic = false) :
    ∃ id, g.Observed id ∧ g.OnLoop id := by
  obtain ⟨output, mem, finishes⟩ := List.all_eq_false.1 cyclic
  rw [Bool.not_eq_true] at finishes
  obtain ⟨id, loop, e, onStack, path⟩ := (Walk.Sound.start g output).loop_of_not_finishes finishes
  rw [Walk.start, List.mem_singleton] at onStack
  exact ⟨id, ⟨output, mem, onStack ▸ path⟩, loop⟩

/-- **The check for feedback is exact**: it fails exactly if a node that an output depends on lies
on a loop. Loops that no output depends on do not count, and neither does a node that an output
depends on in more than one way. -/
theorem isAcyclic_eq_false_iff (g : Netlist stage) :
    g.isAcyclic = false ↔ ∃ id, g.Observed id ∧ g.OnLoop id := by
  refine ⟨?_, ?_⟩
  · exact exists_onLoop_of_isAcyclic_eq_false
  · rintro ⟨id, observed, loop⟩
    rw [← Bool.not_eq_true]
    intro acyclic
    exact not_onLoop_of_acc (acc_of_isAcyclic acyclic observed) loop

/-- A netlist whose edges all lead to higher numbers has no feedback. -/
theorem isAcyclic_of_ascending (ascending : ∀ a b, g.Drives a b → a < b) : g.isAcyclic = true := by
  rw [← Bool.not_eq_false]
  intro cyclic
  obtain ⟨id, -, loop⟩ := exists_onLoop_of_isAcyclic_eq_false cyclic
  have up {a b : Nat} (path : TransGen g.Drives a b) : a < b := by
    induction path with
    | single edge => exact ascending _ _ edge
    | tail _ edge ih => exact Nat.lt_trans ih (ascending _ _ edge)
  exact Nat.lt_irrefl id (up loop)

end TorchLogic.Netlist
