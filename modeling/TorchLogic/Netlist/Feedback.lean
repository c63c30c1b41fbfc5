import Std.Data.HashSet
import TorchLogic.Counting
import TorchLogic.Netlist.Basic

/-!
# Feedback

A circuit has feedback if one of its outputs depends on a loop. From each output a walk goes back
along the drivers, depth first. It keeps a stack of nodes to look at and two sets: the nodes that
are open, whose drivers are being looked at, and those that are done.

A node is looked at twice. The first time it is opened, and its drivers are put on the stack above
it, except those that are done. When it is on top again, everything above it is done, and so is the
node. A driver that is open leads back to itself, and that is a loop. A node may be on the stack
more than once; the spare entries are dropped when they come to the top.

A loop that no output observes does not count, for no walk meets it.
-/

namespace TorchLogic.Netlist

variable {stage : Stage}

/-- **Where a walk back from an output stands.** -/
structure Walk where
  /-- The nodes whose drivers are being looked at. -/
  opened : Std.HashSet NodeId
  /-- The nodes that no loop leads to. -/
  done : Std.HashSet NodeId
  /-- The nodes to look at, the next one first. -/
  stack : List NodeId

namespace Walk

/-- The walk before its first step. -/
def start (output : NodeId) : Walk := ⟨∅, ∅, [output]⟩

/-- Whether a node was looked at. -/
def seen (k : Walk) (id : NodeId) : Bool := k.opened.contains id || k.done.contains id

/-- How many nodes were not looked at. -/
def unseen (g : Netlist stage) (k : Walk) : Nat := g.ids.countP fun id => !k.seen id

/-- Finishes the node on top of the stack, above the given rest. -/
def close (k : Walk) (current : NodeId) (rest : List NodeId) : Walk :=
  ⟨k.opened.erase current, k.done.insert current, rest⟩

/-- The drivers of a node that are not done, the last one first. -/
def pending (g : Netlist stage) (k : Walk) (current : NodeId) : List NodeId :=
  ((g.drivers current).filter fun id => !k.done.contains id).reverse

/-- Opens the node on top of the stack and puts the drivers that are not done above it. -/
def enter (g : Netlist stage) (k : Walk) (current : NodeId) : Walk :=
  ⟨k.opened.insert current, k.done, k.pending g current ++ k.stack⟩

@[simp] theorem mem_pending {g : Netlist stage} {k : Walk} {current id : NodeId} :
    id ∈ k.pending g current ↔ id ∈ g.drivers current ∧ id ∉ k.done := by
  simp [pending]

theorem unseen_close_le (g : Netlist stage) (k : Walk) (current : NodeId) (rest : List NodeId) :
    (k.close current rest).unseen g ≤ k.unseen g := by
  -- A node that is closed was looked at, whichever set it is in.
  refine List.countP_mono_left fun id _ => ?_
  by_cases eq : current = id
  · simp [seen, close, eq]
  · simp [seen, close, Std.HashSet.contains_erase, eq]

/-- Closing a node leaves fewer nodes unseen, or as many and a shorter stack. -/
theorem close_lt (g : Netlist stage) {k : Walk} {current : NodeId} {rest : List NodeId}
    (stack : k.stack = current :: rest) :
    Prod.Lex (· < ·) (· < ·) ((k.close current rest).unseen g, (k.close current rest).stack.length)
      (k.unseen g, k.stack.length) := by
  have shorter : (k.close current rest).stack.length < k.stack.length := by
    rw [stack]
    exact Nat.lt_succ_self _
  -- Closing a number that was never looked at counts as looking at it.
  rcases Nat.lt_or_eq_of_le (unseen_close_le g k current rest) with lt | eq
  · exact Prod.Lex.left _ _ lt
  · rw [eq]
    exact Prod.Lex.right _ shorter

theorem unseen_enter_lt {g : Netlist stage} {k : Walk} {current : NodeId}
    (fresh : k.seen current = false) (stands : current < g.size) :
    (k.enter g current).unseen g < k.unseen g := by
  refine countP_lt_of_mem (a := current) (List.mem_range.2 stands) ?_ ?_ ?_
  · intro id
    simp only [seen, enter, Std.HashSet.contains_insert, Bool.not_or, Bool.and_eq_true]
    rintro ⟨⟨-, new⟩, old⟩
    exact ⟨new, old⟩
  · simp [fresh]
  · simp [seen, enter]

/-- Whether an edge leads back from a node that is being opened to one that is open, itself
included. -/
def meetsLoop (g : Netlist stage) (k : Walk) (current : NodeId) : Bool :=
  (g.drivers current).any fun id => id == current || k.opened.contains id

/-- **Whether a walk ends without meeting a loop.** A number without a node is passed over. -/
def finishes (g : Netlist stage) (k : Walk) : Bool :=
  match _stack : k.stack with
  | [] => true
  | current :: rest =>
    -- Looked at before: back at an open node, or at a spare entry of a node that is done.
    if _seen : k.seen current = true then finishes g (k.close current rest)
    else if _stands : current < g.size then
      !k.meetsLoop g current && finishes g (k.enter g current)
    else finishes g (k.close current rest)
termination_by (k.unseen g, k.stack.length)
decreasing_by
  · exact close_lt g _stack
  · exact Prod.Lex.left _ _ (unseen_enter_lt (by simpa using _seen) _stands)
  · exact close_lt g _stack

theorem finishes_nil {g : Netlist stage} {k : Walk} (stack : k.stack = []) :
    k.finishes g = true := by
  unfold finishes
  split
  case h_1 => rfl
  case h_2 eq =>
    rw [stack] at eq
    cases eq

theorem finishes_cons {g : Netlist stage} {k : Walk} {current : NodeId} {rest : List NodeId}
    (stack : k.stack = current :: rest) :
    k.finishes g =
      if k.seen current = true then (k.close current rest).finishes g
      else if current < g.size then !k.meetsLoop g current && (k.enter g current).finishes g
      else (k.close current rest).finishes g := by
  rw [finishes]
  split
  case h_1 eq =>
    rw [stack] at eq
    cases eq
  case h_2 eq =>
    rw [stack] at eq
    cases eq
    rfl

end Walk

/-- **Whether no output depends on a loop.** -/
def isAcyclic (g : Netlist stage) : Bool :=
  g.outputs.all fun output => (Walk.start output).finishes g

end TorchLogic.Netlist
