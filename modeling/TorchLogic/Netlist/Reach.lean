import Std.Data.TreeMap
import TorchLogic.Counting
import TorchLogic.Netlist.Basic

/-!
# How far a signal travels through wires

The distance from a node to another is the least number of edges of a path whose inner nodes are
all wires. Distances are found breadth first. A search keeps the distances found so far and a queue
of nodes whose successors are still to be looked at; of the nodes that it finds, only wires are
queued, for a signal travels on through nothing else.

The source starts at distance zero, which is no answer for the source itself: its own distance is
the length of the shortest loop that leads back to it, which is kept apart (`Search.returned`), and
it has none if no loop does.
-/

namespace TorchLogic.Netlist

variable {stage : Stage}

/-- **Where a search stands.** -/
structure Search where
  /-- The distances of the nodes that were found; that of the source is zero. -/
  found : Std.TreeMap NodeId Nat
  /-- The length of the first loop that led back to the source. -/
  returned : Option Nat
  /-- The nodes whose successors are still to be looked at. -/
  queue : List NodeId

/-- The search before its first step. -/
def Search.start (source : NodeId) : Search :=
  ⟨(∅ : Std.TreeMap NodeId Nat).insert source 0, none, [source]⟩

/-- **Looks at one successor**, which an edge reaches at a given distance. -/
def Search.reach (g : Netlist stage) (source : NodeId) (distance : Nat) (s : Search)
    (next : NodeId) : Search :=
  if next ∈ s.found then
    -- Of what was found before, only the way back to the source is news.
    if next = source ∧ s.returned = none then { s with returned := some distance } else s
  else
    { s with
      found := s.found.insert next distance
      queue := if g.isWire next then s.queue ++ [next] else s.queue }

/-- Takes the first node off the queue and looks at its successors. -/
def Search.expand (g : Netlist stage) (source : NodeId) (s : Search) (current : NodeId)
    (rest : List NodeId) : Search :=
  (g.successors current).foldl (Search.reach g source (s.found.getD current 0 + 1))
    { s with queue := rest }

/-- How many steps a search has left at most: one for each node that is not found and one for each
that is queued. -/
def Search.left (g : Netlist stage) (s : Search) : Nat :=
  g.ids.countP (fun id => !s.found.contains id) + s.queue.length

theorem mem_ids_of_isWire {g : Netlist stage} {id : NodeId} (wire : g.isWire id = true) :
    id ∈ g.ids := by
  simp only [isWire, component?, Option.any_map, Option.any_eq_true] at wire
  obtain ⟨node, stands, -⟩ := wire
  simp only [ids, size, List.mem_range]
  exact (Array.getElem?_eq_some_iff.1 stands).1

theorem Search.left_reach_le (g : Netlist stage) (source : NodeId) (distance : Nat) (s : Search)
    (next : NodeId) : (s.reach g source distance next).left g ≤ s.left g := by
  unfold reach
  split
  case isTrue => split <;> exact Nat.le_refl _
  case isFalse fresh =>
    have le (id : NodeId) : (!(s.found.insert next distance).contains id) = true →
        (!s.found.contains id) = true := by
      simp only [Std.TreeMap.contains_insert, Bool.not_or, Bool.and_eq_true]
      exact And.right
    by_cases wire : g.isWire next = true
    -- A wire is found and queued, which makes no difference to the sum.
    · have lt := countP_lt_of_mem (mem_ids_of_isWire wire) le
        (by simpa only [Bool.not_eq_true', ← Bool.not_eq_true, Std.TreeMap.contains_iff_mem]
          using fresh)
        (by rw [Std.TreeMap.contains_insert_self]; rfl)
      rw [if_pos wire]
      simp only [left, List.length_append, List.length_singleton]
      omega
    -- Anything else is found and not queued.
    · have := List.countP_mono_left (l := g.ids) fun id _ => le id
      rw [if_neg wire]
      simp only [left]
      omega

theorem Search.left_expand_lt (g : Netlist stage) (source : NodeId) {s : Search}
    {current : NodeId} {rest : List NodeId} (queue : s.queue = current :: rest) :
    (s.expand g source current rest).left g < s.left g := by
  have fold (distance : Nat) (targets : List NodeId) (t : Search) :
      (targets.foldl (reach g source distance) t).left g ≤ t.left g := by
    induction targets generalizing t with
    | nil => exact Nat.le_refl _
    | cons next targets ih =>
      exact Nat.le_trans (ih _) (left_reach_le g source distance t next)
  refine Nat.lt_of_le_of_lt (fold _ _ _) ?_
  simp only [left, queue, List.length_cons]
  omega

/-- **Searches until the queue is empty.** -/
def Search.run (g : Netlist stage) (source : NodeId) (s : Search) : Search :=
  match _queue : s.queue with
  | [] => s
  | current :: rest => run g source (s.expand g source current rest)
termination_by s.left g
decreasing_by exact left_expand_lt g source _queue

theorem Search.run_nil {g : Netlist stage} {source : NodeId} {s : Search} (queue : s.queue = []) :
    s.run g source = s := by
  rw [run]
  split
  case h_1 => rfl
  case h_2 eq =>
    rw [queue] at eq
    cases eq

theorem Search.run_cons {g : Netlist stage} {source : NodeId} {s : Search} {current : NodeId}
    {rest : List NodeId} (queue : s.queue = current :: rest) :
    s.run g source = (s.expand g source current rest).run g source := by
  rw [run]
  split
  case h_1 eq =>
    rw [queue] at eq
    cases eq
  case h_2 eq =>
    rw [queue] at eq
    cases eq
    rfl

/-- The distances that a search has found, with the length of the loop for the source. -/
def Search.distances (source : NodeId) (s : Search) : Std.TreeMap NodeId Nat :=
  match s.returned with
  | some distance => s.found.insert source distance
  | none => s.found.erase source

/-- **The distance from a node to each node that its signal reaches through wires**, ascending.
From a node that does not exist nothing is reached. -/
def distances (g : Netlist stage) (source : NodeId) : List (NodeId × Nat) :=
  if source < g.size then (((Search.start source).run g source).distances source).toList else []

end TorchLogic.Netlist
