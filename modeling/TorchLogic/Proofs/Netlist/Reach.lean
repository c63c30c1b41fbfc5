import Mathlib.Data.Nat.Find
import Mathlib.Order.Bounds.Defs
import Mathlib.Tactic.ByContra
import TorchLogic.Netlist.Reach

/-!
# The search for distances is exact

A signal travels from a node along a path whose inner nodes are wires (`Netlist.WirePath`). The
search finds exactly the nodes at the end of such a path, each with the length of the shortest one,
the source itself included (`Netlist.mem_distances`).

The search is breadth first, and `Search.Exact` is what holds along it. Whatever is recorded is the
length of a path. The queue ascends, and nothing recorded is more than one step farther than a node
in it. A node that has left the queue is closed: each of its successors is recorded at most one step
farther. When the queue is empty every node that passes the signal on is closed, so no path is
shorter than what is recorded at its end (`Search.Exact.le_of_path`).

The source stands for two things: its place at distance zero, from which its successors are reached,
and its own answer, the length of a loop. `Search.answer?` reads the answers.
-/

namespace TorchLogic.Netlist

variable {stage : Stage} {g : Netlist stage} {source : Nat}

/-! ### Paths -/

/-- **A path of a number of edges** whose inner nodes are wires. -/
inductive WirePath (g : Netlist stage) (source : Nat) : Nat → Nat → Prop
  /-- A single edge. -/
  | edge {target : Nat} : target ∈ g.successors source → WirePath g source 1 target
  /-- A path to a wire, and an edge from the wire. -/
  | through {length wire target : Nat} : WirePath g source length wire → g.isWire wire = true →
    target ∈ g.successors wire → WirePath g source (length + 1) target

namespace Search

/-! ### What a step records -/

/-- The distance that a search has recorded as an answer. -/
def answer? (source : Nat) (s : Search) (id : Nat) : Option Nat :=
  if id = source then s.returned else s.found[id]?

/-- The distance at which a node was found. -/
def depth (s : Search) (id : Nat) : Nat := s.found[id]?.getD 0

variable {s : Search} {distance : Nat}

theorem found_reach (g : Netlist stage) (source distance : Nat) (s : Search) (next id : Nat) :
    (s.reach g source distance next).found[id]? =
      s.found[id]?.or (if id = next then some distance else none) := by
  unfold reach
  by_cases known : next ∈ s.found
  · rw [if_pos known]
    -- A node keeps the distance at which it was found first.
    have kept : s.found[id]? = s.found[id]?.or (if id = next then some distance else none) := by
      by_cases eq : id = next
      · rw [Std.TreeMap.mem_iff_isSome_getElem?, ← eq] at known
        obtain ⟨n, h⟩ := Option.isSome_iff_exists.1 known
        rw [h, Option.some_or]
      · rw [if_neg eq, Option.or_none]
    split <;> exact kept
  · rw [if_neg known]
    have absent : s.found[next]? = none := by
      rwa [Std.TreeMap.mem_iff_isSome_getElem?, Option.not_isSome_iff_eq_none] at known
    simp only [Std.TreeMap.getElem?_insert, Std.LawfulEqCmp.compare_eq_iff_eq, eq_comm (a := next)]
    by_cases eq : id = next
    · rw [if_pos eq, if_pos eq, eq, absent, Option.none_or]
    · rw [if_neg eq, if_neg eq, Option.or_none]

theorem returned_reach (start : source ∈ s.found) (next : Nat) :
    (s.reach g source distance next).returned =
      s.returned.or (if source = next then some distance else none) := by
  unfold reach
  by_cases eq : source = next
  · subst eq
    rw [if_pos start, if_pos rfl]
    -- Only the first way back is taken down; those that follow are no shorter.
    cases known : s.returned with
    | none => rw [if_pos ⟨rfl, rfl⟩, Option.none_or]
    | some n => rw [if_neg (by simp), known, Option.some_or]
  · have ne : ¬ next = source := fun h => eq h.symm
    rw [if_neg eq, Option.or_none]
    split
    · rw [if_neg (fun h => ne h.1)]
    · rfl

theorem queue_reach (g : Netlist stage) (source distance : Nat) (s : Search) (next : Nat) :
    (s.reach g source distance next).queue =
      s.queue ++ if next ∉ s.found ∧ g.isWire next = true then [next] else [] := by
  unfold reach
  by_cases known : next ∈ s.found
  · have nothing : ¬ (next ∉ s.found ∧ g.isWire next = true) := fun h => h.1 known
    rw [if_pos known, if_neg nothing, List.append_nil]
    split <;> rfl
  · rw [if_neg known]
    by_cases wire : g.isWire next = true
    · have fresh : next ∉ s.found ∧ g.isWire next = true := ⟨known, wire⟩
      simp only [if_pos wire, if_pos fresh]
    · have nothing : ¬ (next ∉ s.found ∧ g.isWire next = true) := fun h => wire h.2
      simp only [if_neg wire, if_neg nothing, List.append_nil]

theorem mem_found_reach (g : Netlist stage) (source distance : Nat) (s : Search) (next id : Nat) :
    id ∈ (s.reach g source distance next).found ↔ id ∈ s.found ∨ id = next := by
  rw [Std.TreeMap.mem_iff_isSome_getElem?, Std.TreeMap.mem_iff_isSome_getElem?, found_reach,
    Option.isSome_or, Bool.or_eq_true]
  by_cases eq : id = next <;> simp [eq]

theorem recorded_cons (id next distance : Nat) (rest : List Nat) :
    (if id = next then some distance else none).or (if id ∈ rest then some distance else none) =
      if id ∈ next :: rest then some distance else none := by
  by_cases eq : id = next
  · simp [eq]
  · simp [eq]

/-- **Looking at successors** records those that were not found. -/
theorem found_foldl (targets : List Nat) (s : Search) (id : Nat) :
    (targets.foldl (reach g source distance) s).found[id]? =
      s.found[id]?.or (if id ∈ targets then some distance else none) := by
  -- All targets get one distance, so nothing depends on their order.
  induction targets generalizing s with
  | nil => simp
  | cons next rest ih =>
    rw [List.foldl_cons, ih, found_reach, Option.or_assoc, recorded_cons]

/-- Looking at successors takes note of a loop that leads back. -/
theorem returned_foldl (targets : List Nat) {s : Search} (start : source ∈ s.found) :
    (targets.foldl (reach g source distance) s).returned =
      s.returned.or (if source ∈ targets then some distance else none) := by
  induction targets generalizing s with
  | nil => simp
  | cons next rest ih =>
    have start' : source ∈ (s.reach g source distance next).found :=
      (mem_found_reach g source distance s next source).2 (.inl start)
    rw [List.foldl_cons, ih start', returned_reach start, Option.or_assoc, recorded_cons]

/-- Looking at successors queues the wires among those that were not found. -/
theorem queue_foldl (g : Netlist stage) (source distance : Nat) (targets : List Nat) (s : Search) :
    ∃ new, (targets.foldl (reach g source distance) s).queue = s.queue ++ new ∧
      ∀ id, id ∈ new ↔ id ∈ targets ∧ id ∉ s.found ∧ g.isWire id = true := by
  induction targets generalizing s with
  | nil => exact ⟨[], by simp, by simp⟩
  | cons next rest ih =>
    obtain ⟨new, eq, mem_new⟩ := ih (s.reach g source distance next)
    refine ⟨(if next ∉ s.found ∧ g.isWire next = true then [next] else []) ++ new, ?_,
      fun id => ?_⟩
    · rw [List.foldl_cons, eq, queue_reach, List.append_assoc]
    · rw [List.mem_append, mem_new, mem_found_reach, List.mem_cons]
      -- A node that occurs again is found by then, and is not queued twice.
      by_cases same : id = next
      · subst same
        by_cases fresh : id ∉ s.found ∧ g.isWire id = true
        · simp [fresh]
        · rw [if_neg fresh]
          simp [fresh]
      · have out : id ∉ (if next ∉ s.found ∧ g.isWire next = true then [next] else []) := by
          split <;> simp [same]
        simp only [out, same, false_or, or_false]

/-! ### The invariant -/

/-- **What holds along a search.** -/
structure Exact (g : Netlist stage) (source : Nat) (s : Search) : Prop where
  /-- The source is found at distance zero. -/
  start : s.found[source]? = some 0
  /-- An answer is the length of a path. -/
  path : ∀ id n : Nat, s.answer? source id = some n → g.WirePath source n id
  /-- What is queued is found, and passes the signal on. -/
  queued : ∀ u ∈ s.queue, u ∈ s.found ∧ (u = source ∨ g.isWire u = true)
  /-- The queue ascends. -/
  ascends : s.queue.Pairwise fun u v => s.depth u ≤ s.depth v
  /-- Nothing that is found is more than a step farther than what is queued. -/
  found_near : ∀ u ∈ s.queue, ∀ id n : Nat, s.found[id]? = some n → n ≤ s.depth u + 1
  /-- No loop is more than a step longer than the way to what is queued. -/
  returned_near : ∀ u ∈ s.queue, ∀ n, s.returned = some n → n ≤ s.depth u + 1
  /-- The successors of what has left the queue have answers, at most one step farther. -/
  closed : ∀ u n : Nat, s.found[u]? = some n → (u = source ∨ g.isWire u = true) → u ∉ s.queue →
    ∀ target ∈ g.successors u, ∃ m, s.answer? source target = some m ∧ m ≤ n + 1

theorem depth_eq {id n : Nat} (h : s.found[id]? = some n) : s.depth id = n := by
  rw [depth, h, Option.getD_some]

theorem Exact.start_mem (h : s.Exact g source) : source ∈ s.found := by
  rw [Std.TreeMap.mem_iff_isSome_getElem?, h.start]
  rfl

theorem exact_start (g : Netlist stage) (source : Nat) : (start source).Exact g source where
  start := Std.TreeMap.getElem?_insert_self
  path := by
    intro id n answer
    unfold answer? at answer
    split at answer
    case isTrue => cases answer
    case isFalse ne =>
      simp [Search.start, ne, eq_comm (a := source)] at answer
  queued := by
    intro u mem
    rw [Search.start, List.mem_singleton] at mem
    subst mem
    exact ⟨Std.TreeMap.mem_insert_self, .inl rfl⟩
  ascends := List.pairwise_singleton _ _
  found_near := by
    intro u _ id n found
    simp only [Search.start, Std.TreeMap.getElem?_insert] at found
    split at found
    · cases found
      exact Nat.zero_le _
    · simp at found
  returned_near := fun u _ n returned => by cases returned
  closed := by
    intro u n found _ out
    simp only [Search.start, Std.TreeMap.getElem?_insert,
      Std.LawfulEqCmp.compare_eq_iff_eq] at found
    split at found
    case isTrue eq =>
      exact absurd (eq ▸ List.mem_singleton_self source) out
    case isFalse => simp at found

section Expand

variable {current : Nat} {rest : List Nat}

theorem found_expand (g : Netlist stage) (source : Nat) (s : Search) (current : Nat)
    (rest : List Nat) (id : Nat) :
    (s.expand g source current rest).found[id]? =
      s.found[id]?.or (if id ∈ g.successors current then some (s.depth current + 1) else none) := by
  rw [expand, found_foldl, Std.TreeMap.getD_eq_getD_getElem?]
  rfl

theorem returned_expand (start : source ∈ s.found) :
    (s.expand g source current rest).returned =
      s.returned.or
        (if source ∈ g.successors current then some (s.depth current + 1) else none) := by
  have start' : source ∈ ({ s with queue := rest } : Search).found := start
  rw [expand, returned_foldl _ start', Std.TreeMap.getD_eq_getD_getElem?]
  rfl

theorem answer?_expand (start : source ∈ s.found) (id : Nat) :
    (s.expand g source current rest).answer? source id =
      (s.answer? source id).or
        (if id ∈ g.successors current then some (s.depth current + 1) else none) := by
  unfold answer?
  split
  case isTrue eq =>
    subst eq
    exact returned_expand start
  case isFalse => exact found_expand g source s current rest id

theorem depth_expand {id : Nat} (h : id ∈ s.found) :
    (s.expand g source current rest).depth id = s.depth id := by
  rw [Std.TreeMap.mem_iff_isSome_getElem?] at h
  obtain ⟨n, found⟩ := Option.isSome_iff_exists.1 h
  rw [depth, depth, found_expand, found, Option.some_or]

/-- What an expansion records is either old or one step beyond the node that is expanded. -/
theorem le_of_recorded {known : Option Nat} {mem : Prop} [Decidable mem] {d n : Nat}
    (near : ∀ m, known = some m → m ≤ d)
    (recorded : known.or (if mem then some d else none) = some n) : n ≤ d := by
  cases known with
  | some m =>
    rw [Option.some_or] at recorded
    exact near n recorded
  | none =>
    rw [Option.none_or] at recorded
    split at recorded
    · exact Nat.le_of_eq (Option.some.inj recorded).symm
    · cases recorded

/-- An edge from a node in the queue ends a path. -/
theorem Exact.path_step (h : s.Exact g source) {u target : Nat} (mem : u ∈ s.queue)
    (edge : target ∈ g.successors u) : g.WirePath source (s.depth u + 1) target := by
  obtain ⟨found, passes⟩ := h.queued u mem
  obtain ⟨n, found⟩ := Option.isSome_iff_exists.1 (Std.TreeMap.mem_iff_isSome_getElem?.1 found)
  by_cases eq : u = source
  · subst eq
    -- Leaving the source for the first time, whatever loop leads back to it.
    rw [depth_eq h.start]
    exact .edge edge
  · rw [depth_eq found]
    refine .through (h.path u n ?_) (passes.resolve_left eq) edge
    rw [answer?, if_neg eq, found]

/-- What the queue holds after an expansion: what was below, and wires found just now. -/
theorem queue_expand (g : Netlist stage) (source : Nat) (s : Search) (current : Nat)
    (rest : List Nat) :
    ∃ new, (s.expand g source current rest).queue = rest ++ new ∧
      (∀ u, u ∈ new ↔ u ∈ g.successors current ∧ u ∉ s.found ∧ g.isWire u = true) ∧
      ∀ u ∈ new, u ∈ (s.expand g source current rest).found ∧
        (s.expand g source current rest).depth u = s.depth current + 1 := by
  obtain ⟨new, eq, mem_new⟩ := queue_foldl g source (s.found.getD current 0 + 1)
    (g.successors current) { s with queue := rest }
  refine ⟨new, eq, mem_new, fun u mem => ?_⟩
  obtain ⟨target, fresh, -⟩ := (mem_new u).1 mem
  have found : (s.expand g source current rest).found[u]? = some (s.depth current + 1) := by
    rw [found_expand, Std.TreeMap.getElem?_eq_none fresh, if_pos target, Option.none_or]
  refine ⟨?_, depth_eq found⟩
  rw [Std.TreeMap.mem_iff_isSome_getElem?, found]
  rfl

theorem mem_found_expand {id : Nat} (h : id ∈ s.found) :
    id ∈ (s.expand g source current rest).found := by
  rw [Std.TreeMap.mem_iff_isSome_getElem?] at h ⊢
  rw [found_expand, Option.isSome_or, h, Bool.true_or]

section Keeps

variable (h : s.Exact g source) (queue : s.queue = current :: rest)

include h queue

theorem Exact.found_expand_le {id n : Nat}
    (found : (s.expand g source current rest).found[id]? = some n) : n ≤ s.depth current + 1 := by
  rw [found_expand] at found
  exact le_of_recorded (h.found_near current (queue ▸ List.mem_cons_self) id) found

theorem Exact.answer?_expand_le {id n : Nat}
    (answer : (s.expand g source current rest).answer? source id = some n) :
    n ≤ s.depth current + 1 := by
  have top : current ∈ s.queue := queue ▸ List.mem_cons_self
  unfold answer? at answer
  split at answer
  · rw [returned_expand h.start_mem] at answer
    exact le_of_recorded (h.returned_near current top) answer
  · exact h.found_expand_le queue answer

theorem Exact.path_expand {id n : Nat}
    (answer : (s.expand g source current rest).answer? source id = some n) :
    g.WirePath source n id := by
  rw [answer?_expand h.start_mem] at answer
  cases old : s.answer? source id with
  | some m =>
    rw [old, Option.some_or, Option.some.injEq] at answer
    exact answer ▸ h.path id m old
  | none =>
    rw [old, Option.none_or] at answer
    -- It is answered just now, because of an edge from the current node.
    split at answer
    case isTrue edge =>
      rw [← Option.some.inj answer]
      exact h.path_step (queue ▸ List.mem_cons_self) edge
    case isFalse => cases answer

/-- What was below in the queue keeps its depth, and is at least as far as the node expanded. -/
theorem Exact.depth_expand_rest {u : Nat} (mem : u ∈ rest) :
    (s.expand g source current rest).depth u = s.depth u ∧ s.depth current ≤ s.depth u ∧
      s.depth u ≤ s.depth current + 1 := by
  obtain ⟨found, -⟩ := h.queued u (queue ▸ List.mem_cons_of_mem _ mem)
  refine ⟨depth_expand found, ?_, ?_⟩
  · exact (List.pairwise_cons.1 (queue ▸ h.ascends)).1 u mem
  · obtain ⟨n, found⟩ := Option.isSome_iff_exists.1 (Std.TreeMap.mem_iff_isSome_getElem?.1 found)
    rw [depth_eq found]
    exact h.found_near current (queue ▸ List.mem_cons_self) u n found

theorem Exact.ascends_expand :
    (s.expand g source current rest).queue.Pairwise fun u v =>
      (s.expand g source current rest).depth u ≤ (s.expand g source current rest).depth v := by
  obtain ⟨new, eq, -, new_depth⟩ := queue_expand g source s current rest
  rw [eq, List.pairwise_append]
  refine ⟨?_, ?_, ?_⟩
  · -- what is left of the queue keeps its order
    refine (List.pairwise_cons.1 (queue ▸ h.ascends)).2.imp_of_mem fun {u v} hu hv le => ?_
    rw [(h.depth_expand_rest queue hu).1, (h.depth_expand_rest queue hv).1]
    exact le
  · -- what is queued now is all one step beyond the current node
    refine List.pairwise_of_forall_mem_list fun u hu v hv => ?_
    exact Nat.le_of_eq ((new_depth u hu).2.trans (new_depth v hv).2.symm)
  · -- and nothing that is left is further away than that
    intro u hu v hv
    rw [(new_depth v hv).2, (h.depth_expand_rest queue hu).1]
    exact (h.depth_expand_rest queue hu).2.2

/-- Whatever is queued after an expansion is at least as far as the node expanded. -/
theorem Exact.le_depth_expand {u : Nat} (mem : u ∈ (s.expand g source current rest).queue) :
    s.depth current ≤ (s.expand g source current rest).depth u := by
  obtain ⟨new, eq, -, new_depth⟩ := queue_expand g source s current rest
  rw [eq] at mem
  rcases List.mem_append.1 mem with old | fresh
  · rw [(h.depth_expand_rest queue old).1]
    exact (h.depth_expand_rest queue old).2.1
  · rw [(new_depth u fresh).2]
    exact Nat.le_succ _

/-- A node that has left the queue is closed, the one expanded just now included. -/
theorem Exact.closed_expand {u n : Nat}
    (found : (s.expand g source current rest).found[u]? = some n)
    (passes : u = source ∨ g.isWire u = true) (out : u ∉ (s.expand g source current rest).queue)
    {target : Nat} (edge : target ∈ g.successors u) :
    ∃ m, (s.expand g source current rest).answer? source target = some m ∧ m ≤ n + 1 := by
  obtain ⟨new, eq, mem_new, -⟩ := queue_expand g source s current rest
  rw [eq, List.mem_append, not_or] at out
  cases old : s.found[u]? with
  | none =>
    -- Found just now, it is a wire, and then it was queued.
    have fresh : u ∉ s.found := by
      rw [Std.TreeMap.mem_iff_isSome_getElem?, old]
      exact Bool.false_ne_true
    rw [found_expand, old, Option.none_or] at found
    have next : u ∈ g.successors current := by
      by_contra not
      rw [if_neg not] at found
      cases found
    rcases passes with rfl | wire
    · exact absurd h.start_mem fresh
    · exact absurd ((mem_new u).2 ⟨next, fresh, wire⟩) out.2
  | some d =>
    rw [found_expand, old, Option.some_or, Option.some.injEq] at found
    subst found
    by_cases same : u = current
    · -- it is the current node, all of whose successors are answered now
      subst same
      have answered : ((s.expand g source u rest).answer? source target).isSome := by
        rw [answer?_expand h.start_mem, if_pos edge, Option.isSome_or]
        exact Bool.or_true _
      obtain ⟨m, answer⟩ := Option.isSome_iff_exists.1 answered
      exact ⟨m, answer, depth_eq old ▸ h.answer?_expand_le queue answer⟩
    · have left : u ∉ s.queue := by
        rw [queue, List.mem_cons, not_or]
        exact ⟨same, out.1⟩
      -- It had left the queue before, and answers are never taken back.
      obtain ⟨m, answer, le⟩ := h.closed u d old passes left target edge
      exact ⟨m, by rw [answer?_expand h.start_mem, answer, Option.some_or], le⟩

/-- **Expanding the first node of the queue keeps the invariant.** -/
theorem Exact.expand : (s.expand g source current rest).Exact g source where
  start := by rw [found_expand, h.start, Option.some_or]
  path := fun id n answer => h.path_expand queue answer
  queued := by
    intro u mem
    obtain ⟨new, eq, mem_new, new_found⟩ := queue_expand g source s current rest
    rw [eq] at mem
    rcases List.mem_append.1 mem with old | fresh
    · -- queued before
      obtain ⟨found, passes⟩ := h.queued u (queue ▸ List.mem_cons_of_mem _ old)
      exact ⟨mem_found_expand found, passes⟩
    · -- queued just now, so it is a wire
      exact ⟨(new_found u fresh).1, .inr ((mem_new u).1 fresh).2.2⟩
  ascends := h.ascends_expand queue
  found_near := fun u mem id n found =>
    Nat.le_trans (h.found_expand_le queue found) (Nat.succ_le_succ (h.le_depth_expand queue mem))
  returned_near := by
    intro u mem n returned
    have answer : (s.expand g source current rest).answer? source source = some n := by
      rw [answer?, if_pos rfl, returned]
    exact Nat.le_trans (h.answer?_expand_le queue answer)
      (Nat.succ_le_succ (h.le_depth_expand queue mem))
  closed := fun u n found passes out target edge => h.closed_expand queue found passes out edge

end Keeps

end Expand

/-! ### The end of a search -/

/-- When the queue is empty, no path is shorter than what is recorded at its end. -/
theorem Exact.le_of_path (h : s.Exact g source) (queue : s.queue = []) {n id : Nat}
    (path : g.WirePath source n id) : ∃ m, s.answer? source id = some m ∧ m ≤ n := by
  have out (u : Nat) : u ∉ s.queue := by
    rw [queue]
    exact List.not_mem_nil
  induction path with
  -- The source is closed, so the first edge is answered at once.
  | edge edge => exact h.closed source 0 h.start (.inl rfl) (out source) _ edge
  -- The wire before the end is closed, so the end is answered one step beyond it at most.
  | @through length wire target _ isWire edge ih =>
    obtain ⟨m, answer, le⟩ := ih
    by_cases eq : wire = source
    · subst eq
      obtain ⟨k, answer, near⟩ := h.closed wire 0 h.start (.inl rfl) (out wire) _ edge
      exact ⟨k, answer, by omega⟩
    · rw [answer?, if_neg eq] at answer
      obtain ⟨k, answer, near⟩ := h.closed wire m answer (.inr isWire) (out wire) _ edge
      exact ⟨k, answer, by omega⟩

/-- **A search ends with the shortest distances.** -/
theorem Exact.answer?_run (h : s.Exact g source) (id n : Nat) :
    (s.run g source).answer? source id = some n ↔ IsLeast {n | g.WirePath source n id} n := by
  induction s using Search.run.induct g source with
  -- What is recorded is the length of a path, and no path is shorter.
  | case1 s queue =>
    rw [run_nil queue]
    refine ⟨?_, ?_⟩
    · intro answer
      refine ⟨h.path id n answer, fun k path => ?_⟩
      obtain ⟨m, eq, le⟩ := h.le_of_path queue path
      rw [answer, Option.some.injEq] at eq
      exact eq ▸ le
    · rintro ⟨path, least⟩
      obtain ⟨m, answer, le⟩ := h.le_of_path queue path
      rw [answer, Nat.le_antisymm le (least (h.path id m answer))]
  | case2 s current rest queue ih =>
    rw [run_cons queue]
    exact ih (h.expand queue)

theorem getElem?_distances (source : Nat) (s : Search) (id : Nat) :
    (s.distances source)[id]? = s.answer? source id := by
  unfold distances answer?
  by_cases eq : id = source
  · -- the source is listed if a way back was found
    subst eq
    rw [if_pos rfl]
    cases s.returned with
    | none => exact Std.TreeMap.getElem?_erase_self
    | some n => exact Std.TreeMap.getElem?_insert_self
  · -- all other nodes are listed as they were found
    have ne : ¬ compare source id = .eq := by
      rw [Std.LawfulEqCmp.compare_eq_iff_eq]
      exact fun h => eq h.symm
    rw [if_neg eq]
    cases s.returned with
    | none => rw [Std.TreeMap.getElem?_erase, if_neg ne]
    | some n => rw [Std.TreeMap.getElem?_insert, if_neg ne]

end Search

/-- Nothing leads from a number without a node. -/
theorem WirePath.source_lt {n id : Nat} (path : g.WirePath source n id) : source < g.size := by
  induction path with
  | edge edge =>
    by_contra out
    have absent : g.nodes[source]? = none := Array.getElem?_eq_none (Nat.le_of_not_lt out)
    simp [successors, absent] at edge
  | through _ _ _ ih => exact ih

/-- **The distances are exact**: a node is listed with the length of the shortest path to it whose
inner nodes are wires, and it is listed if there is such a path. -/
theorem mem_distances (g : Netlist stage) (source id n : Nat) :
    (id, n) ∈ g.distances source ↔ IsLeast {n | g.WirePath source n id} n := by
  unfold distances
  split
  case isTrue =>
    rw [Std.TreeMap.mem_toList_iff_getElem?_eq_some, Search.getElem?_distances]
    exact (Search.exact_start g source).answer?_run id n
  case isFalse out =>
    refine ⟨?_, ?_⟩
    · -- nothing is listed without a node to start from
      intro mem
      cases mem
    · -- and no path starts from there
      rintro ⟨path, -⟩
      exact absurd path.source_lt out

/-- The end of a path is listed, at a distance that is no longer than the path. -/
theorem exists_mem_distances {n id : Nat} (path : g.WirePath source n id) :
    ∃ m ≤ n, (id, m) ∈ g.distances source := by
  classical
  have some : ∃ k, g.WirePath source k id := ⟨n, path⟩
  refine ⟨Nat.find some, Nat.find_min' some path, (mem_distances g source id _).2 ?_⟩
  exact ⟨Nat.find_spec some, fun k other => Nat.find_min' some other⟩

/-- The nodes are listed in ascending order, each of them once. -/
theorem pairwise_distances (g : Netlist stage) (source : Nat) :
    (g.distances source).Pairwise fun a b => a.1 < b.1 := by
  unfold distances
  split
  · exact Std.TreeMap.ordered_keys_toList.imp Nat.compare_eq_lt.1
  · exact List.Pairwise.nil

end TorchLogic.Netlist
