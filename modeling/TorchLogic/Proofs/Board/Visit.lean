import TorchLogic.Proofs.Board.Progress

/-!
# Visiting a component

The first visit of a wire, torch or nested circuit gives its position a node. A nested circuit
brings the nodes of its sides along, with the edges between them and it; otherwise there is no edge
yet. So one description does for all three kinds (`Netlist.Adds`), and a visit makes progress: what
powers the component, or a side of it, is owed from then on (`Board.Progress.visit`).
-/

namespace TorchLogic

namespace Netlist

variable {g g' : Netlist .wired} {c : Component} {id : Nat}

/-- **What a netlist is with one component more**, and the sides of that component if it is a nested
circuit. -/
structure Adds (g g' : Netlist .wired) (c : Component) : Prop where
  /-- The netlist is well formed. -/
  wf : g'.WellFormed
  /-- The component is there. -/
  here : g'.component? g.size = some c
  /-- The nodes are the old ones, the component, and its sides. -/
  node : ∀ id x, g'.component? id = some x → id < g.size ∧ g.component? id = some x ∨
    id = g.size ∧ x = c ∨ (∃ side, x = .circuitInput side g.size) ∨
    ∃ side, x = .circuitOutput side g.size
  /-- The old nodes are as they were. -/
  old : ∀ id x, g.component? id = some x → g'.component? id = some x
  /-- The edges are the old ones, and those between the component and its sides. -/
  drives : ∀ x y, g'.Drives x y ↔ g.Drives x y ∨
    y = g.size ∧ (∃ side, g'.component? x = some (.circuitInput side g.size)) ∨
    x = g.size ∧ ∃ side, g'.component? y = some (.circuitOutput side g.size)

theorem adds_push (h : g.WellFormed) (free : c.drivesFreely = true)
    (driven : c.drivenFreely = true) : g.Adds (g.push c) c where
  wf := h.push free driven fun reduced => by cases reduced
  here := component?_push_self g c
  node := by
    intro id x stands
    rcases component?_push_cases stands with old | new
    · exact .inl ⟨lt_size_of_component? old, old⟩
    · exact .inr (.inl new)
  old := fun id x stands => component?_push_of_some stands
  drives := by
    intro x y
    -- No node is a child of the new one: an old child has an old circuit.
    have noInput (side : Side) : (g.push c).component? x ≠ some (.circuitInput side g.size) := by
      intro stands
      rcases component?_push_cases stands with old | ⟨-, rfl⟩
      · obtain ⟨-, t, i, ho, -⟩ := h.circuitInput _ _ _ old
        exact Nat.lt_irrefl _ (lt_size_of_component? ho)
      · cases free
    have noOutput (side : Side) : (g.push c).component? y ≠ some (.circuitOutput side g.size) := by
      intro stands
      rcases component?_push_cases stands with old | ⟨-, rfl⟩
      · obtain ⟨-, t, i, ho, -⟩ := h.circuitOutput _ _ _ old
        exact Nat.lt_irrefl _ (lt_size_of_component? ho)
      · cases driven
    simp only [Drives, drivers_push, noInput, noOutput, exists_false, and_false, or_false]

theorem adds_addCircuit (h : g.WellFormed) (t : TruthTable) :
    g.Adds (g.addCircuit t).2 (.circuit t) where
  wf := h.addCircuit t
  here := component?_addCircuit_circuit g t
  node := by
    intro id x stands
    rcases component?_addCircuit_cases stands with old | new | ⟨i, lt, -, rfl⟩ | ⟨i, lt, -, rfl⟩
    · exact .inl old
    · exact .inr (.inl new)
    · exact .inr (.inr (.inl ⟨_, rfl⟩))
    · exact .inr (.inr (.inr ⟨_, rfl⟩))
  old := by
    intro id x stands
    rw [component?_addCircuit_of_lt (lt_size_of_component? stands)]
    exact stands
  drives := by
    intro x y
    rw [Drives, mem_drivers_addCircuit]
    refine or_congr_right (or_congr ?_ ?_)
    · refine ⟨?_, ?_⟩
      · rintro ⟨i, lt, rfl, rfl⟩
        exact ⟨rfl, _, component?_addCircuit_input lt⟩
      -- Whatever claims to be a child of the new circuit is in its block.
      · rintro ⟨rfl, side, stands⟩
        rcases component?_addCircuit_cases stands with
          ⟨-, old⟩ | ⟨-, new⟩ | ⟨i, lt, rfl, -⟩ | ⟨i, lt, -, new⟩
        · obtain ⟨-, u, i, ho, -⟩ := h.circuitInput _ _ _ old
          exact absurd (lt_size_of_component? ho) (Nat.lt_irrefl _)
        · cases new
        · exact ⟨i, lt, rfl, rfl⟩
        · cases new
    · refine ⟨?_, ?_⟩
      · -- the same, from the circuit to its outputs
        rintro ⟨i, lt, rfl, rfl⟩
        exact ⟨rfl, _, component?_addCircuit_output lt⟩
      · rintro ⟨rfl, side, stands⟩
        rcases component?_addCircuit_cases stands with
          ⟨-, old⟩ | ⟨-, new⟩ | ⟨i, lt, -, new⟩ | ⟨i, lt, rfl, -⟩
        · obtain ⟨-, u, i, ho, -⟩ := h.circuitOutput _ _ _ old
          exact absurd (lt_size_of_component? ho) (Nat.lt_irrefl _)
        · cases new
        · cases new
        · exact ⟨i, lt, rfl, rfl⟩

end Netlist

namespace Board

variable {b : Board} {w : World} {inputs outputs : List (Facing × NodeId)} {g g' : Netlist .wired}
  {visited : List (Position × NodeId)} {owed : NodeId → Terminal → Prop} {c : Component}
  {p q : Position} {id : Nat} {s t : Terminal}

theorem nodeAt?_cons (p : Position) (n : Nat) (visited : List (Position × NodeId)) (q : Position) :
    nodeAt? ((p, n) :: visited) q = if q = p then some n else nodeAt? visited q := by
  rw [nodeAt?, List.lookup_cons]
  by_cases eq : q = p
  · rw [if_pos eq, eq, beq_self_eq_true]
  · rw [if_neg eq, beq_false_of_ne eq]
    rfl

theorem nodeAt?_cons_self (p : Position) (n : Nat) (visited : List (Position × NodeId)) :
    nodeAt? ((p, n) :: visited) p = some n := by
  rw [nodeAt?_cons, if_pos rfl]

/-- **What is owed at a position**: the power that terminals there take, of those that take it
freely. -/
def OwedAt (b : Board) (w : World) (g : Netlist .wired) (visited : List (Position × NodeId))
    (p : Position) (y : NodeId) (s : Terminal) : Prop :=
  ∃ t, NodeOf g visited y t ∧ t.position? = some p ∧ t.takes = true ∧ b.Powers w s t

section Visit

variable (h : b.Progress w inputs outputs g visited owed) (adds : g.Adds g' c)
  (fresh : nodeAt? visited p = none) (isPlaced : c.isPlaced = true)
  (stands : w.component? p = some c)

include fresh in
theorem nodeAt?_cons_of_some {n : Nat} (here : nodeAt? visited q = some id) :
    nodeAt? ((p, n) :: visited) q = some id := by
  rw [nodeAt?_cons, if_neg]
  · exact here
  · rintro rfl
    rw [fresh] at here
    cases here

include adds fresh in
/-- A visit keeps the nodes that there were. -/
theorem NodeOf.kept (node : NodeOf g visited id t) : NodeOf g' ((p, g.size) :: visited) id t :=
  node.mono adds.old fun _ _ here => nodeAt?_cons_of_some fresh here

include h adds isPlaced in
/-- Every node after a visit is an old one, or that of a terminal at the position. -/
theorem NodeOf.old_or_new (node : NodeOf g' ((p, g.size) :: visited) id t) :
    NodeOf g visited id t ∨ t.position? = some p := by
  obtain ⟨x, q, there, rfl, home⟩ := node.exists_component
  by_cases at_p : (x.terminal q).position? = some p
  · exact .inr at_p
  -- At another position there is the node that there was, which is not the new one.
  have elsewhere {k : Nat} (own : x.home id = some k) :
      nodeAt? visited q = some k ∧ k < g.size := by
    have here := home k own
    rw [nodeAt?_cons, if_neg] at here
    · obtain ⟨-, y, -, old⟩ := h.placed q k here
      exact ⟨here, Netlist.lt_size_of_component? old⟩
    · rintro rfl
      exact at_p (Component.position?_terminal own)
  have notNew (own : x.home id = some g.size) : False := Nat.lt_irrefl _ (elsewhere own).2
  rcases adds.node id x there with ⟨-, old⟩ | ⟨rfl, rfl⟩ | ⟨side, rfl⟩ | ⟨side, rfl⟩
  · exact .inl (.of_component old fun k own => (elsewhere own).1)
  · exact (notNew (Component.home_of_isPlaced isPlaced)).elim
  · exact (notNew rfl).elim
  · exact (notNew rfl).elim

include adds stands in
/-- The table of a nested circuit is that of its node. -/
theorem circuitAt_of_new (covered : b.covers p = true) {table : TruthTable}
    (there : g'.component? g.size = some (.circuit table)) :
    ∃ facing, b.CircuitAt w p facing table := by
  rw [adds.here, Option.some.injEq] at there
  rw [there] at stands
  obtain ⟨facing, block, kept⟩ := World.component?_eq_circuit.1 stands
  exact ⟨facing, covered, block, kept⟩

include adds stands in
/-- A node of a terminal at the position is that of something there. -/
theorem NodeOf.stands_of_new (covered : b.covers p = true)
    (node : NodeOf g' ((p, g.size) :: visited) id t) (new : t.position? = some p) :
    b.Stands w t := by
  -- At the new position there is only the new node, so what stands there is what was added.
  have isNew {k : Nat} (here : nodeAt? ((p, g.size) :: visited) p = some k) : k = g.size := by
    rw [nodeAt?_cons_self] at here
    exact (Option.some.inj here).symm
  cases t with
  | input f | output f => cases new
  | wire q =>
    obtain rfl := Option.some.inj new
    obtain ⟨here, there⟩ := node
    rw [isNew here, adds.here] at there
    rw [there] at stands
    exact ⟨covered, World.component?_eq_wire.1 stands⟩
  | torch q =>
    obtain rfl := Option.some.inj new
    obtain ⟨here, there⟩ := node
    rw [isNew here, adds.here] at there
    rw [there] at stands
    exact ⟨covered, World.component?_eq_torch.1 stands⟩
  | circuit q =>
    obtain rfl := Option.some.inj new
    obtain ⟨here, table, there⟩ := node
    rw [isNew here] at there
    obtain ⟨facing, circuit⟩ := circuitAt_of_new adds stands covered there
    exact ⟨facing, table, circuit⟩
  | circuitInput q side =>
    -- a side of the circuit that was added
    obtain rfl := Option.some.inj new
    obtain ⟨owner, here, there⟩ := node
    obtain ⟨-, table, i, owned, listed, -⟩ := adds.wf.circuitInput _ _ _ there
    rw [isNew here] at owned
    obtain ⟨facing, circuit⟩ := circuitAt_of_new adds stands covered owned
    exact ⟨facing, table, circuit, List.mem_of_getElem? listed⟩
  | circuitOutput q side =>
    obtain rfl := Option.some.inj new
    obtain ⟨owner, here, there⟩ := node
    obtain ⟨-, table, i, owned, listed, -⟩ := adds.wf.circuitOutput _ _ _ there
    rw [isNew here] at owned
    obtain ⟨facing, circuit⟩ := circuitAt_of_new adds stands covered owned
    exact ⟨facing, table, circuit, List.mem_of_getElem? listed⟩

include h in
/-- No two positions have one number, for the new one belongs to none that was visited before. -/
theorem position_unique_cons {q r : Position} (hq : nodeAt? ((p, g.size) :: visited) q = some id)
    (hr : nodeAt? ((p, g.size) :: visited) r = some id) : q = r := by
  have apart {q : Position} (here : nodeAt? visited q = some g.size) : False := by
    obtain ⟨-, x, -, old⟩ := h.placed q _ here
    exact Nat.lt_irrefl _ (Netlist.lt_size_of_component? old)
  rw [nodeAt?_cons] at hq hr
  split at hq
  case isTrue eq =>
    split at hr
    case isTrue eq' => rw [eq, eq']
    case isFalse =>
      rw [← Option.some.inj hq] at hr
      exact (apart hr).elim
  case isFalse =>
    split at hr
    case isTrue =>
      rw [← Option.some.inj hr] at hq
      exact (apart hq).elim
    case isFalse => exact h.distinct q r id hq hr

include adds stands in
/-- Of what powers the new nodes, a circuit and its outputs have their edges with the visit; all
else is owed. -/
theorem NodeOf.drives_or_owed (covered : b.covers p = true)
    (node : NodeOf g' ((p, g.size) :: visited) id t) (new : t.position? = some p)
    (power : b.Powers w s t) :
    (∃ x, NodeOf g' ((p, g.size) :: visited) x s ∧ g'.Drives x id) ∨
      b.OwedAt w g' ((p, g.size) :: visited) p id s := by
  have here := nodeAt?_cons_self p g.size visited
  have isNew {k : Nat} (new : nodeAt? ((p, g.size) :: visited) p = some k) : k = g.size :=
    (Option.some.inj (here.symm.trans new)).symm
  cases t with
  | input | output => cases new
  | wire | torch | circuitInput => exact .inr ⟨_, node, new, rfl, power⟩
  | circuit q =>
    -- what powers a circuit is one of its input sides
    obtain rfl := Option.some.inj new
    obtain ⟨here', table, there⟩ := node
    obtain rfl := isNew here'
    obtain ⟨facing, circuit⟩ := circuitAt_of_new adds stands covered there
    obtain ⟨_, _, side, circuit', listed, rfl⟩ := powers_circuit_iff.1 power
    obtain ⟨rfl, rfl⟩ := circuit.unique circuit'
    obtain ⟨i, hi⟩ := List.mem_iff_getElem?.1 listed
    have child := adds.wf.inputChild _ _ i side there hi
    exact .inl ⟨_, ⟨_, here, child⟩, (adds.drives _ _).2 (.inr (.inl ⟨rfl, side, child⟩))⟩
  | circuitOutput q side =>
    -- and an output side is powered by the circuit
    obtain rfl := Option.some.inj new
    obtain ⟨owner, here', there⟩ := node
    obtain rfl := isNew here'
    obtain ⟨rfl, -⟩ := powers_circuitOutput_iff.1 power
    obtain ⟨-, table, i, owned, -⟩ := adds.wf.circuitOutput _ _ _ there
    exact .inl ⟨_, ⟨here, table, owned⟩, (adds.drives _ _).2 (.inr (.inr ⟨rfl, side, there⟩))⟩

include h adds fresh isPlaced stands in
/-- **A visit makes progress**: the new nodes are terminals of the circuit on the board, and what is
owed from then on is owed at the position. -/
theorem Progress.visit (covered : b.covers p = true)
    (present : ∀ t, t.position? = some p → b.Stands w t → b.Present w t) :
    b.Progress w inputs outputs g' ((p, g.size) :: visited) fun y s =>
      owed y s ∨ b.OwedAt w g' ((p, g.size) :: visited) p y s where
  wf := adds.wf
  placed := by
    intro q id here
    rw [nodeAt?_cons] at here
    split at here
    case isTrue eq =>
      rw [eq, ← Option.some.inj here]
      exact ⟨covered, c, stands, adds.here⟩
    case isFalse =>
      obtain ⟨covered, x, there, old⟩ := h.placed q id here
      exact ⟨covered, x, there, adds.old id x old⟩
  distinct := fun q r id hq hr => position_unique_cons h hq hr
  found := by
    intro id x there placed
    rcases adds.node id x there with ⟨-, old⟩ | ⟨rfl, -⟩ | ⟨_, rfl⟩ | ⟨_, rfl⟩
    · obtain ⟨q, here⟩ := h.found id x old placed
      exact ⟨q, nodeAt?_cons_of_some fresh here⟩
    · exact ⟨p, nodeAt?_cons_self p _ visited⟩
    · cases placed
    · cases placed
  input := by
    intro f id
    rw [← h.input]
    refine ⟨fun there => ?_, adds.old id _⟩
    rcases NodeOf.old_or_new h adds isPlaced (t := .input f) (p := p) there with old | new
    · exact old
    · cases new
  output := by
    intro f id
    rw [← h.output]
    refine ⟨fun there => ?_, adds.old id _⟩
    rcases NodeOf.old_or_new h adds isPlaced (t := .output f) (p := p) there with old | new
    · exact old
    · cases new
  present := by
    intro id t node
    rcases node.old_or_new h adds isPlaced with old | new
    · exact h.present id t old
    · exact present t new (node.stands_of_new adds stands covered new)
  sound := by
    intro x y edge
    have here := nodeAt?_cons_self p g.size visited
    rcases (adds.drives x y).1 edge with old | ⟨rfl, side, there⟩ | ⟨rfl, side, there⟩
    · -- an edge that there was
      obtain ⟨s, t, hx, hy, power⟩ := h.sound x y old
      exact ⟨s, t, hx.kept adds fresh, hy.kept adds fresh, power⟩
    · -- an edge of the new circuit, from an input or to an output
      obtain ⟨-, table, i, owned, listed, -⟩ := adds.wf.circuitInput _ _ _ there
      obtain ⟨facing, circuit⟩ := circuitAt_of_new adds stands covered owned
      exact ⟨.circuitInput p side, .circuit p, ⟨_, here, there⟩, ⟨here, table, owned⟩,
        .circuitIn circuit (List.mem_of_getElem? listed)⟩
    · obtain ⟨-, table, i, owned, listed, -⟩ := adds.wf.circuitOutput _ _ _ there
      obtain ⟨facing, circuit⟩ := circuitAt_of_new adds stands covered owned
      exact ⟨.circuit p, .circuitOutput p side, ⟨here, table, owned⟩, ⟨_, here, there⟩,
        .circuitOut circuit (List.mem_of_getElem? listed)⟩
  complete := by
    intro y t s node power
    rcases node.old_or_new h adds isPlaced with old | new
    · rcases h.complete y t s old power with ⟨x, hx, edge⟩ | owes
      · exact .inl ⟨x, hx.kept adds fresh, (adds.drives x y).2 (.inl edge)⟩
      · exact .inr (.inl owes)
    · exact (node.drives_or_owed adds stands covered new power).imp_right .inr

end Visit

end Board

end TorchLogic
