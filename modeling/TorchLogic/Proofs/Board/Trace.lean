import Mathlib.Data.List.Nodup
import Mathlib.Data.Set.Function
import TorchLogic.Proofs.Board.Follow
import TorchLogic.Proofs.Fallible

/-!
# The traced circuit is what powers the outputs

Tracing a board succeeds, and the netlist is determined by the board and the world up to the numbers
of its nodes: there is one node for each terminal that belongs to the circuit on the board, and
there is an edge between two nodes exactly where the one terminal powers the other
(`Board.exists_trace_isCircuitOn`). The order in which positions are reached leaves no mark but the
numbers.

The nodes of the sockets come first, and nothing is owed for an input socket; the node of an output
socket owes what its seeds stand for, and following them pays for that.
-/

namespace TorchLogic

/-- **The component that the node of a terminal holds**, given the nodes of all terminals. -/
def Terminal.component? (w : World) (node : Terminal → NodeId) : Terminal → Option Component
  | input f => some (.input f)
  | output f => some (.output f)
  | wire _ => some .wire
  | torch _ => some .torch
  | circuit p => (w.table? p).map .circuit
  | circuitInput p side => some (.circuitInput side (node (circuit p)))
  | circuitOutput p side => some (.circuitOutput side (node (circuit p)))

namespace Board

/-- **Whether a netlist is the circuit on a board**, given the node of each terminal. -/
structure IsCircuitOn (b : Board) (w : World) (g : Netlist .wired) (node : Terminal → NodeId) :
    Prop where
  /-- Edges are kept in order at both ends, and so are the nodes of the sockets. -/
  wf : g.WellFormed
  /-- The nodes are those of the terminals of the circuit, one each. -/
  nodes : Set.BijOn node {t | b.Present w t} {id | id < g.size}
  /-- They hold the components that the terminals are of. -/
  component : ∀ t, b.Present w t → g.component? (node t) = t.component? w node
  /-- What powers something has an edge to it, and nothing else has. -/
  drives : ∀ s t, b.Present w s → b.Present w t → (g.Drives (node s) (node t) ↔ b.Powers w s t)

variable {b : Board} {w : World} {inputs outputs : List (Facing × NodeId)} {g g' : Netlist .wired}
  {visited : List (Position × NodeId)} {owed owed' : NodeId → Terminal → Prop} {f : Facing}
  {c : Component} {id : Nat} {s t : Terminal}

theorem Progress.empty :
    b.Progress w [] [] Netlist.empty [] fun _ _ => False where
  wf := .empty
  placed := fun p id here => by cases here
  distinct := fun p q id here => by cases here
  found := fun id c stands => by cases stands
  input := fun f id => ⟨(fun stands => nomatch stands), fun found => nomatch found⟩
  output := fun f id => ⟨(fun stands => nomatch stands), fun found => nomatch found⟩
  present := fun id t node => absurd node.lt_size (Nat.not_lt_zero id)
  sound := by
    intro x y edge
    have wf : (Netlist.empty : Netlist .wired).WellFormed := .empty
    exact absurd (wf.lt_of_mem_drivers edge).1 (Nat.not_lt_zero x)
  complete := fun y t s node => absurd node.lt_size (Nat.not_lt_zero y)

/-! ### The nodes of the sockets -/

theorem lookup_append_iff {l : List (Facing × NodeId)} {f f' : Facing} {n : Nat}
    (free : l.lookup f = none) :
    (l ++ [(f, n)]).lookup f' = some id ↔ l.lookup f' = some id ∨ f' = f ∧ id = n := by
  rw [List.lookup_append, List.lookup_cons, List.lookup_nil]
  by_cases same : f' = f
  · rw [same, free, beq_self_eq_true]
    simp [eq_comm]
  · rw [beq_false_of_ne same]
    simp [same]

section AddSocket

variable {kind : Facing → Component} {l : List (Facing × NodeId)}

/-- The nodes of a kind of socket are listed after one more was added and listed. -/
theorem listed_push (inj : ∀ f f', kind f = kind f' → f = f')
    (listed : ∀ f id, g.component? id = some (kind f) ↔ l.lookup f = some id)
    (free : l.lookup f = none) (f' : Facing) (id : NodeId) :
    (g.push (kind f)).component? id = some (kind f') ↔
      (l ++ [(f, g.size)]).lookup f' = some id := by
  rw [lookup_append_iff free, Netlist.component?_push, ← listed]
  split
  case isTrue new =>
    -- The new number was free, so it is the socket just added.
    have none_yet : g.component? id ≠ some (kind f') := fun old =>
      absurd (Netlist.lt_size_of_component? old) (new ▸ Nat.lt_irrefl _)
    rw [Option.some.injEq]
    refine ⟨fun eq => .inr ⟨(inj _ _ eq).symm, new⟩, ?_⟩
    rintro (old | ⟨rfl, -⟩)
    · exact absurd old none_yet
    · rfl
  case isFalse ne =>
    exact ⟨.inl, fun known => known.resolve_right fun new => ne new.2⟩

/-- The nodes of another kind of socket stay listed. -/
theorem listed_push_of_ne (ne : ∀ f, kind f ≠ c)
    (listed : ∀ f id, g.component? id = some (kind f) ↔ l.lookup f = some id) (f : Facing)
    (id : NodeId) : (g.push c).component? id = some (kind f) ↔ l.lookup f = some id := by
  rw [← listed, Netlist.component?_push]
  split
  case isTrue new =>
    refine ⟨fun eq => absurd (Option.some.inj eq).symm (ne f), fun old => ?_⟩
    exact absurd (Netlist.lt_size_of_component? old) (new ▸ Nat.lt_irrefl _)
  case isFalse => rfl

variable {inputs' outputs' : List (Facing × NodeId)}

/-- **Adding the node of a socket** keeps the invariant, if what powers the socket is owed. -/
theorem Progress.addSocket (h : b.Progress w inputs outputs g visited owed)
    (home : c.home g.size = none) (terminal : ∀ p, c.terminal p = t) (present : b.Present w t)
    (input : ∀ f id, (g.push c).component? id = some (.input f) ↔ inputs'.lookup f = some id)
    (output : ∀ f id, (g.push c).component? id = some (.output f) ↔ outputs'.lookup f = some id)
    (keeps : ∀ y s, owed y s → owed' y s) (owes : ∀ s, b.Powers w s t → owed' g.size s) :
    b.Progress w inputs' outputs' (g.push c) visited owed' := by
  have old_node {id : Nat} {s : Terminal} (node : NodeOf g visited id s) :
      NodeOf (g.push c) visited id s :=
    node.mono (fun _ _ => Netlist.component?_push_of_some) fun _ _ here => here
  -- A socket has no position, so the visits have nothing to say of the new node.
  have new_node {id : Nat} {s : Terminal} (node : NodeOf (g.push c) visited id s) :
      NodeOf g visited id s ∨ id = g.size ∧ s = t := by
    obtain ⟨x, p, stands, rfl, at_home⟩ := node.exists_component
    rcases Netlist.component?_push_cases stands with old | ⟨rfl, rfl⟩
    · exact .inl (.of_component old at_home)
    · exact .inr ⟨rfl, terminal p⟩
  exact {
    wf := by
      refine h.wf.push ?_ ?_ fun reduced => by cases reduced
      · cases c <;> first | rfl | cases home
      · cases c <;> first | rfl | cases home
    placed := by
      intro p id here
      obtain ⟨covered, x, stands, old⟩ := h.placed p id here
      exact ⟨covered, x, stands, Netlist.component?_push_of_some old⟩
    distinct := h.distinct
    found := by
      intro id x stands placed
      rcases Netlist.component?_push_cases stands with old | ⟨rfl, rfl⟩
      · exact h.found id x old placed
      · rw [Component.home_of_isPlaced placed] at home
        cases home
    input := input
    output := output
    present := by
      intro id s node
      rcases new_node node with old | ⟨-, rfl⟩
      · exact h.present id s old
      · exact present
    sound := by
      intro x y edge
      rw [Netlist.Drives, Netlist.drivers_push] at edge
      obtain ⟨s, r, hx, hy, power⟩ := h.sound x y edge
      exact ⟨s, r, old_node hx, old_node hy, power⟩
    complete := by
      intro y r s node power
      rcases new_node node with old | ⟨rfl, rfl⟩
      · rcases h.complete y r s old power with ⟨x, hx, edge⟩ | owes
        · refine .inl ⟨x, old_node hx, ?_⟩
          rw [Netlist.Drives, Netlist.drivers_push]
          exact edge
        · exact .inr (keeps y s owes)
      · exact .inr (owes s power) }

/-- Nothing is owed for an input socket. -/
theorem Progress.addInput (h : b.Progress w inputs outputs g visited owed)
    (role : b.role f = .input) (free : inputs.lookup f = none) :
    b.Progress w (inputs ++ [(f, g.size)]) outputs (g.push (.input f)) visited owed :=
  h.addSocket (t := .input f) rfl (fun _ => rfl) (.input role)
    (listed_push (fun _ _ => Component.input.inj) h.input free)
    (listed_push_of_ne (fun _ => Component.noConfusion) h.output)
    (fun _ _ owes => owes) fun _ power => absurd power not_powers_input

/-- What powers an output socket is owed. -/
theorem Progress.addOutput (h : b.Progress w inputs outputs g visited owed)
    (role : b.role f = .output) (free : outputs.lookup f = none) :
    b.Progress w inputs (outputs ++ [(f, g.size)]) (g.push (.output f)) visited
      fun y s => owed y s ∨ y = g.size ∧ b.Powers w s (.output f) :=
  h.addSocket (t := .output f) rfl (fun _ => rfl) (.traced ⟨f, role, .refl⟩)
    (listed_push_of_ne (fun _ => Component.noConfusion) h.input)
    (listed_push (fun _ _ => Component.output.inj) h.output free)
    (fun _ _ owes => .inl owes) fun _ power => .inr ⟨rfl, power⟩

end AddSocket

/-! ### The whole trace -/

theorem nodup_sidesWith (r : SocketRole) : (b.sidesWith r).Nodup :=
  List.Pairwise.filter _ (by decide)

/-- **The nodes of sockets, listed in the order of their sides**: one for each side, and ascending.
-/
structure InOrder (sides : List Facing) (l : List (Facing × NodeId)) : Prop where
  sides_eq : l.map Prod.fst = sides
  distinct : sides.Nodup
  ascends : (l.map Prod.snd).Pairwise (· < ·)

namespace InOrder

variable {sides : List Facing} {l : List (Facing × NodeId)}

theorem nil : InOrder [] [] where
  sides_eq := rfl
  distinct := List.nodup_nil
  ascends := .nil

theorem exists_lookup_iff (h : InOrder sides l) (f : Facing) :
    (∃ id, l.lookup f = some id) ↔ f ∈ sides := by
  rw [← Option.isSome_iff_exists, List.lookup_isSome_iff, ← h.sides_eq, List.mem_map]
  simp only [beq_iff_eq, eq_comm (a := f)]

theorem lookup_of_fresh (h : InOrder sides l) (fresh : f ∉ sides) : l.lookup f = none := by
  rw [Option.eq_none_iff_forall_ne_some]
  exact fun id found => fresh ((h.exists_lookup_iff f).1 ⟨id, found⟩)

/-- What is listed for a side is what is found for it. -/
theorem mem_iff (h : InOrder sides l) : (f, id) ∈ l ↔ l.lookup f = some id := by
  -- What is found is listed, and what is listed is found since no side comes twice.
  have mem_of_lookup {k : Nat} (found : l.lookup f = some k) : (f, k) ∈ l := by
    obtain ⟨before, after, split, -⟩ := List.lookup_eq_some_iff.1 found
    rw [split]
    exact List.mem_append_right before List.mem_cons_self
  refine ⟨fun mem => ?_, mem_of_lookup⟩
  have side : f ∈ sides := by
    rw [← h.sides_eq]
    exact List.mem_map_of_mem (f := Prod.fst) mem
  obtain ⟨k, found⟩ := (h.exists_lookup_iff f).2 side
  -- A side is listed once.
  have nodup : (l.map Prod.fst).Nodup := by
    rw [h.sides_eq]
    exact h.distinct
  have same := List.inj_on_of_nodup_map nodup mem (mem_of_lookup found) rfl
  rw [found, (Prod.mk.inj same).2]

/-- One more socket, with a number above the others. -/
theorem append (h : InOrder sides l) (fresh : f ∉ sides) {n : Nat}
    (above : ∀ f' id, l.lookup f' = some id → id < n) : InOrder (sides ++ [f]) (l ++ [(f, n)]) where
  sides_eq := by rw [List.map_append, h.sides_eq]; rfl
  distinct := List.nodup_append.2 ⟨h.distinct, List.nodup_singleton f, by
    rintro f' mem f'' last rfl
    rw [List.mem_singleton.1 last] at mem
    exact fresh mem⟩
  ascends := by
    rw [List.map_append, List.pairwise_append]
    refine ⟨h.ascends, List.pairwise_singleton _ _, fun id mem k last => ?_⟩
    obtain ⟨⟨f', _⟩, listed, rfl⟩ := List.mem_map.1 mem
    rw [List.map_singleton, List.mem_singleton] at last
    rw [last]
    exact above f' _ (h.mem_iff.1 listed)

end InOrder

theorem Progress.lt_of_input (h : b.Progress w inputs outputs g visited owed) (f : Facing)
    (id : NodeId) (found : inputs.lookup f = some id) : id < g.size :=
  Netlist.lt_size_of_component? ((h.input f id).2 found)

theorem Progress.lt_of_output (h : b.Progress w inputs outputs g visited owed) (f : Facing)
    (id : NodeId) (found : outputs.lookup f = some id) : id < g.size :=
  Netlist.lt_size_of_component? ((h.output f id).2 found)

/-- **Adding the input sockets** succeeds. -/
theorem exists_addInputs (b : Board) (w : World) : ∃ st, b.addInputs = .ok st ∧
    b.Progress w st.2 [] st.1 [] (fun _ _ => False) ∧ InOrder b.inputs st.2 := by
  unfold addInputs
  refine foldlM_ok (x := (Netlist.empty, [])) (P :=
    fun done (st : Netlist .wired × List (Facing × NodeId)) =>
      b.Progress w st.2 [] st.1 [] (fun _ _ => False) ∧ InOrder done st.2)
    (nodup_sidesWith (b := b) .input) ⟨Progress.empty, .nil⟩ ?_
  · -- each side adds its socket, under the next number
    intro done f st mem fresh ⟨h, order⟩
    have role := mem_sidesWith.1 mem
    refine ⟨(st.1.push (.input f), st.2 ++ [(f, st.1.size)]), ?_,
      h.addInput role (order.lookup_of_fresh fresh), order.append fresh h.lt_of_input⟩
    have added : st.1.addInput (b.socket f).socket = .ok (st.1.size, st.1.push (.input f)) :=
      if_pos role
    simp only [added, bind, Except.bind]

/-- Follows the feeds of an output socket. -/
def followOutput (b : Board) (w : World) (inputs : List (Facing × NodeId))
    (st : Netlist .wired × List (Position × NodeId)) (f : Facing) :
    Except BuildError (Netlist .wired × List (Position × NodeId)) := do
  let n ← (st.1.addOutput (b.socket f).socket).mapError .netlist
  b.follow w inputs n.2 st.2
    (((socketBlocks b.corner f).flatMap fun p => wireFeed w p.above).map (n.1, ·))

/-- The output sockets are followed one after the other. -/
theorem trace_eq (b : Board) (w : World) : b.trace w = (do
    let start ← b.addInputs.mapError .netlist
    let traced ← b.outputs.foldlM (b.followOutput w start.2) (start.1, [])
    .ok traced.1) := rfl

/-- **Tracing an output socket** succeeds, and then nothing is owed. -/
theorem Progress.traceOutput (h : b.Progress w inputs outputs g visited fun _ _ => False)
    (ready : ∀ f, b.role f = .input → ∃ input, inputs.lookup f = some input)
    (role : b.role f = .output) (free : outputs.lookup f = none) :
    ∃ g' visited', b.follow w inputs (g.push (.output f)) visited
        (((socketBlocks b.corner f).flatMap fun p => wireFeed w p.above).map (g.size, ·)) =
          .ok (g', visited') ∧
      b.Progress w inputs (outputs ++ [(f, g.size)]) g' visited' fun _ _ => False := by
  have node : NodeOf (g.push (.output f)) visited g.size (.output f) :=
    Netlist.component?_push_self g (.output f)
  obtain ⟨due, owed⟩ := due_of_lists (lists_outputFeeds role) node rfl fun _ power => power
  refine ((h.addOutput role free).weaken fun y t s _ _ owes => ?_).follow ready due
  -- The new node is owed what the blocks of its socket carry, and that is what is pending.
  obtain ⟨rfl, power⟩ := owes.resolve_left id
  exact owed s power

/-- **Tracing succeeds, and then nothing is owed.** The sockets are listed clockwise from north. -/
theorem exists_trace_inOrder (b : Board) (w : World) : ∃ g inputs outputs visited,
    b.trace w = .ok g ∧ b.Progress w inputs outputs g visited (fun _ _ => False) ∧
      InOrder b.inputs inputs ∧ InOrder b.outputs outputs := by
  obtain ⟨⟨g, inputs⟩, added, h, order⟩ := exists_addInputs b w
  -- Each input side has its node before any output is followed.
  have ready (f : Facing) (role : b.role f = .input) : ∃ id, inputs.lookup f = some id :=
    (order.exists_lookup_iff f).2 (mem_sidesWith.2 role)
  obtain ⟨st, folded, outputs, progress, listed⟩ := foldlM_ok (l := b.outputs) (x := (g, []))
    (k := b.followOutput w inputs)
    (P := fun done st => ∃ outputs, b.Progress w inputs outputs st.1 st.2 (fun _ _ => False) ∧
      InOrder done outputs)
    (nodup_sidesWith (b := b) .output) ⟨[], h, .nil⟩
    fun done f st mem fresh ⟨outputs, h, order⟩ => by
      have role := mem_sidesWith.1 mem
      obtain ⟨g', visited', followed, h'⟩ :=
        h.traceOutput ready role (order.lookup_of_fresh fresh)
      refine ⟨(g', visited'), ?_, _, h', order.append fresh h.lt_of_output⟩
      have added : st.1.addOutput (b.socket f).socket = .ok (st.1.size, st.1.push (.output f)) :=
        if_pos role
      rw [followOutput, added]
      exact followed
  have traced : b.trace w = .ok st.1 := by
    rw [trace_eq, added]
    exact congrArg (fun r => bind r fun st => Except.ok st.1) folded
  exact ⟨st.1, inputs, outputs, st.2, traced, progress, order, listed⟩

/-- **Tracing succeeds, and then nothing is owed.** -/
theorem exists_trace (b : Board) (w : World) : ∃ g inputs outputs visited, b.trace w = .ok g ∧
    b.Progress w inputs outputs g visited (fun _ _ => False) ∧
    (∀ f, b.role f = .input → ∃ id, inputs.lookup f = some id) ∧
    ∀ f, b.role f = .output → ∃ id, outputs.lookup f = some id := by
  obtain ⟨g, inputs, outputs, visited, traced, progress, ins, outs⟩ := exists_trace_inOrder b w
  exact ⟨g, inputs, outputs, visited, traced, progress,
    fun f role => (ins.exists_lookup_iff f).2 (mem_sidesWith.2 role),
    fun f role => (outs.exists_lookup_iff f).2 (mem_sidesWith.2 role)⟩

/-- The nodes of the sockets of a kind are those listed, in their order. -/
theorem Progress.sockets_eq {ids : List NodeId} {p : NodeId → Bool} {l : List (Facing × NodeId)}
    {sides : List Facing} {kind : Facing → Component} (order : InOrder sides l)
    (filtered : ids = g.ids.filter p)
    (mem_ids : ∀ id, id ∈ ids ↔ ∃ f, g.component? id = some (kind f))
    (listed : ∀ f id, g.component? id = some (kind f) ↔ l.lookup f = some id) :
    ids.map g.component? = sides.map fun f => some (kind f) := by
  -- The list is a part of all numbers in their order.
  have ascends : ids.Pairwise (· < ·) := by
    rw [filtered]
    exact List.pairwise_lt_range.filter _
  have same : ids = l.map Prod.snd := by
    -- Both lists ascend, so it is enough that they have the same members.
    refine List.Perm.eq_of_pairwise (fun a b _ _ lt gt => absurd gt (Nat.lt_asymm lt)) ascends
      order.ascends ((List.perm_ext_iff_of_nodup (ascends.imp Nat.ne_of_lt)
        (order.ascends.imp Nat.ne_of_lt)).2 fun id => ?_)
    rw [mem_ids, List.mem_map]
    refine ⟨?_, ?_⟩
    · rintro ⟨f, stands⟩
      exact ⟨(f, id), order.mem_iff.2 ((listed f id).1 stands), rfl⟩
    · rintro ⟨⟨f, _⟩, mem, rfl⟩
      exact ⟨f, (listed f _).2 (order.mem_iff.1 mem)⟩
  rw [same, ← order.sides_eq, List.map_map, List.map_map]
  refine List.map_congr_left fun e mem => ?_
  exact (listed e.1 e.2).2 (order.mem_iff.1 mem)

/-- **The inputs of the netlist are the input sockets, in their order.** -/
theorem Progress.inputs_eq (h : b.Progress w inputs outputs g visited owed)
    (order : InOrder b.inputs inputs) :
    g.inputs.map g.component? = b.inputs.map fun f => some (.input f) :=
  sockets_eq order h.wf.inputs_eq (fun _ => h.wf.mem_inputs) h.input

/-- **The outputs of the netlist are the output sockets, in their order.** -/
theorem Progress.outputs_eq (h : b.Progress w inputs outputs g visited owed)
    (order : InOrder b.outputs outputs) :
    g.outputs.map g.component? = b.outputs.map fun f => some (.output f) :=
  sockets_eq order h.wf.outputs_eq (fun _ => h.wf.mem_outputs) h.output

/-! ### The circuit on the board -/

/-- **Whatever an output depends on has a node**, when nothing is owed. -/
theorem Progress.exists_node_of_traced (h : b.Progress w inputs outputs g visited fun _ _ => False)
    (listed : ∀ f, b.role f = .output → ∃ id, outputs.lookup f = some id) (traced : b.Traced w t) :
    ∃ id, NodeOf g visited id t := by
  obtain ⟨f, role, path⟩ := traced
  -- Backwards along the path, from the node of the socket to what powers it.
  induction path using Relation.ReflTransGen.head_induction_on with
  | refl =>
    obtain ⟨id, found⟩ := listed f role
    exact ⟨id, (h.output f id).2 found⟩
  | head power _ ih =>
    -- nothing is owed any more, so what powers a node has one too
    obtain ⟨y, node⟩ := ih
    obtain ⟨x, source, -⟩ := (h.complete y _ _ node power).resolve_right id
    exact ⟨x, source⟩

/-- **Everything that belongs to the circuit has a node**, when nothing is owed. -/
theorem Progress.exists_node (h : b.Progress w inputs outputs g visited fun _ _ => False)
    (ready : ∀ f, b.role f = .input → ∃ id, inputs.lookup f = some id)
    (listed : ∀ f, b.role f = .output → ∃ id, outputs.lookup f = some id)
    (present : b.Present w t) : ∃ id, NodeOf g visited id t := by
  cases present with
  | traced traced => exact h.exists_node_of_traced listed traced
  | @input f role =>
    obtain ⟨id, found⟩ := ready f role
    exact ⟨id, (h.input f id).2 found⟩
  | @circuitOutput p facing table side whole circuit output =>
    obtain ⟨owner, here, table', stands⟩ := h.exists_node_of_traced listed whole
    obtain ⟨-, c, there, node⟩ := h.placed p owner here
    rw [World.component?_eq_circuit.2 ⟨facing, circuit.2⟩, Option.some.injEq] at there
    rw [← there] at node
    -- Its circuit has a node, and with it come the nodes of all its sides.
    obtain ⟨i, hi⟩ := List.mem_iff_getElem?.1 output
    exact ⟨_, owner, here, h.wf.outputChild owner table i side node hi⟩

/-- The component at the node of a terminal. -/
theorem Progress.component?_node (h : b.Progress w inputs outputs g visited owed)
    (node : Terminal → NodeId) (nodeOf : ∀ t, b.Present w t → NodeOf g visited (node t) t)
    (present : b.Present w t) : g.component? (node t) = t.component? w node := by
  have own := nodeOf t present
  -- The owner that a child names is the node of the circuit at its position.
  have circuit {p : Position} {owner : Nat} {table : TruthTable}
      (here : nodeAt? visited p = some owner)
      (stands : g.component? owner = some (.circuit table)) : node (.circuit p) = owner := by
    have whole : NodeOf g visited owner (.circuit p) := ⟨here, table, stands⟩
    exact h.node_unique (nodeOf _ (h.present owner _ whole)) whole
  cases t with
  | input f | output f => exact own
  | wire p | torch p => exact own.2
  | circuit p =>
    obtain ⟨here, table, stands⟩ := own
    obtain ⟨-, c, there, same⟩ := h.placed p _ here
    rw [stands, Option.some.injEq] at same
    rw [← same] at there
    obtain ⟨facing, -, kept⟩ := World.component?_eq_circuit.1 there
    rw [stands, Terminal.component?, kept]
    rfl
  | circuitInput p side =>
    obtain ⟨owner, here, stands⟩ := own
    obtain ⟨-, table, i, owned, -⟩ := h.wf.circuitInput _ _ _ stands
    rw [stands, Terminal.component?, circuit here owned]
  | circuitOutput p side =>
    obtain ⟨owner, here, stands⟩ := own
    obtain ⟨-, table, i, owned, -⟩ := h.wf.circuitOutput _ _ _ stands
    rw [stands, Terminal.component?, circuit here owned]

/-- **A netlist for which nothing is owed is the circuit on the board.** -/
theorem Progress.exists_isCircuitOn (h : b.Progress w inputs outputs g visited fun _ _ => False)
    (ready : ∀ f, b.role f = .input → ∃ id, inputs.lookup f = some id)
    (listed : ∀ f, b.role f = .output → ∃ id, outputs.lookup f = some id) :
    ∃ node, b.IsCircuitOn w g node := by
  -- Terminals that do not belong to the circuit may have any number.
  have total (t : Terminal) : ∃ id, b.Present w t → NodeOf g visited id t := by
    by_cases present : b.Present w t
    · obtain ⟨id, own⟩ := h.exists_node ready listed present
      exact ⟨id, fun _ => own⟩
    · exact ⟨0, fun yes => absurd yes present⟩
  choose node nodeOf using total
  refine ⟨node, h.wf, ⟨?_, ?_, ?_⟩, fun t present => h.component?_node node nodeOf present,
    fun s t hs ht => ⟨fun edge => ?_, fun power => ?_⟩⟩
  · intro t present
    exact (nodeOf t present).lt_size
  -- One node each, and one terminal each.
  · intro s hs t ht eq
    have own := nodeOf s hs
    rw [eq] at own
    exact h.terminal_unique own (nodeOf t ht)
  · intro id lt
    obtain ⟨t, own⟩ := h.exists_terminal lt
    have present := h.present id t own
    exact ⟨t, present, h.node_unique (nodeOf t present) own⟩
  · -- edges are sound, and complete
    obtain ⟨s', t', hx, hy, power⟩ := h.sound _ _ edge
    rwa [h.terminal_unique (nodeOf s hs) hx, h.terminal_unique (nodeOf t ht) hy]
  · obtain ⟨x, source, edge⟩ := (h.complete _ t s (nodeOf t ht) power).resolve_right id
    rwa [h.node_unique (nodeOf s hs) source]

/-- **Tracing a board succeeds with the circuit on it**: up to the numbers of the nodes, what the
output sockets depend on, with an edge for all power and no other. All of it stands on the board;
each input socket belongs to it, and each output socket. -/
theorem exists_trace_isCircuitOn (b : Board) (w : World) :
    ∃ g node, b.trace w = .ok g ∧ b.IsCircuitOn w g node ∧ (∀ t, b.Present w t → b.Stands w t) ∧
      (∀ f, b.Present w (.input f) ↔ b.role f = .input) ∧
      ∀ f, b.Present w (.output f) ↔ b.role f = .output := by
  obtain ⟨g, inputs, outputs, visited, traced, progress, ready, listed⟩ := exists_trace b w
  obtain ⟨node, circuit⟩ := progress.exists_isCircuitOn ready listed
  refine ⟨g, node, traced, circuit, fun t present => present.stands, fun f => ⟨?_, .input⟩,
    fun f => ⟨?_, fun role => .traced ⟨f, role, .refl⟩⟩⟩
  · exact fun present => present.stands
  · exact fun present => present.stands

end Board

end TorchLogic
