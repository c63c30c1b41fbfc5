import Mathlib.Algebra.GroupWithZero.Nat
import TorchLogic.Proofs.Netlist.Chain

/-!
# Netlists around one circuit

A netlist is a nesting of a table (`Netlist.IsNesting`) if it is drawn by the diagram of a nested
circuit with chains of wires: the circuit, a socket of the board for each of its sides, and a chain
between the two. The calls that build one are those of `Netlist.nest`, which wires up one side after
the other.

From a nesting the table comes back (`Netlist.truthTable_of_nest`), with the same sides in the same
order; only inputs whose chains are too long for a signal are not heard any more.
-/

namespace TorchLogic.Netlist

variable {t : TruthTable} {length : Side → Nat} {g g' : Netlist .wired} {s : Side}

/-! ### Nestings -/

/-- **Whether a netlist is the nesting of a table** with chains of given lengths, where `node` says
which node is where. -/
structure IsNesting (g : Netlist .wired) (t : TruthTable) (length : Side → Nat)
    (node : Spot → NodeId) : Prop where
  /-- The nodes are the places of the diagram. -/
  nodes : Set.BijOn node {spot | ∃ p, Spot.Is t length spot p} {id | id < g.size}
  /-- Each is what belongs there. -/
  component : ∀ spot p, Spot.Is t length spot p →
    (g.component? (node spot)).map Component.part = some p
  /-- They have the edges of the diagram. -/
  drives : ∀ x p y q, Spot.Is t length x p → Spot.Is t length y q →
    (g.Drives (node x) (node y) ↔ Spot.Drives t length x y)
  /-- The inputs of the board were added in the order of the table. -/
  inputs : g.inputs = t.inputs.map fun s => node (.chain s .head)
  /-- So were the outputs. -/
  outputs : g.outputs = t.outputs.map fun s => node (.chain s .tail)

namespace IsNesting

variable {node : Spot → NodeId}

theorem faithful (nesting : g.IsNesting t length node) (h : g.WellFormed) :
    (Diagram.nesting t length).Faithful h.diagram id node where
  is_iff := by
    rintro spot ⟨p, is⟩ q
    obtain ⟨c, hc, rfl⟩ := Option.map_eq_some_iff.1 (nesting.component spot p is)
    rw [is_iff h hc]
    simp only [Part.turn_id]
    constructor
    · rintro rfl
      exact ⟨_, is, rfl⟩
    · rintro ⟨p, is', rfl⟩
      exact is'.unique is
  drives_iff := by
    rintro spot ⟨p, is⟩ k
    show g.Drives k (node spot) ↔ ∃ x, Spot.Drives t length x spot ∧ k = node x
    constructor
    · -- an edge joins two nodes, each of which is that of a spot
      intro edge
      obtain ⟨x, ⟨q, is'⟩, rfl⟩ := nesting.nodes.surjOn (h.lt_of_mem_drivers edge).1
      exact ⟨x, (nesting.drives x q spot p is' is).1 edge, rfl⟩
    · -- and the ends of an edge between spots are spots
      rintro ⟨x, edge, rfl⟩
      obtain ⟨q, is'⟩ := (Spot.exists_is_of_drives edge).1
      exact (nesting.drives x q spot p is' is).2 edge
  onto := by
    rintro k f ⟨c, hc, -⟩
    obtain ⟨spot, stands, rfl⟩ := nesting.nodes.surjOn (lt_size_of_component? hc)
    exact ⟨spot, stands, rfl⟩

/-- **The table comes back from a nesting**, but for inputs whose chains are too long. -/
theorem exists_truthTable (nesting : g.IsNesting t length node) (built : g.Reachable)
    (short : ∀ s ∈ t.outputs, length s ≤ maxWireRun) :
    ∃ r, g.reduce = .ok r ∧ r.isAcyclic = true ∧
      r.truthTable = .ok (t.muted fun s => maxWireRun < length s) := by
  have h := built.wellFormed
  -- A part that is a socket has one component only.
  have socket {c : Component} {p : Part} (part : c.part = p) :
      (∀ f, p = .input f → c = .input f) ∧ ∀ f, p = .output f → c = .output f := by
    subst part
    cases c <;> simp [Component.part]
  have inputs : g.inputs.map g.component? =
      (t.inputs.map (Side.absolute .north)).map fun f => some (.input f) := by
    rw [nesting.inputs, List.map_map, List.map_map]
    refine List.map_congr_left fun s input => ?_
    obtain ⟨c, hc, part⟩ := Option.map_eq_some_iff.1 (nesting.component _ _ (.input input))
    rw [Function.comp_apply, hc, (socket part).1 _ rfl, Function.comp_apply]
  have outputs : g.outputs.map g.component? =
      (t.outputs.map (Side.absolute .north)).map fun f => some (.output f) := by
    rw [nesting.outputs, List.map_map, List.map_map]
    refine List.map_congr_left fun s output => ?_
    obtain ⟨c, hc, part⟩ := Option.map_eq_some_iff.1 (nesting.component _ _ (.output output))
    rw [Function.comp_apply, hc, (socket part).2 _ rfl, Function.comp_apply]
  -- No side is both an input and an output, so no socket faces where another does.
  have distinct :
      (t.inputs.map (Side.absolute .north) ++ t.outputs.map (Side.absolute .north)).Nodup := by
    rw [← List.map_append]
    exact t.sides_nodup.map fun s s' eq => by
      rw [← Side.relative_absolute .north s, eq, Side.relative_absolute]
  have back (sides : List Side) :
      (sides.map (Side.absolute .north)).map (Side.relative .north) = sides := by
    rw [List.map_map]
    exact (List.map_congr_left fun s _ => Side.relative_absolute .north s).trans (List.map_id sides)
  obtain ⟨r, reduced, goes⟩ := h.exists_reduce (nesting.faithful h) inputs outputs distinct
  have founded := Diagram.founded_nesting t length
  rcases goes with ⟨-, unfounded⟩ | ⟨acyclic, -, t', ok, ins, outs, computes⟩
  · -- there is no feedback, since the diagram has none
    exact absurd founded unfounded
  · -- so there is a table, and it computes what the muted table does
    have same : t' = t.muted fun s => maxWireRun < length s := by
      refine TruthTable.ext_apply (ins.trans (back _)) (outs.trans (back _)) ?_
      exact computes.apply_eq founded (Diagram.computes_nesting short)
    exact ⟨r, reduced, acyclic, same ▸ ok⟩

end IsNesting

/-! ### Building one -/

/-- **Wires up a side** of a nested circuit with a socket of the board: into the circuit where it
has an input, and else out of it. -/
def wireUp (circuit : NodeId) (side : Side) (socket : NodeId) (wires : Nat) (g : Netlist .wired) :
    Except NetlistError (Netlist .wired) := do
  let children ← g.circuitInputs circuit
  match children.lookup side with
  | some child => g.layChain socket child wires
  | none => do
    let child ← g.circuitOutput circuit side
    g.layChain child socket wires

/-- **Builds the nesting of a table.** The sockets come first, so that each has the place of its
side as its number; then the circuit, and then the chains. -/
def nest (t : TruthTable) (length : Side → Nat) : Except NetlistError (Netlist .wired) := do
  let g ← t.inputs.foldlM (fun g s => (g.addInput ⟨s.absolute .north, .input⟩).map Prod.snd) empty
  let g ← t.outputs.foldlM (fun g s => (g.addOutput ⟨s.absolute .north, .output⟩).map Prod.snd) g
  let (circuit, g) := g.addCircuit t
  t.sides.foldlM (fun g s => g.wireUp circuit s (t.sides.idxOf s) (length s)) g


/-! ### The nodes before the chains -/

/-- The socket of the board on a side. -/
def socketComponent (t : TruthTable) (s : Side) : Component :=
  if s ∈ t.inputs then .input (s.absolute .north) else .output (s.absolute .north)

/-- The child of the circuit on a side. -/
def childComponent (t : TruthTable) (s : Side) : Component :=
  if s ∈ t.inputs then .circuitInput s t.sides.length else .circuitOutput s t.sides.length

/-- The number of the socket on a side. -/
def socketNumber (t : TruthTable) (s : Side) : NodeId := t.sides.idxOf s

/-- The number of the child on a side. -/
def childNumber (t : TruthTable) (s : Side) : NodeId := t.sides.length + 1 + t.sides.idxOf s

/-- **The sockets and the circuit**, not wired up yet. -/
def frame (t : TruthTable) : Netlist .wired :=
  ((loose (t.sides.map (socketComponent t))).addCircuit t).2

theorem nest_eq (t : TruthTable) (length : Side → Nat) : nest t length =
    t.sides.foldlM (fun g s => g.wireUp t.sides.length s (socketNumber t s) (length s))
      (frame t) := by
  -- The sockets are put down one by one, and no call for them fails.
  have inputs (sides : List Side) (g : Netlist .wired) :
      sides.foldlM (fun g s => (g.addInput ⟨s.absolute .north, .input⟩).map Prod.snd) g =
        .ok ((sides.map fun s => Component.input (s.absolute .north)).foldl push g) := by
    induction sides generalizing g with
    | nil => rfl
    | cons s rest ih => exact ih _
  have outputs (sides : List Side) (g : Netlist .wired) :
      sides.foldlM (fun g s => (g.addOutput ⟨s.absolute .north, .output⟩).map Prod.snd) g =
        .ok ((sides.map fun s => Component.output (s.absolute .north)).foldl push g) := by
    induction sides generalizing g with
    | nil => rfl
    | cons s rest ih => exact ih _
  -- Together they are those of all the sides.
  have sockets : t.sides.map (socketComponent t) =
      (t.inputs.map fun s => Component.input (s.absolute .north)) ++
      t.outputs.map fun s => Component.output (s.absolute .north) := by
    rw [TruthTable.sides, List.map_append]
    congr 1
    · exact List.map_congr_left fun s input => if_pos input
    · exact List.map_congr_left fun s output => if_neg (t.not_mem_inputs output)
  have size : (loose (t.sides.map (socketComponent t)) : Netlist .wired).size = t.sides.length := by
    rw [size_loose, List.length_map]
  simp only [nest, inputs, outputs, ok_bind, ← List.foldl_append, ← sockets]
  rw [← size]
  rfl

theorem reachable_frame (t : TruthTable) : (frame t).Reachable := by
  have sockets (sides : List Side) :
      (loose (sides.map (socketComponent t)) : Netlist .wired).Reachable := by
    induction sides using List.reverseRecOn with
    | nil => exact .empty
    | append_singleton sides s ih =>
      rw [List.map_append, List.map_singleton, loose_concat, socketComponent]
      split
      · exact ih.edited (.input ⟨s.absolute .north, .input⟩)
      · exact ih.edited (.output ⟨s.absolute .north, .output⟩)
  exact (sockets t.sides).edited (.circuit t)

theorem size_frame (t : TruthTable) : (frame t).size = 2 * t.sides.length + 1 := by
  rw [frame, size_addCircuit, size_loose, List.length_map, Nat.add_assoc, TruthTable.sides,
    List.length_append]
  omega

theorem component?_frame_circuit (t : TruthTable) :
    (frame t).component? t.sides.length = some (.circuit t) := by
  have circuit :=
    component?_addCircuit_circuit (loose (t.sides.map (socketComponent t)) : Netlist .wired) t
  rwa [size_loose, List.length_map] at circuit

theorem component?_frame_socket (used : s ∈ t.sides) :
    (frame t).component? (socketNumber t s) = some (socketComponent t s) := by
  have lt : socketNumber t s < t.sides.length := List.idxOf_lt_length_of_mem used
  rw [frame, component?_addCircuit_of_lt (by rwa [size_loose, List.length_map]), component?_loose,
    List.getElem?_map, socketNumber, List.getElem?_idxOf used, Option.map_some]

theorem component?_frame_child (used : s ∈ t.sides) :
    (frame t).component? (childNumber t s) = some (childComponent t s) := by
  have h := (reachable_frame t).wellFormed
  by_cases input : s ∈ t.inputs
  · have child := h.inputChild _ t _ s (component?_frame_circuit t) (List.getElem?_idxOf input)
    rw [childNumber, childComponent, if_pos input, TruthTable.sides, List.idxOf_append_of_mem input]
    exact child
  · have output : s ∈ t.outputs := (List.mem_append.1 used).resolve_left input
    have child := h.outputChild _ t _ s (component?_frame_circuit t) (List.getElem?_idxOf output)
    rw [childNumber, childComponent, if_neg input, TruthTable.sides,
      List.idxOf_append_of_notMem input, ← Nat.add_assoc]
    exact child

/-- A number below those of the chains is that of the circuit, of a socket or of a child. -/
theorem exists_of_lt_size_frame {id : Nat} (lt : id < (frame t).size) :
    id = t.sides.length ∨ ∃ s ∈ t.sides, id = socketNumber t s ∨ id = childNumber t s := by
  have place (i : Nat) (lt : i < t.sides.length) : ∃ s ∈ t.sides, t.sides.idxOf s = i :=
    ⟨t.sides[i], List.getElem_mem lt, t.nodup_sides.idxOf_getElem i lt⟩
  rw [size_frame] at lt
  rcases Nat.lt_trichotomy id t.sides.length with before | rfl | after
  · obtain ⟨s, used, rfl⟩ := place id before
    exact .inr ⟨s, used, .inl rfl⟩
  · exact .inl rfl
  · obtain ⟨s, used, eq⟩ := place (id - (t.sides.length + 1)) (by omega)
    exact .inr ⟨s, used, .inr (by rw [childNumber, eq]; omega)⟩

/-- The edges of the frame are those of the circuit. -/
theorem drives_frame {a b : NodeId} : (frame t).Drives a b ↔
    (∃ s ∈ t.inputs, a = childNumber t s ∧ b = t.sides.length) ∨
      ∃ s ∈ t.outputs, a = t.sides.length ∧ b = childNumber t s := by
  have size : (loose (t.sides.map (socketComponent t)) : Netlist .wired).size = t.sides.length := by
    rw [size_loose, List.length_map]
  -- Children come after the circuit, in the order of the table.
  have input {i : Nat} (lt : i < t.inputs.length) :
      childNumber t t.inputs[i] = t.sides.length + 1 + i := by
    rw [childNumber, TruthTable.sides, List.idxOf_append_of_mem (List.getElem_mem lt),
      t.inputs_nodup.idxOf_getElem]
  have output {i : Nat} (lt : i < t.outputs.length) :
      childNumber t t.outputs[i] = t.sides.length + 1 + t.inputs.length + i := by
    have other : t.outputs[i] ∉ t.inputs := t.not_mem_inputs (List.getElem_mem lt)
    rw [childNumber, TruthTable.sides, List.idxOf_append_of_notMem other,
      t.outputs_nodup.idxOf_getElem, Nat.add_assoc (_ + 1)]
  rw [Drives, frame, mem_drivers_addCircuit, drivers_loose, size]
  constructor
  · rintro (old | ⟨i, lt, rfl, rfl⟩ | ⟨i, lt, rfl, rfl⟩)
    · -- the sockets have no edges
      cases old
    · exact .inl ⟨_, List.getElem_mem lt, (input lt).symm, rfl⟩
    · exact .inr ⟨_, List.getElem_mem lt, rfl, (output lt).symm⟩
  · rintro (⟨s, mem, rfl, rfl⟩ | ⟨s, mem, rfl, rfl⟩)
    · obtain ⟨i, lt, rfl⟩ := List.getElem_of_mem mem
      exact .inr (.inl ⟨i, lt, input lt, rfl⟩)
    · obtain ⟨i, lt, rfl⟩ := List.getElem_of_mem mem
      exact .inr (.inr ⟨i, lt, rfl, output lt⟩)

/-- The sockets of one role are the numbers that the sides in this role have. -/
theorem filter_sockets (t : TruthTable) (role : Component → Bool) :
    ((loose (t.sides.map (socketComponent t)) : Netlist .wired).ids.filter fun id =>
      ((loose (t.sides.map (socketComponent t)) : Netlist .wired).component? id).any role) =
      (t.sides.filter fun s => role (socketComponent t s)).map (socketNumber t) := by
  have ids : (loose (t.sides.map (socketComponent t)) : Netlist .wired).ids =
      t.sides.map (socketNumber t) := by
    rw [Netlist.ids, size_loose, List.length_map]
    refine List.ext_getElem (by rw [List.length_range, List.length_map]) fun i _ lt => ?_
    rw [List.length_map] at lt
    rw [List.getElem_range, List.getElem_map]
    exact (t.nodup_sides.idxOf_getElem i lt).symm
  rw [ids, List.filter_map]
  refine congrArg _ (List.filter_congr fun s used => ?_)
  rw [Function.comp_apply, component?_loose, List.getElem?_map, socketNumber,
    List.getElem?_idxOf used]
  rfl

theorem inputs_frame (t : TruthTable) : (frame t).inputs = t.inputs.map (socketNumber t) := by
  rw [frame, inputs_addCircuit, inputs_loose, filter_sockets, TruthTable.sides, List.filter_append]
  have ins : (t.inputs.filter fun s => (socketComponent t s).isInput) = t.inputs :=
    List.filter_eq_self.2 fun s input => by rw [socketComponent, if_pos input]; rfl
  have outs : (t.outputs.filter fun s => (socketComponent t s).isInput) = [] :=
    List.filter_eq_nil_iff.2 fun s output => by
      rw [socketComponent, if_neg (t.not_mem_inputs output)]
      exact Bool.noConfusion
  rw [ins, outs, List.append_nil]

theorem outputs_frame (t : TruthTable) : (frame t).outputs = t.outputs.map (socketNumber t) := by
  rw [frame, outputs_addCircuit, outputs_loose, filter_sockets, TruthTable.sides,
    List.filter_append]
  have ins : (t.inputs.filter fun s => (socketComponent t s).isOutput) = [] :=
    List.filter_eq_nil_iff.2 fun s input => by
      rw [socketComponent, if_pos input]
      exact Bool.noConfusion
  have outs : (t.outputs.filter fun s => (socketComponent t s).isOutput) = t.outputs :=
    List.filter_eq_self.2 fun s output => by
      rw [socketComponent, if_neg (t.not_mem_inputs output)]
      rfl
  rw [ins, outs, List.nil_append]

/-! ### Where everything is -/

/-- How many wires are laid before the chain of a side. -/
def wiresBefore (length : Side → Nat) : List Side → Side → Nat
  | [], _ => 0
  | first :: rest, s => if first = s then 0 else length first + wiresBefore length rest s

theorem wiresBefore_append {earlier rest : List Side} (fresh : s ∉ earlier) :
    wiresBefore length (earlier ++ s :: rest) s = (earlier.map length).sum := by
  induction earlier with
  | nil => exact if_pos rfl
  | cons first earlier ih =>
    obtain ⟨ne, fresh⟩ := not_or.1 (mt List.mem_cons.2 fresh)
    rw [List.cons_append, wiresBefore, if_neg fun eq => ne eq.symm, ih fresh, List.map_cons,
      List.sum_cons]

theorem wiresBefore_add_lt {sides : List Side} {j : Nat} (used : s ∈ sides) (lt : j < length s) :
    wiresBefore length sides s + j < (sides.map length).sum := by
  induction sides with
  | nil => cases used
  | cons first rest ih =>
    -- Either the chain is the first, or the first comes before it as a whole.
    rw [wiresBefore, List.map_cons, List.sum_cons]
    split
    case isTrue eq =>
      subst eq
      omega
    case isFalse ne =>
      have := ih ((List.mem_cons.1 used).resolve_left fun eq => ne eq.symm)
      omega

/-- Each wire is in the chain of some side, at some place of that chain. -/
theorem exists_wiresBefore {sides : List Side} (nodup : sides.Nodup) {k : Nat}
    (lt : k < (sides.map length).sum) :
    ∃ s ∈ sides, ∃ j < length s, k = wiresBefore length sides s + j := by
  induction sides generalizing k with
  | nil => exact absurd lt (Nat.not_lt_zero k)
  | cons first rest ih =>
    obtain ⟨fresh, nodup⟩ := List.nodup_cons.1 nodup
    rw [List.map_cons, List.sum_cons] at lt
    by_cases here : k < length first
    · -- a wire of the first chain
      exact ⟨first, List.mem_cons_self, k, here, by rw [wiresBefore, if_pos rfl, Nat.zero_add]⟩
    · -- a wire of a later chain, counted from the end of the first
      obtain ⟨s, used, j, inside, eq⟩ := ih nodup (k := k - length first) (by omega)
      refine ⟨s, List.mem_cons_of_mem _ used, j, inside, ?_⟩
      rw [wiresBefore, if_neg fun same : first = s => fresh (same ▸ used)]
      omega

/-- A wire is in the chain of one side only, and at one place of it. -/
theorem wiresBefore_inj {sides : List Side} {s' : Side} {j j' : Nat}
    (used : s ∈ sides) (used' : s' ∈ sides) (lt : j < length s) (lt' : j' < length s')
    (eq : wiresBefore length sides s + j = wiresBefore length sides s' + j') : s = s' ∧ j = j' := by
  induction sides with
  | nil => cases used
  | cons first rest ih =>
    have others {s : Side} (used : s ∈ first :: rest) (ne : ¬ first = s) : s ∈ rest :=
      (List.mem_cons.1 used).resolve_left fun eq => ne eq.symm
    rw [wiresBefore, wiresBefore] at eq
    -- Wires of the first chain have lower numbers than all others.
    split at eq
    case isTrue here =>
      split at eq
      case isTrue here' =>
        exact ⟨here.symm.trans here', by omega⟩
      case isFalse =>
        rw [← here] at lt
        omega
    case isFalse ne =>
      split at eq
      case isTrue here' =>
        rw [← here'] at lt'
        omega
      case isFalse ne' =>
        exact ih (others used ne) (others used' ne') (by omega)

/-- **Where the calls put the nodes.** -/
def nestNumber (t : TruthTable) (length : Side → Nat) : Spot → NodeId
  | .circuit => t.sides.length
  | .chain s stop =>
    let first := (frame t).size + wiresBefore length t.sides s
    if s ∈ t.inputs then stop.number (socketNumber t s) first (childNumber t s)
    else stop.number (childNumber t s) first (socketNumber t s)

/-- The edges of the chains of some sides. -/
def ChainEdges (t : TruthTable) (length : Side → Nat) (sides : List Side) (a b : NodeId) : Prop :=
  ∃ s ∈ sides, ∃ x y, ChainStop.Drives (length s) x y ∧
    a = nestNumber t length (.chain s x) ∧ b = nestNumber t length (.chain s y)

/-- **A side is wired up**, whatever was laid before. -/
theorem Laid.exists_wireUp {edges : NodeId → NodeId → Prop}
    (laid : Laid (frame t) g (wiresBefore length t.sides s) edges) (used : s ∈ t.sides) :
    ∃ g', g.wireUp t.sides.length s (socketNumber t s) (length s) = .ok g' ∧
      Laid g g' (length s) (ChainEdges t length [s]) := by
  have h := laid.reachable.wellFormed
  have circuit := laid.component? (component?_frame_circuit t)
  have socket := laid.component? (component?_frame_socket used)
  have child := laid.component? (component?_frame_child used)
  obtain ⟨children, listed, mem_children⟩ := h.circuitInputs_eq circuit
  by_cases input : s ∈ t.inputs
  · -- an input side, whose chain leads from the socket to the child
    rw [socketComponent, if_pos input] at socket
    rw [childComponent, if_pos input] at child
    -- The look-up among the input children finds the child for the side.
    have found : children.lookup s = some (childNumber t s) := by
      cases look : children.lookup s with
      | none =>
        have no := List.lookup_eq_none_iff.1 look _ ((mem_children _ _).2 child)
        simp at no
      | some k =>
        obtain ⟨before, after, eq, -⟩ := List.lookup_eq_some_iff.1 look
        have hk := (mem_children s k).1 (eq ▸ List.mem_append_right _ List.mem_cons_self)
        rw [h.circuitInput_unique hk child]
    obtain ⟨g', ok, laid'⟩ := exists_layChain laid.reachable socket child rfl rfl (length s)
    refine ⟨g', by simp only [wireUp, listed, ok_bind, found, ok], laid'.congr fun a b => ?_⟩
    simp only [ChainEdges, List.mem_singleton, exists_eq_left, nestNumber, if_pos input, laid.size]
  · -- an output side, whose chain leads from the child to the socket
    have output : s ∈ t.outputs := (List.mem_append.1 used).resolve_left input
    rw [socketComponent, if_neg input] at socket
    rw [childComponent, if_neg input] at child
    -- There is no input child for it, so the output child is looked for.
    have missed : children.lookup s = none := by
      refine List.lookup_eq_none_iff.2 fun ⟨side, k⟩ mem => bne_iff_ne.2 fun eq => input ?_
      -- An input child is on an input side of the table.
      obtain ⟨-, t', i, circuit', place, -⟩ := h.circuitInput k side _ ((mem_children side k).1 mem)
      obtain rfl := Component.circuit.inj (Option.some.inj (circuit.symm.trans circuit'))
      exact eq ▸ List.mem_of_getElem? place
    obtain ⟨k, chosen, hk⟩ := h.circuitOutput_eq circuit output
    obtain rfl : k = childNumber t s := h.circuitOutput_unique hk child
    obtain ⟨g', ok, laid'⟩ := exists_layChain laid.reachable child socket rfl rfl (length s)
    refine ⟨g', by simp only [wireUp, listed, ok_bind, missed, chosen, ok],
      laid'.congr fun a b => ?_⟩
    simp only [ChainEdges, List.mem_singleton, exists_eq_left, nestNumber, if_neg input, laid.size]

/-- **The calls succeed**, and lay the chains of all sides. -/
theorem exists_nest (t : TruthTable) (length : Side → Nat) : ∃ g, nest t length = .ok g ∧
    Laid (frame t) g (t.sides.map length).sum (ChainEdges t length t.sides) := by
  rw [nest_eq]
  refine foldlM_ok_of_append (P := fun done g =>
    Laid (frame t) g (done.map length).sum (ChainEdges t length done)) ?_ ?_
  · -- nothing is laid at first
    exact (Laid.refl (reachable_frame t)).congr fun a b => by simp [ChainEdges]
  · -- the chain of the next side comes after those of the sides before it
    intro done s rest g split laid
    have fresh : s ∉ done := fun mem => by
      have nodup := t.nodup_sides
      rw [split, List.nodup_append] at nodup
      exact nodup.2.2 s mem s List.mem_cons_self rfl
    have used : s ∈ t.sides := split ▸ List.mem_append_right done List.mem_cons_self
    have before : (done.map length).sum = wiresBefore length t.sides s := by
      rw [split, wiresBefore_append fresh]
    obtain ⟨g', ok, laid'⟩ := (before ▸ laid).exists_wireUp used
    refine ⟨g', ok, ?_⟩
    rw [List.map_append, List.sum_append, List.map_singleton, List.sum_singleton]
    refine (laid.trans laid').congr fun a b => ?_
    simp only [ChainEdges, List.mem_append, or_and_right, exists_or]


section Numbers

variable {x y spot : Spot} {p q : Part}

theorem nestNumber_wire {j : Nat} : nestNumber t length (.chain s (.wire j)) =
    (frame t).size + (wiresBefore length t.sides s + j) := by
  rw [nestNumber]
  split <;> exact Nat.add_assoc _ _ _

/-- What is no wire is in the frame. -/
theorem component?_frame_nestNumber (is : Spot.Is t length spot p) (plain : p ≠ .wire) :
    ((frame t).component? (nestNumber t length spot)).map Component.part = some p := by
  cases is with
  | wire => exact absurd rfl plain
  | circuit => rw [nestNumber, component?_frame_circuit]; rfl
  | input input =>
    have socket := component?_frame_socket (List.mem_append_left t.outputs input)
    simp only [nestNumber, if_pos input, ChainStop.number, socket, socketComponent]; rfl
  | circuitInput input =>
    have child := component?_frame_child (List.mem_append_left t.outputs input)
    simp only [nestNumber, if_pos input, ChainStop.number, child, childComponent]; rfl
  | circuitOutput output =>
    have child := component?_frame_child (List.mem_append_right t.inputs output)
    simp only [nestNumber, if_neg (t.not_mem_inputs output), ChainStop.number, child,
      childComponent]
    rfl
  | output output =>
    have socket := component?_frame_socket (List.mem_append_right t.inputs output)
    simp only [nestNumber, if_neg (t.not_mem_inputs output), ChainStop.number, socket,
      socketComponent]; rfl

theorem nestNumber_lt (is : Spot.Is t length spot p) (plain : p ≠ .wire) :
    nestNumber t length spot < (frame t).size := by
  obtain ⟨c, hc, -⟩ := Option.map_eq_some_iff.1 (component?_frame_nestNumber is plain)
  exact lt_size_of_component? hc

/-- **No number is given to two places.** -/
theorem nestNumber_injOn :
    Set.InjOn (nestNumber t length) {spot | ∃ p, Spot.Is t length spot p} := by
  -- Wires come after everything else.
  have apart {x y : Spot} {p q : Part} (hx : Spot.Is t length x p) (hy : Spot.Is t length y q)
      (plain : p ≠ .wire) (wire : q = .wire) : nestNumber t length x ≠ nestNumber t length y := by
    subst wire
    cases hy with
    | wire =>
      rw [nestNumber_wire]
      exact Nat.ne_of_lt (Nat.lt_add_right _ (nestNumber_lt hx plain))
  rintro x ⟨p, hx⟩ y ⟨q, hy⟩ eq
  by_cases wx : p = .wire
  · -- a wire, and the other is one as well
    by_cases wy : q = .wire
    · subst wx wy
      cases hx with
      | wire used lt =>
        cases hy with
        | wire used' lt' =>
          rw [nestNumber_wire, nestNumber_wire] at eq
          obtain ⟨rfl, rfl⟩ := wiresBefore_inj used used' lt lt' (Nat.add_left_cancel eq)
          rfl
    · exact absurd eq.symm (apart hy hx wy wx)
  · by_cases wy : q = .wire
    · exact absurd eq (apart hx hy wx wy)
    · -- none of them is a wire, so both are of the frame, where the part tells the place
      have same := component?_frame_nestNumber hx wx
      rw [eq, component?_frame_nestNumber hy wy] at same
      cases same
      exact Option.some.inj ((hx.place?_eq wx).symm.trans (hy.place?_eq wx))

variable (laid : Laid (frame t) g (t.sides.map length).sum (ChainEdges t length t.sides))

include laid

theorem Laid.component?_nestNumber (is : Spot.Is t length spot p) :
    (g.component? (nestNumber t length spot)).map Component.part = some p := by
  by_cases wire : p = .wire
  · subst wire
    cases is with
    | wire used lt =>
      rw [nestNumber_wire, laid.component?_new _ (wiresBefore_add_lt used lt)]
      rfl
  · rw [laid.component?_old _ (nestNumber_lt is wire), component?_frame_nestNumber is wire]

theorem Laid.exists_spot {id : Nat} (lt : id < g.size) :
    ∃ spot p, Spot.Is t length spot p ∧ nestNumber t length spot = id := by
  rcases Nat.lt_or_ge id (frame t).size with old | new
  · -- a node of the frame: the circuit, a socket or a child
    rcases exists_of_lt_size_frame old with rfl | ⟨s, used, place⟩
    · exact ⟨.circuit, _, .circuit, rfl⟩
    · obtain ⟨p, head⟩ : ∃ p, Spot.Is t length (.chain s .head) p := Spot.exists_is_head used
      obtain ⟨q, tail⟩ : ∃ p, Spot.Is t length (.chain s .tail) p := Spot.exists_is_tail used
      by_cases input : s ∈ t.inputs
      · rcases place with rfl | rfl
        · exact ⟨_, p, head, by rw [nestNumber, if_pos input]; rfl⟩
        · exact ⟨_, q, tail, by rw [nestNumber, if_pos input]; rfl⟩
      · rcases place with rfl | rfl
        · exact ⟨_, q, tail, by rw [nestNumber, if_neg input]; rfl⟩
        · exact ⟨_, p, head, by rw [nestNumber, if_neg input]; rfl⟩
  · -- a wire of one of the chains
    rw [laid.size] at lt
    have among : id - (frame t).size < (t.sides.map length).sum := by omega
    obtain ⟨s, used, j, inside, eq⟩ := exists_wiresBefore t.nodup_sides among
    exact ⟨_, _, .wire used inside, by rw [nestNumber_wire, ← eq, Nat.add_sub_cancel' new]⟩

theorem Laid.drives_iff {a b : NodeId} : g.Drives a b ↔
    ∃ x y, Spot.Drives t length x y ∧ a = nestNumber t length x ∧ b = nestNumber t length y := by
  rw [laid.drives, drives_frame]
  constructor
  · rintro ((⟨s, input, rfl, rfl⟩ | ⟨s, output, rfl, rfl⟩) | ⟨s, used, x, y, edge, rfl, rfl⟩)
    · exact ⟨_, _, .into input, by rw [nestNumber, if_pos input]; rfl, rfl⟩
    · exact ⟨_, _, .out output, rfl, by rw [nestNumber, if_neg (t.not_mem_inputs output)]; rfl⟩
    · exact ⟨_, _, .along used edge, rfl, rfl⟩
  · rintro ⟨x, y, edge, rfl, rfl⟩
    cases edge with
    | along used edge => exact .inr ⟨_, used, _, _, edge, rfl, rfl⟩
    | into input => exact .inl (.inl ⟨_, input, by rw [nestNumber, if_pos input]; rfl, rfl⟩)
    | out output =>
      exact .inl (.inr ⟨_, output, rfl, by rw [nestNumber, if_neg (t.not_mem_inputs output)]; rfl⟩)

/-- **What is laid is a nesting.** -/
theorem Laid.isNesting : g.IsNesting t length (nestNumber t length) where
  nodes := by
    refine ⟨fun spot ⟨p, is⟩ => ?_, nestNumber_injOn, fun id lt => ?_⟩
    · obtain ⟨c, hc, -⟩ := Option.map_eq_some_iff.1 (laid.component?_nestNumber is)
      exact lt_size_of_component? hc
    · obtain ⟨spot, p, is, eq⟩ := laid.exists_spot lt
      exact ⟨spot, ⟨p, is⟩, eq⟩
  component spot p is := laid.component?_nestNumber is
  drives x p y q hx hy := by
    rw [laid.drives_iff]
    constructor
    · -- the spots with these numbers are the given ones
      rintro ⟨x', y', edge, eqx, eqy⟩
      obtain ⟨hx', hy'⟩ := Spot.exists_is_of_drives edge
      rw [nestNumber_injOn ⟨p, hx⟩ hx' eqx, nestNumber_injOn ⟨q, hy⟩ hy' eqy]
      exact edge
    · exact fun edge => ⟨x, y, edge, rfl, rfl⟩
  inputs := by
    rw [laid.inputs, inputs_frame]
    exact List.map_congr_left fun s input => by rw [nestNumber, if_pos input]; rfl
  outputs := by
    rw [laid.outputs, outputs_frame]
    exact List.map_congr_left fun s output => by
      rw [nestNumber, if_neg (t.not_mem_inputs output)]; rfl

end Numbers

/-! ### The table comes back -/

/-- **Nesting a circuit reproduces its table.** The calls that build a nesting of a table succeed,
whatever the lengths of its chains. From each nesting with chains to the outputs of at most fifteen
wires, however it was built, the table comes back, with inputs whose chains are longer not heard;
and if there is none, it is the table itself. -/
theorem truthTable_of_nest (t : TruthTable) (length : Side → Nat)
    (short : ∀ s ∈ t.outputs, length s ≤ maxWireRun) :
    (∃ g node, nest t length = .ok g ∧ g.Reachable ∧ g.IsNesting t length node) ∧
      ∀ (g : Netlist .wired) node, g.Reachable → g.IsNesting t length node →
        ∃ r, g.reduce = .ok r ∧ r.isAcyclic = true ∧
          r.truthTable = .ok (t.muted fun s => maxWireRun < length s) ∧
          ((∀ s ∈ t.inputs, length s ≤ maxWireRun) → r.truthTable = .ok t) := by
  refine ⟨?_, fun g node built nesting => ?_⟩
  · obtain ⟨g, ok, laid⟩ := exists_nest t length
    exact ⟨g, _, ok, laid.reachable, laid.isNesting⟩
  · obtain ⟨r, reduced, acyclic, table⟩ := nesting.exists_truthTable built short
    refine ⟨r, reduced, acyclic, table, fun heard => ?_⟩
    have unmuted : (t.muted fun s => maxWireRun < length s) = t :=
      TruthTable.muted_eq_self fun s input => decide_eq_false (Nat.not_lt.2 (heard s input))
    rw [table, unmuted]

namespace Conjunction

/-- The table that is on while both of its inputs are. -/
def table : TruthTable := ⟨[.left, .right], [.back], [⟨0b1000⟩], by decide, rfl, by decide⟩

/-- Chains of which one is too long. -/
def lengths (s : Side) : Nat := if s = .left then 16 else 15

/-- The table with the left input off, which is never on. -/
def without : TruthTable := ⟨[.left, .right], [.back], [⟨0⟩], by decide, rfl, by decide⟩

end Conjunction

/-- A conjunction comes back through chains of fifteen wires, and with sixteen wires to the left of
it nothing does. -/
theorem truthTable_of_nest_conjunction :
    (∀ s ∈ Conjunction.table.outputs, Conjunction.lengths s ≤ maxWireRun) ∧
      (∃ g r, nest Conjunction.table (fun _ => 15) = .ok g ∧ g.reduce = .ok r ∧ r.isAcyclic = true ∧
        r.truthTable = .ok Conjunction.table) ∧
      ∃ g r, nest Conjunction.table Conjunction.lengths = .ok g ∧
      g.reduce = .ok r ∧ r.isAcyclic = true ∧ r.truthTable = .ok Conjunction.without := by
  have short : ∀ s ∈ Conjunction.table.outputs, Conjunction.lengths s ≤ maxWireRun := by decide
  refine ⟨short, ?_, ?_⟩
  · obtain ⟨⟨g, node, ok, built, nesting⟩, comes_back⟩ :=
      truthTable_of_nest Conjunction.table (fun _ => 15) (by decide)
    obtain ⟨r, reduced, acyclic, -, table⟩ := comes_back g node built nesting
    exact ⟨g, r, ok, reduced, acyclic, table (by decide)⟩
  · obtain ⟨⟨g, node, ok, built, nesting⟩, comes_back⟩ :=
      truthTable_of_nest Conjunction.table Conjunction.lengths short
    obtain ⟨r, reduced, acyclic, table, -⟩ := comes_back g node built nesting
    have muted : (Conjunction.table.muted fun s => maxWireRun < Conjunction.lengths s) =
        Conjunction.without := by decide
    exact ⟨g, r, ok, reduced, acyclic, muted ▸ table⟩

end TorchLogic.Netlist
