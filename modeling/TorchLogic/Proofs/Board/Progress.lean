import TorchLogic.Proofs.Board.Feeds
import TorchLogic.Proofs.Netlist.Edit

/-!
# What holds while a circuit is traced

At any time some of the terminals on the board have a node (`Board.NodeOf`): the sockets, the
components that were visited, and the sides of the nested circuits among them. `Board.Progress` says
that this is a correspondence between the nodes and terminals of the circuit on the board, that
every edge of the netlist is power, and that of the power between terminals with nodes only what is
*owed* has no edge yet. Tracing is over when nothing is owed.

Two steps make progress. An edge pays what is owed (`Progress.connect`), and a visit adds the node
of a component, with those of its sides, and owes whatever powers them (`Progress.visit`).
-/

namespace TorchLogic

/-- **The component at a position**, as a netlist has it. -/
def World.component? (w : World) (p : Position) : Option Component :=
  match w.block p with
  | .wire => some .wire
  | .torch | .wallTorch _ => some .torch
  | .circuit _ => (w.table? p).map .circuit
  | _ => none

namespace World

variable {w : World} {p : Position}

theorem component?_eq_wire : w.component? p = some .wire ↔ w.block p = .wire := by
  unfold component?
  cases w.block p <;> simp

theorem component?_eq_torch : w.component? p = some .torch ↔ (w.block p).isTorch = true := by
  unfold component?
  cases w.block p <;> simp [Block.isTorch]

theorem component?_eq_circuit {t : TruthTable} : w.component? p = some (.circuit t) ↔
    ∃ facing, w.block p = .circuit facing ∧ w.table? p = some t := by
  unfold component?
  cases w.block p <;> simp

end World

/-- Whether a component has a position of its own. -/
def Component.isPlaced : Component → Bool
  | wire | torch | circuit _ => true
  | _ => false

/-- The node whose position is that of a component: its own, or that of its circuit. -/
def Component.home (id : NodeId) : Component → Option NodeId
  | wire | torch | circuit _ => some id
  | circuitInput _ owner | circuitOutput _ owner => some owner
  | input _ | output _ => none

/-- The terminal that a component is the node of, at a position. -/
def Component.terminal (p : Position) : Component → Terminal
  | input f => .input f
  | output f => .output f
  | wire => .wire p
  | torch => .torch p
  | circuit _ => .circuit p
  | circuitInput side _ => .circuitInput p side
  | circuitOutput side _ => .circuitOutput p side

namespace Component

variable {c : Component} {id k : NodeId}

theorem home_of_isPlaced (h : c.isPlaced = true) : c.home id = some id := by
  cases c <;> first | rfl | cases h

theorem position?_terminal {p : Position} (h : c.home id = some k) :
    (c.terminal p).position? = some p := by
  cases c <;> first | rfl | cases h

end Component

namespace Terminal

/-- Whether a terminal gives power freely: all but a nested circuit and its input sides. -/
def gives : Terminal → Bool
  | circuit _ | circuitInput _ _ => false
  | _ => true

/-- Whether a terminal takes power freely: all but a nested circuit, its output sides and the input
sockets. -/
def takes : Terminal → Bool
  | circuit _ | circuitOutput _ _ | input _ => false
  | _ => true

theorem gives_of_isSource {t : Terminal} (h : t.isSource = true) : t.gives = true := by
  cases t <;> first | rfl | cases h

end Terminal

namespace Board

section Nodes

variable {b : Board} {w : World} {g g' : Netlist .wired} {visited : List (Position × NodeId)}
  {id x y : Nat} {s t : Terminal}

/-- What takes power freely takes it from what gives it freely. -/
theorem Powers.gives (h : b.Powers w s t) (takes : t.takes = true) : s.gives = true := by
  cases h with
  | wireBeside _ power => exact Terminal.gives_of_isSource power.isSource
  | wireThrough _ _ power => exact Terminal.gives_of_isSource power.isSource
  | torch _ _ power => exact Terminal.gives_of_isSource power.isSource
  | circuitThrough _ _ _ power => exact Terminal.gives_of_isSource power.isSource
  | circuitBeside _ _ power => exact Terminal.gives_of_isSource power.isSource
  | circuitIn | circuitOut => cases takes
  | _ => rfl

/-- **Whether a node is that of a terminal**, given which positions were visited. -/
def NodeOf (g : Netlist .wired) (visited : List (Position × NodeId)) (id : NodeId) :
    Terminal → Prop
  | .input f => g.component? id = some (.input f)
  | .output f => g.component? id = some (.output f)
  | .wire p => nodeAt? visited p = some id ∧ g.component? id = some .wire
  | .torch p => nodeAt? visited p = some id ∧ g.component? id = some .torch
  | .circuit p => nodeAt? visited p = some id ∧ ∃ t, g.component? id = some (.circuit t)
  | .circuitInput p side => ∃ owner, nodeAt? visited p = some owner ∧
      g.component? id = some (.circuitInput side owner)
  | .circuitOutput p side => ∃ owner, nodeAt? visited p = some owner ∧
      g.component? id = some (.circuitOutput side owner)

/-- The component of a node and its position tell the terminal. -/
theorem NodeOf.of_component {c : Component} {p : Position} (stands : g.component? id = some c)
    (home : ∀ k, c.home id = some k → nodeAt? visited p = some k) :
    NodeOf g visited id (c.terminal p) := by
  cases c with
  | input f | output f => exact stands
  | wire | torch => exact ⟨home id rfl, stands⟩
  | circuit t => exact ⟨home id rfl, t, stands⟩
  | circuitInput side owner | circuitOutput side owner => exact ⟨owner, home owner rfl, stands⟩

/-- Every terminal with a node is told that way. -/
theorem NodeOf.exists_component (h : NodeOf g visited id t) :
    ∃ c p, g.component? id = some c ∧ t = c.terminal p ∧
      ∀ k, c.home id = some k → nodeAt? visited p = some k := by
  -- A component of the world is at home where it was visited,
  have at_home {c : Component} {p : Position} {home : Nat} (own : c.home id = some home)
      (here : nodeAt? visited p = some home) :
      ∀ k, c.home id = some k → nodeAt? visited p = some k := by
    intro k eq
    rw [own] at eq
    rwa [← Option.some.inj eq]
  -- and a socket of the board has no home.
  have nowhere {c : Component} (own : c.home id = none) {p : Position} :
      ∀ k, c.home id = some k → nodeAt? visited p = some k := by
    intro k eq
    rw [own] at eq
    cases eq
  cases t with
  | input f => exact ⟨_, ⟨0, 0, 0⟩, h, rfl, nowhere rfl⟩
  | output f => exact ⟨_, ⟨0, 0, 0⟩, h, rfl, nowhere rfl⟩
  | wire p => exact ⟨_, p, h.2, rfl, at_home rfl h.1⟩
  | torch p => exact ⟨_, p, h.2, rfl, at_home rfl h.1⟩
  | circuit p =>
    obtain ⟨here, t, stands⟩ := h
    exact ⟨_, p, stands, rfl, at_home rfl here⟩
  | circuitInput p side =>
    obtain ⟨owner, here, stands⟩ := h
    exact ⟨_, p, stands, rfl, at_home rfl here⟩
  | circuitOutput p side =>
    obtain ⟨owner, here, stands⟩ := h
    exact ⟨_, p, stands, rfl, at_home rfl here⟩

/-- The node of a terminal stays its node while nodes are added. -/
theorem NodeOf.mono {visited' : List (Position × NodeId)} (h : NodeOf g visited id t)
    (components : ∀ id c, g.component? id = some c → g'.component? id = some c)
    (positions : ∀ p id, nodeAt? visited p = some id → nodeAt? visited' p = some id) :
    NodeOf g' visited' id t := by
  obtain ⟨c, p, stands, rfl, home⟩ := h.exists_component
  exact .of_component (components _ _ stands) fun k own => positions _ _ (home k own)

/-- Edges do not change which nodes there are. -/
theorem nodeOf_congr (same : ∀ id, g'.component? id = g.component? id) :
    NodeOf g' visited id t ↔ NodeOf g visited id t := by
  refine ⟨fun h => h.mono (fun id c stands => ?_) fun _ _ here => here,
    fun h => h.mono (fun id c stands => ?_) fun _ _ here => here⟩
  · rwa [← same]
  · rwa [same]

theorem NodeOf.lt_size (h : NodeOf g visited id t) : id < g.size := by
  obtain ⟨c, p, stands, -⟩ := h.exists_component
  exact Netlist.lt_size_of_component? stands

theorem NodeOf.drivesFreely (h : NodeOf g visited id t) (gives : t.gives = true) :
    ∃ c, g.component? id = some c ∧ c.drivesFreely = true := by
  cases t with
  | input f => exact ⟨_, h, rfl⟩
  | output f => exact ⟨_, h, rfl⟩
  | wire p => exact ⟨_, h.2, rfl⟩
  | torch p => exact ⟨_, h.2, rfl⟩
  | circuitOutput p side => exact ⟨_, h.choose_spec.2, rfl⟩
  | circuit | circuitInput => cases gives

theorem NodeOf.drivenFreely (h : NodeOf g visited id t) (takes : t.takes = true) :
    ∃ c, g.component? id = some c ∧ c.drivenFreely = true := by
  cases t with
  | output f => exact ⟨_, h, rfl⟩
  | wire p => exact ⟨_, h.2, rfl⟩
  | torch p => exact ⟨_, h.2, rfl⟩
  | circuitInput p side => exact ⟨_, h.choose_spec.2, rfl⟩
  | input | circuit | circuitOutput => cases takes

/-- **What takes power freely may be connected to what powers it.** -/
theorem Powers.legal (h : b.Powers w s t) (takes : t.takes = true) (hx : NodeOf g visited x s)
    (hy : NodeOf g visited y t) :
    ∃ c d, g.component? x = some c ∧ g.component? y = some d ∧ Sealing.fault? x y c d = none := by
  obtain ⟨c, hc, drives⟩ := hx.drivesFreely (h.gives takes)
  obtain ⟨d, hd, driven⟩ := hy.drivenFreely takes
  exact ⟨c, d, hc, hd, Sealing.fault?_of_free drives driven⟩

end Nodes

/-! ### The invariant -/

/-- **What holds while a circuit is traced.** The nodes of the sockets are `inputs` and `outputs`.
-/
structure Progress (b : Board) (w : World) (inputs outputs : List (Facing × NodeId))
    (g : Netlist .wired) (visited : List (Position × NodeId)) (owed : NodeId → Terminal → Prop) :
    Prop where
  /-- The netlist is well formed. -/
  wf : g.WellFormed
  /-- A position that was visited is in the area, and its node is the component there. -/
  placed : ∀ p id, nodeAt? visited p = some id → b.covers p = true ∧
    ∃ c, w.component? p = some c ∧ g.component? id = some c
  /-- No two positions have one node. -/
  distinct : ∀ p q id, nodeAt? visited p = some id → nodeAt? visited q = some id → p = q
  /-- A component with a position of its own was visited. -/
  found : ∀ id c, g.component? id = some c → c.isPlaced = true → ∃ p, nodeAt? visited p = some id
  /-- The nodes of input sockets are those listed. -/
  input : ∀ f id, g.component? id = some (.input f) ↔ inputs.lookup f = some id
  /-- The nodes of output sockets are those listed. -/
  output : ∀ f id, g.component? id = some (.output f) ↔ outputs.lookup f = some id
  /-- Every node belongs to the circuit on the board. -/
  present : ∀ id t, NodeOf g visited id t → b.Present w t
  /-- Every edge is power. -/
  sound : ∀ x y, g.Drives x y →
    ∃ s t, NodeOf g visited x s ∧ NodeOf g visited y t ∧ b.Powers w s t
  /-- Power that is not owed is an edge. -/
  complete : ∀ y t s, NodeOf g visited y t → b.Powers w s t →
    (∃ x, NodeOf g visited x s ∧ g.Drives x y) ∨ owed y s

namespace Progress

variable {b : Board} {w : World} {inputs outputs : List (Facing × NodeId)} {g g' : Netlist .wired}
  {visited : List (Position × NodeId)} {owed owed' : NodeId → Terminal → Prop} {id x y : Nat}
  {s t : Terminal}

/-- A terminal has one node. -/
theorem node_unique (h : b.Progress w inputs outputs g visited owed) (hx : NodeOf g visited x t)
    (hy : NodeOf g visited y t) : x = y := by
  cases t with
  | input f => exact Option.some.inj (((h.input f x).1 hx).symm.trans ((h.input f y).1 hy))
  | output f => exact Option.some.inj (((h.output f x).1 hx).symm.trans ((h.output f y).1 hy))
  | wire p => exact Option.some.inj (hx.1.symm.trans hy.1)
  | torch p => exact Option.some.inj (hx.1.symm.trans hy.1)
  | circuit p => exact Option.some.inj (hx.1.symm.trans hy.1)
  | circuitInput p side =>
    -- one owner at the place, and one child of it on the side
    obtain ⟨owner, here, stands⟩ := hx
    obtain ⟨owner', here', stands'⟩ := hy
    obtain rfl := Option.some.inj (here.symm.trans here')
    exact h.wf.circuitInput_unique stands stands'
  | circuitOutput p side =>
    obtain ⟨owner, here, stands⟩ := hx
    obtain ⟨owner', here', stands'⟩ := hy
    obtain rfl := Option.some.inj (here.symm.trans here')
    exact h.wf.circuitOutput_unique stands stands'

/-- A node is that of one terminal. -/
theorem terminal_unique (h : b.Progress w inputs outputs g visited owed)
    (hs : NodeOf g visited id s) (ht : NodeOf g visited id t) : s = t := by
  obtain ⟨c, p, stands, rfl, home⟩ := hs.exists_component
  obtain ⟨c', q, stands', rfl, home'⟩ := ht.exists_component
  obtain rfl := Option.some.inj (stands.symm.trans stands')
  -- Where the component has a home, both positions are the position of that node.
  have same {k : Nat} (own : c.home id = some k) : c.terminal p = c.terminal q := by
    rw [h.distinct p q k (home k own) (home' k own)]
  cases c with
  | input | output => rfl
  | wire | torch | circuit | circuitInput | circuitOutput => exact same rfl

/-- Every node is that of a terminal. -/
theorem exists_terminal (h : b.Progress w inputs outputs g visited owed) (stands : id < g.size) :
    ∃ t, NodeOf g visited id t := by
  obtain ⟨c, hc⟩ := Option.isSome_iff_exists.1 (Netlist.component?_isSome.2 stands)
  -- A side of a circuit stands where its circuit does.
  have owner {owner : Nat} {t : TruthTable} (ho : g.component? owner = some (.circuit t)) :
      ∃ p, nodeAt? visited p = some owner := h.found owner _ ho rfl
  cases c with
  | input f => exact ⟨.input f, hc⟩
  | output f => exact ⟨.output f, hc⟩
  | wire =>
    -- the components of the world, at the places where they were visited
    obtain ⟨p, here⟩ := h.found id _ hc rfl
    exact ⟨.wire p, here, hc⟩
  | torch =>
    obtain ⟨p, here⟩ := h.found id _ hc rfl
    exact ⟨.torch p, here, hc⟩
  | circuit t =>
    obtain ⟨p, here⟩ := owner hc
    exact ⟨.circuit p, here, t, hc⟩
  | circuitInput side k =>
    -- and the sides of a circuit, by their owner
    obtain ⟨-, t, i, ho, -⟩ := h.wf.circuitInput id side k hc
    obtain ⟨p, here⟩ := owner ho
    exact ⟨.circuitInput p side, k, here, hc⟩
  | circuitOutput side k =>
    obtain ⟨-, t, i, ho, -⟩ := h.wf.circuitOutput id side k hc
    obtain ⟨p, here⟩ := owner ho
    exact ⟨.circuitOutput p side, k, here, hc⟩

/-! ### Paying what is owed -/

/-- An edge that is power keeps the invariant, and pays. -/
theorem link (h : b.Progress w inputs outputs g visited owed) (hx : NodeOf g visited x s)
    (hy : NodeOf g visited y t) (power : b.Powers w s t) {c d : Component}
    (hc : g.component? x = some c) (hd : g.component? y = some d)
    (legal : Sealing.fault? x y c d = none)
    (pays : ∀ k r, owed k r → owed' k r ∨ k = y ∧ r = s) :
    b.Progress w inputs outputs (g.link x y) visited owed' where
  wf := h.wf.link hc hd legal
  placed := by
    intro p id here
    rw [Netlist.component?_link]
    exact h.placed p id here
  distinct := h.distinct
  found := by
    intro id c stands placed
    rw [Netlist.component?_link] at stands
    exact h.found id c stands placed
  input := by
    intro f id
    rw [Netlist.component?_link]
    exact h.input f id
  output := by
    intro f id
    rw [Netlist.component?_link]
    exact h.output f id
  present := fun id t node =>
    h.present id t ((nodeOf_congr (Netlist.component?_link g x y)).1 node)
  sound := by
    intro i j edge
    simp only [nodeOf_congr (Netlist.component?_link g x y)]
    rcases (Netlist.mem_drivers_link hy.lt_size).1 edge with old | ⟨rfl, rfl⟩
    · exact h.sound i j old
    · exact ⟨s, t, hx, hy, power⟩
  complete := by
    intro j r q node power
    simp only [nodeOf_congr (Netlist.component?_link g x y)] at node ⊢
    -- An old edge stays, and what was owed and is not any more has the new one.
    have edge (i : Nat) (old : g.Drives i j) : (g.link x y).Drives i j :=
      (Netlist.mem_drivers_link hy.lt_size).2 (.inl old)
    rcases h.complete j r q node power with ⟨i, hi, old⟩ | owes
    · exact .inl ⟨i, hi, edge i old⟩
    · rcases pays j q owes with owes | ⟨rfl, rfl⟩
      · exact .inr owes
      · exact .inl ⟨x, hx, (Netlist.mem_drivers_link hy.lt_size).2 (.inr ⟨rfl, rfl⟩)⟩

/-- **Connecting a terminal to what it powers** succeeds and pays. -/
theorem connect (h : b.Progress w inputs outputs g visited owed) (hx : NodeOf g visited x s)
    (hy : NodeOf g visited y t) (power : b.Powers w s t) (takes : t.takes = true)
    (pays : ∀ k r, owed k r → owed' k r ∨ k = y ∧ r = s) :
    ∃ g', g.connect x y = .ok g' ∧ (∀ id, g'.component? id = g.component? id) ∧
      b.Progress w inputs outputs g' visited owed' := by
  obtain ⟨c, d, hc, hd, legal⟩ := power.legal takes hx hy
  exact ⟨g.link x y, Netlist.connect_eq_ok_iff.2 ⟨c, d, hc, hd, legal, rfl⟩,
    Netlist.component?_link g x y, h.link hx hy power hc hd legal pays⟩

end Progress

end Board

end TorchLogic
