import TorchLogic.Proofs.Board.Visit

/-!
# Following feeds

What is owed while feeds are followed is what the pending feeds stand for (`Board.Owed`), and each
pending feed is due: if it is in the area, it powers a terminal with the node that it is pending for
(`Board.Due`). Following a feed pays it. If its component was not visited before, its own feeds
become due instead, and these are all that the visit owes. So in the end nothing is owed
(`Board.Progress.follow`), in whatever order the positions were reached.
-/

namespace TorchLogic

/-- The component of a feed. -/
def Feed.component : Feed → Component
  | wire _ => .wire
  | torch _ => .torch
  | circuit _ table _ => .circuit table

theorem Feed.isPlaced_component (feed : Feed) : feed.component.isPlaced = true := by
  cases feed <;> rfl

/-- A genuine feed names the component at its position. -/
theorem Feed.Genuine.component? {w : World} {feed : Feed} (h : feed.Genuine w) :
    w.component? feed.position = some feed.component := by
  cases feed with
  | wire p => exact World.component?_eq_wire.2 h
  | torch p => exact World.component?_eq_torch.2 h
  | circuit p table side =>
    obtain ⟨⟨facing, block⟩, kept, -⟩ := h
    exact World.component?_eq_circuit.2 ⟨facing, block, kept⟩

theorem Feed.Genuine.isComponent {w : World} {feed : Feed} (h : feed.Genuine w) :
    (w.block feed.position).isComponent = true := by
  cases feed with
  | wire p =>
    have block : w.block p = .wire := h
    rw [Feed.position, block]
    rfl
  | torch p =>
    have torch : (w.block p).isTorch = true := h
    rw [Feed.position, Block.isComponent, torch, Bool.or_true, Bool.true_or]
  | circuit p table side =>
    obtain ⟨⟨facing, block⟩, -⟩ := h
    rw [Feed.position, block]
    rfl

namespace Board

/-! ### The blocks of the sockets -/

/-- No block belongs to two sockets. -/
theorem socketBlocks_disjoint {corner p : Position} {f f' : Facing}
    (h : p ∈ socketBlocks corner f) (h' : p ∈ socketBlocks corner f') : f = f' := by
  -- The blocks lie between the corners, and a place between two corners is on one edge only.
  have inner {n : Nat} (mem : n ∈ (List.range edge).filter isInner) : 0 < n ∧ n < 7 := by
    rw [List.mem_filter, List.mem_range, isInner, Bool.and_eq_true, bne_iff_ne, bne_iff_ne] at mem
    unfold edge at mem
    omega
  obtain ⟨n, hn, rfl⟩ := List.mem_map.1 h
  obtain ⟨m, hm, eq⟩ := List.mem_map.1 h'
  have bn := inner hn
  have bm := inner hm
  rw [cellAt, cellAt, Position.offset, Position.offset, Position.mk.injEq] at eq
  cases f <;> cases f' <;> simp only [edgeCell, edge] at eq <;> first | rfl | omega

variable {b : Board} {w : World} {inputs outputs : List (Facing × NodeId)} {g g' : Netlist .wired}
  {visited : List (Position × NodeId)} {owed owed' : NodeId → Terminal → Prop} {p q : Position}
  {f : Facing} {feed : Feed} {id target : Nat} {s t : Terminal}

theorem mem_sidesWith {r : SocketRole} : f ∈ b.sidesWith r ↔ b.role f = r := by
  rw [sidesWith, List.mem_filter, decide_eq_true_iff]
  exact and_iff_right (Facing.mem_all f)

/-- The input socket with a block is found. -/
theorem inputSideAt?_eq_some_iff :
    b.inputSideAt? q = some f ↔ b.role f = .input ∧ q ∈ socketBlocks b.corner f := by
  have contains (f : Facing) : (b.socket f).contains q = true ↔ q ∈ socketBlocks b.corner f := by
    rw [BoardSocket.contains, List.contains_iff_mem]
    rfl
  -- What the search finds fits.
  have sound {f : Facing} (found : b.inputSideAt? q = some f) :
      b.role f = .input ∧ q ∈ socketBlocks b.corner f :=
    ⟨mem_sidesWith.1 (List.mem_of_find?_eq_some found),
      (contains f).1 (List.find?_some (p := fun f => (b.socket f).contains q) found)⟩
  -- The first side that fits is the only one.
  refine ⟨sound, fun ⟨role, mem⟩ => ?_⟩
  have some_found : (b.inputSideAt? q).isSome := by
    rw [inputSideAt?, List.find?_isSome]
    exact ⟨f, mem_sidesWith.2 role, (contains f).2 mem⟩
  obtain ⟨f', found⟩ := Option.isSome_iff_exists.1 some_found
  rw [found, socketBlocks_disjoint mem (sound found).2]

/-! ### What stands at a position -/

theorem Stands.eq_wire (h : b.Stands w t) (here : t.position? = some p)
    (block : w.block p = .wire) : t = .wire p := by
  cases t with
  | input | output => cases here
  | wire q => exact congrArg Terminal.wire (Option.some.inj here)
  | torch q =>
    have torch := h.2
    rw [Option.some.inj here, block] at torch
    cases torch
  | circuit q =>
    obtain ⟨facing, table, -, circuit, -⟩ := h
    rw [Option.some.inj here, block] at circuit
    cases circuit
  | circuitInput q side | circuitOutput q side =>
    obtain ⟨facing, table, ⟨-, circuit, -⟩, -⟩ := h
    rw [Option.some.inj here, block] at circuit
    cases circuit

theorem Stands.eq_torch (h : b.Stands w t) (here : t.position? = some p)
    (block : (w.block p).isTorch = true) : t = .torch p := by
  cases t with
  | input | output => cases here
  | wire q =>
    rw [← Option.some.inj here, h.2] at block
    cases block
  | torch q => exact congrArg Terminal.torch (Option.some.inj here)
  | circuit q =>
    obtain ⟨facing, table, -, circuit, -⟩ := h
    rw [← Option.some.inj here, circuit] at block
    cases block
  | circuitInput q side | circuitOutput q side =>
    obtain ⟨facing, table, ⟨-, circuit, -⟩, -⟩ := h
    rw [← Option.some.inj here, circuit] at block
    cases block

theorem Stands.eq_circuit (h : b.Stands w t) (here : t.position? = some p) {facing : Facing}
    (block : w.block p = .circuit facing) : t = .circuit p ∨ (∃ side, t = .circuitInput p side) ∨
      ∃ side, t = .circuitOutput p side := by
  cases t with
  | input | output => cases here
  | wire q =>
    have wire := h.2
    rw [Option.some.inj here, block] at wire
    cases wire
  | torch q =>
    have torch := h.2
    rw [Option.some.inj here, block] at torch
    cases torch
  | circuit q => exact .inl (congrArg Terminal.circuit (Option.some.inj here))
  | circuitInput q side =>
    obtain rfl := Option.some.inj here
    exact .inr (.inl ⟨side, rfl⟩)
  | circuitOutput q side =>
    obtain rfl := Option.some.inj here
    exact .inr (.inr ⟨side, rfl⟩)

theorem Stands.covers (h : b.Stands w feed.terminal) : b.covers feed.position = true := by
  cases feed with
  | wire p | torch p => exact h.1
  | circuit p table side =>
    obtain ⟨facing, table', circuit, -⟩ := h
    exact circuit.1

/-- **With a feed that matters**, everything at its position belongs to the circuit on the board. -/
theorem Present.of_feed (traced : b.Traced w feed.terminal)
    (here : t.position? = some feed.position) (stands : b.Stands w t) : b.Present w t := by
  cases feed with
  | wire p =>
    rw [stands.eq_wire here traced.stands.2]
    exact .traced traced
  | torch p =>
    rw [stands.eq_torch here traced.stands.2]
    exact .traced traced
  | circuit p table side =>
    obtain ⟨facing, table', circuit, output⟩ := traced.stands
    -- With one output side the circuit matters, with the circuit its input sides, and the other
    -- output sides come along.
    have whole : b.Traced w (.circuit p) := traced.of_powers (.circuitOut circuit output)
    rcases stands.eq_circuit here circuit.2.1 with rfl | ⟨side', rfl⟩ | ⟨side', rfl⟩
    · exact .traced whole
    · obtain ⟨facing', table', circuit', input⟩ := stands
      exact .traced (whole.of_powers (.circuitIn circuit' input))
    · obtain ⟨facing', table', circuit', output'⟩ := stands
      exact .circuitOutput whole circuit' output'

/-! ### One step -/

/-- Less is owed than is said to be, as far as power goes. -/
theorem Progress.weaken (h : b.Progress w inputs outputs g visited owed)
    (less : ∀ y t s, NodeOf g visited y t → b.Powers w s t → owed y s → owed' y s) :
    b.Progress w inputs outputs g visited owed' :=
  { h with
    complete := fun y t s node power =>
      (h.complete y t s node power).imp_right (less y t s node power) }

/-- The component at a position is that of its node. -/
theorem Progress.component?_of_feed (h : b.Progress w inputs outputs g visited owed)
    (genuine : feed.Genuine w) (here : nodeAt? visited feed.position = some id) :
    g.component? id = some feed.component := by
  obtain ⟨-, c, stands, node⟩ := h.placed _ _ here
  rw [genuine.component?, Option.some.injEq] at stands
  rw [node, stands]

/-- Only a wire has the node of a wire. -/
theorem NodeOf.eq_wire (node : NodeOf g visited id t) (wire : g.component? id = some .wire) :
    ∃ p, t = .wire p := by
  obtain ⟨c, p, stands, rfl, -⟩ := node.exists_component
  obtain rfl := Option.some.inj (wire.symm.trans stands)
  exact ⟨p, rfl⟩

/-- **Attaching a visited component** to what it powers succeeds and pays. -/
theorem Progress.attach (h : b.Progress w inputs outputs g visited owed) (genuine : feed.Genuine w)
    (here : nodeAt? visited feed.position = some id) (node : NodeOf g visited target t)
    (takes : t.takes = true) (power : b.Powers w feed.terminal t)
    (pays : ∀ k r, owed k r → owed' k r ∨ k = target ∧ r = feed.terminal) :
    ∃ g', Board.attach g id feed target = .ok g' ∧ (∀ k, g'.component? k = g.component? k) ∧
      b.Progress w inputs outputs g' visited owed' := by
  have own := h.component?_of_feed genuine here
  cases feed with
  | wire p =>
    have self : NodeOf g visited id (.wire p) := ⟨here, own⟩
    unfold Board.attach
    -- Two wires are joined both ways, anything else gets the one edge.
    by_cases wire : g.isWire target = true
    · have other : g.component? target = some .wire := by
        obtain ⟨c, hc, eq⟩ := (Option.any_eq_true _ _).1 wire
        cases c <;> first | exact hc | cases eq
      obtain ⟨q, rfl⟩ := node.eq_wire other
      -- The edge back is power as well, for wires power each other.
      have first := h.link self node power own other rfl pays
      have same := Netlist.component?_link g id target
      have both : b.Progress w inputs outputs ((g.link id target).link target id) visited owed' :=
        first.link ((nodeOf_congr same).2 node) ((nodeOf_congr same).2 self)
          (powers_wire_comm.1 power) ((same target).trans other) ((same id).trans own) rfl
          fun k r owes => .inl owes
      refine ⟨(g.link id target).link target id, ?_, fun k => ?_, both⟩
      · rw [if_pos wire]
        exact Netlist.joinWires_eq_ok_iff.2 ⟨rfl, own, other, rfl⟩
      · rw [Netlist.component?_link, Netlist.component?_link]
    · rw [if_neg wire]
      exact h.connect self node power takes pays
  | torch p => exact h.connect (s := .torch p) ⟨here, own⟩ node power takes pays
  | circuit p table side =>
    -- The edge is from the output child on the side by which the feed powers.
    obtain ⟨child, found, stands⟩ := h.wf.circuitOutput_eq own genuine.2.2
    obtain ⟨g', ok, same, progress⟩ :=
      h.connect (s := .circuitOutput p side) ⟨id, here, stands⟩ node power takes pays
    refine ⟨g', ?_, same, progress⟩
    unfold Board.attach
    simp only [found, bind, Except.bind]
    exact ok

/-- A wire stands on one block, and so on the socket that powers it and on no other. -/
theorem inputSideAt?_of_powers (power : b.Powers w (.input f) (.wire p)) :
    b.inputSideAt? p.below = some f := by
  obtain ⟨q, eq, role, mem, -⟩ := powers_input_iff.1 power
  cases eq
  exact inputSideAt?_eq_some_iff.2 ⟨role, mem⟩

/-- A wire on an input socket gets an edge from the node of the socket. -/
theorem Progress.attachInput_wire (h : b.Progress w inputs outputs g visited owed)
    (ready : ∀ f, b.role f = .input → ∃ input, inputs.lookup f = some input)
    (self : NodeOf g visited id (.wire p)) (side : b.inputSideAt? p.below = some f) :
    ∃ g', b.attachInput inputs g id (.wire p) = .ok g' ∧
      (∀ k, g'.component? k = g.component? k) ∧
      b.Progress w inputs outputs g' visited
        fun k r => owed k r ∧ ¬ (k = id ∧ ∃ f, r = .input f) := by
  obtain ⟨role, mem⟩ := inputSideAt?_eq_some_iff.1 side
  obtain ⟨input, found⟩ := ready f role
  have power : b.Powers w (.input f) (.wire p) := .input role mem (h.present id _ self).stands
  have socket : NodeOf g visited input (.input f) := (h.input f input).2 found
  -- No other input socket is owed to the wire.
  have less : b.Progress w inputs outputs g visited fun k r =>
      owed k r ∧ (k = id → ∀ f', r = .input f' → f' = f) := by
    refine h.weaken fun y t s node power owes => ⟨owes, ?_⟩
    rintro rfl f' rfl
    rw [h.terminal_unique node self] at power
    have other := inputSideAt?_of_powers power
    rw [side] at other
    exact (Option.some.inj other).symm
  have pays (k : Nat) (r : Terminal)
      (owes : owed k r ∧ (k = id → ∀ f', r = .input f' → f' = f)) :
      (owed k r ∧ ¬ (k = id ∧ ∃ f, r = .input f)) ∨ k = id ∧ r = .input f := by
    by_cases paid : k = id ∧ ∃ f, r = .input f
    · obtain ⟨rfl, f', rfl⟩ := paid
      rw [owes.2 rfl f' rfl]
      exact .inr ⟨rfl, rfl⟩
    · exact .inl ⟨owes.1, paid⟩
  obtain ⟨g', ok, same, progress⟩ := less.connect socket self power rfl pays
  refine ⟨g', ?_, same, progress⟩
  rw [Board.attachInput, side, Option.bind_some, found]
  exact ok

/-- **Attaching the input socket that a wire stands on**: no power from an input socket is owed to a
node any more. -/
theorem Progress.attachInput (h : b.Progress w inputs outputs g visited owed)
    (ready : ∀ f, b.role f = .input → ∃ input, inputs.lookup f = some input)
    (genuine : feed.Genuine w) (here : nodeAt? visited feed.position = some id) :
    ∃ g', b.attachInput inputs g id feed = .ok g' ∧ (∀ k, g'.component? k = g.component? k) ∧
      b.Progress w inputs outputs g' visited
        fun k r => owed k r ∧ ¬ (k = id ∧ ∃ f, r = .input f) := by
  have own := h.component?_of_feed genuine here
  -- Where no input socket powers the node, nothing needs to be done.
  have idle {t : Terminal} (self : NodeOf g visited id t)
      (apart : ∀ f, ¬ b.Powers w (.input f) t) :
      b.Progress w inputs outputs g visited fun k r =>
        owed k r ∧ ¬ (k = id ∧ ∃ f, r = .input f) := by
    refine h.weaken fun y t s node power owes => ⟨owes, ?_⟩
    rintro ⟨rfl, f, rfl⟩
    rw [h.terminal_unique node self] at power
    exact apart f power
  cases feed with
  | wire p =>
    have self : NodeOf g visited id (.wire p) := ⟨here, own⟩
    cases side : b.inputSideAt? p.below with
    | none =>
      refine ⟨g, ?_, fun _ => rfl, idle self fun f power => ?_⟩
      · rw [Board.attachInput, side]
        rfl
      · rw [inputSideAt?_of_powers power] at side
        cases side
    | some f => exact h.attachInput_wire ready self side
  | torch p =>
    -- a torch is not powered by an input socket, and neither is a circuit
    refine ⟨g, rfl, fun _ => rfl, idle (t := .torch p) ⟨here, own⟩ fun f power => ?_⟩
    obtain ⟨q, eq, -⟩ := powers_input_iff.1 power
    cases eq
  | circuit p table side =>
    refine ⟨g, rfl, fun _ => rfl, idle (t := .circuit p) ⟨here, table, own⟩ fun f power => ?_⟩
    obtain ⟨q, eq, -⟩ := powers_input_iff.1 power
    cases eq

/-! ### Pending feeds -/

/-- **What is owed by pending feeds.** -/
def Owed (pending : List (NodeId × Feed)) (y : NodeId) (s : Terminal) : Prop :=
  ∃ feed, (y, feed) ∈ pending ∧ feed.terminal = s

/-- **Whether a feed is due at a node**: it is in the world, and if it is in the area, it powers
what the node is the node of. -/
structure Due (b : Board) (w : World) (g : Netlist .wired) (visited : List (Position × NodeId))
    (y : NodeId) (feed : Feed) : Prop where
  genuine : feed.Genuine w
  powers : ∃ t, NodeOf g visited y t ∧ t.takes = true ∧
    (b.covers feed.position = true → b.Powers w feed.terminal t)

/-- What is due stays due while nodes are added. -/
theorem Due.mono {visited' : List (Position × NodeId)} {y : Nat} (h : b.Due w g visited y feed)
    (keeps : ∀ t, NodeOf g visited y t → NodeOf g' visited' y t) : b.Due w g' visited' y feed where
  genuine := h.genuine
  powers := by
    obtain ⟨t, node, takes, power⟩ := h.powers
    exact ⟨t, keeps t node, takes, power⟩

theorem owed_append {l l' : List (NodeId × Feed)} {y : Nat} :
    Owed (l ++ l') y s ↔ Owed l y s ∨ Owed l' y s := by
  unfold Owed
  refine ⟨?_, ?_⟩
  · rintro ⟨feed, mem, eq⟩
    exact (List.mem_append.1 mem).imp (fun mem => ⟨feed, mem, eq⟩) fun mem => ⟨feed, mem, eq⟩
  · rintro (⟨feed, mem, eq⟩ | ⟨feed, mem, eq⟩)
    · exact ⟨feed, List.mem_append_left l' mem, eq⟩
    · exact ⟨feed, List.mem_append_right l mem, eq⟩

theorem owed_cons {rest : List (NodeId × Feed)} {y : Nat} (h : Owed ((target, feed) :: rest) y s) :
    Owed rest y s ∨ y = target ∧ s = feed.terminal := by
  obtain ⟨other, mem, rfl⟩ := h
  rcases List.mem_cons.1 mem with eq | mem
  · cases eq
    exact .inr ⟨rfl, rfl⟩
  · exact .inl ⟨other, mem, rfl⟩

/-- The feeds that a list holds for a terminal are due at its node, and are what it is owed. -/
theorem due_of_lists {feeds : List Feed} {y : Nat} {P : Terminal → Prop} (lists : b.Lists w feeds P)
    (node : NodeOf g visited y t) (takes : t.takes = true) (power : ∀ s, P s → b.Powers w s t) :
    (∀ e ∈ feeds.map (y, ·), b.Due w g visited e.1 e.2) ∧
      ∀ s, P s → Owed (feeds.map (y, ·)) y s := by
  refine ⟨fun e mem => ?_, fun s powers => ?_⟩
  · obtain ⟨feed, listed, rfl⟩ := List.mem_map.1 mem
    exact ⟨lists.genuine feed listed, t, node, takes,
      fun covered => power _ (lists.sound feed listed covered)⟩
  · obtain ⟨feed, listed, rfl⟩ := lists.complete s powers
    exact ⟨feed, List.mem_map_of_mem listed, rfl⟩

/-- The feeds of an input side of a nested circuit are due at the child for that side. -/
theorem Progress.exists_childFeeds (h : b.Progress w inputs outputs g visited owed)
    {facing : Facing} {table : TruthTable} {side : Side} {child : Nat}
    (circuit : b.CircuitAt w p facing table) (here : nodeAt? visited p = some id)
    (own : g.component? id = some (.circuit table))
    (stands : g.component? child = some (.circuitInput side id)) :
    ∃ feeds, b.circuitFeeds w p facing side = .ok feeds ∧
      (∀ e ∈ feeds.map (child, ·), b.Due w g visited e.1 e.2) ∧
      ∀ s, b.Powers w s (.circuitInput p side) → Owed (feeds.map (child, ·)) child s := by
  have input : side ∈ table.inputs := by
    obtain ⟨-, table', i, owner, hi, -⟩ := h.wf.circuitInput _ _ _ stands
    rw [own, Option.some.injEq, Component.circuit.injEq] at owner
    rw [owner]
    exact List.mem_of_getElem? hi
  have node : NodeOf g visited child (.circuitInput p side) := ⟨id, here, stands⟩
  obtain ⟨feeds, found, lists⟩ := finds_circuitFeeds circuit input
  exact ⟨feeds, found, due_of_lists lists node rfl fun _ power => power⟩

/-- **The feeds of a visited circuit are due**, each at the child for its side, and they are all
that is owed at its position. -/
theorem Progress.feedsOf_circuit (h : b.Progress w inputs outputs g visited owed)
    {facing : Facing} {table : TruthTable} (side : Side)
    (circuit : b.CircuitAt w p facing table) (here : nodeAt? visited p = some id)
    (own : g.component? id = some (.circuit table)) :
    ∃ feeds, b.feedsOf w g id (.circuit p table side) = .ok feeds ∧
      (∀ e ∈ feeds, b.Due w g visited e.1 e.2) ∧
      ∀ y s, b.OwedAt w g visited p y s → Owed feeds y s := by
  obtain ⟨children, listed, exact_children⟩ := h.wf.circuitInputs_eq own
  have feeds_of (child : Side × NodeId) : ∃ feeds, child ∈ children →
      b.circuitFeeds w p facing child.1 = .ok feeds ∧
        (∀ e ∈ feeds.map (child.2, ·), b.Due w g visited e.1 e.2) ∧
        ∀ s, b.Powers w s (.circuitInput p child.1) → Owed (feeds.map (child.2, ·)) child.2 s := by
    by_cases mem : child ∈ children
    · obtain ⟨feeds, found⟩ :=
        h.exists_childFeeds circuit here own ((exact_children child.1 child.2).1 mem)
      exact ⟨feeds, fun _ => found⟩
    · exact ⟨[], fun yes => absurd yes mem⟩
  choose feeds feeds_of using feeds_of
  refine ⟨children.flatMap fun c => (feeds c).map (c.2, ·), ?_, ?_,
    fun y s ⟨t, node, at_p, takes, power⟩ => ?_⟩
  · -- the feeds are those of the children, one after another
    unfold Board.feedsOf
    simp only [circuit.2.1, listed]
    refine flatMapM_eq_ok fun c mem => ?_
    simp only [(feeds_of c mem).1, bind, Except.bind]
  · intro e mem
    obtain ⟨child, child_mem, e_mem⟩ := List.mem_flatMap.1 mem
    exact (feeds_of child child_mem).2.1 e e_mem
  · -- of the nodes of a circuit only the input children take power
    rcases (h.present y t node).stands.eq_circuit at_p circuit.2.1 with
      rfl | ⟨side, rfl⟩ | ⟨side, rfl⟩
    · cases takes
    · obtain ⟨owner, here', stands⟩ := node
      obtain rfl := Option.some.inj (here'.symm.trans here)
      have mem := (exact_children side y).2 stands
      obtain ⟨feed, feed_mem, eq⟩ := (feeds_of _ mem).2.2 s power
      exact ⟨feed, List.mem_flatMap.2 ⟨(side, y), mem, feed_mem⟩, eq⟩
    · cases takes

/-- **The feeds of a visited component are due**, and but for an input socket they are all that is
owed at its position. -/
theorem Progress.feedsOf (h : b.Progress w inputs outputs g visited owed) (genuine : feed.Genuine w)
    (here : nodeAt? visited feed.position = some id) :
    ∃ feeds, b.feedsOf w g id feed = .ok feeds ∧ (∀ e ∈ feeds, b.Due w g visited e.1 e.2) ∧
      ∀ y s, b.OwedAt w g visited feed.position y s →
        Owed feeds y s ∨ y = id ∧ ∃ f, s = .input f := by
  have own := h.component?_of_feed genuine here
  have covered := (h.placed _ _ here).1
  cases feed with
  | wire p =>
    have self : NodeOf g visited id (.wire p) := ⟨here, own⟩
    have wire : b.WireAt w p := (h.present id _ self).stands
    obtain ⟨feeds, found, lists⟩ := finds_wireFeeds wire
    obtain ⟨due, owed⟩ := due_of_lists lists self rfl fun _ power => power.1
    refine ⟨feeds.map (id, ·), ?_, due, fun y s ⟨t, node, at_p, _, power⟩ => ?_⟩
    · rw [Board.feedsOf, found]
      rfl
    obtain rfl : t = .wire p := (h.present y t node).stands.eq_wire at_p wire.2
    rw [h.node_unique node self]
    -- The list leaves out input sockets, for they are attached with the visit.
    by_cases socket : ∃ f, s = .input f
    · exact .inr ⟨rfl, socket⟩
    · exact .inl (owed s ⟨power, fun f eq => socket ⟨f, eq⟩⟩)
  | torch p =>
    have self : NodeOf g visited id (.torch p) := ⟨here, own⟩
    have torch : b.TorchAt w p := (h.present id _ self).stands
    obtain ⟨feeds, found, lists⟩ := finds_torchFeeds torch
    obtain ⟨due, owed⟩ := due_of_lists lists self rfl fun _ power => power
    refine ⟨feeds.map (id, ·), ?_, due, fun y s ⟨t, node, at_p, _, power⟩ => .inl ?_⟩
    · rw [Board.feedsOf, found]
      rfl
    obtain rfl : t = .torch p := (h.present y t node).stands.eq_torch at_p torch.2
    rw [h.node_unique node self]
    exact owed s power
  | circuit p table side =>
    obtain ⟨⟨facing, block⟩, kept, -⟩ := genuine
    obtain ⟨feeds, found, due, owed⟩ := h.feedsOf_circuit side ⟨covered, block, kept⟩ here own
    exact ⟨feeds, found, due, fun y s owes => .inl (owed y s owes)⟩

/-! ### The whole walk -/

theorem addNode_eq (h : g.WellFormed) (feed : Feed) :
    ∃ g', addNode g feed = .ok (g.size, g') ∧ g.Adds g' feed.component := by
  cases feed with
  | wire p => exact ⟨g.push .wire, rfl, Netlist.adds_push h rfl rfl⟩
  | torch p => exact ⟨g.push .torch, rfl, Netlist.adds_push h rfl rfl⟩
  | circuit p table side => exact ⟨(g.addCircuit table).2, rfl, Netlist.adds_addCircuit h table⟩

section Follow

variable {rest : List (NodeId × Feed)}

theorem follow_nil : b.follow w inputs g visited [] = .ok (g, visited) := by
  rw [follow.eq_def]

theorem follow_of_visited (covered : b.covers feed.position = true)
    (here : nodeAt? visited feed.position = some id) :
    b.follow w inputs g visited ((target, feed) :: rest) = (do
      let g ← (Board.attach g id feed target).mapError .netlist
      b.follow w inputs g visited rest) := by
  rw [follow, if_pos covered]
  split
  case h_1 k there =>
    rw [here, Option.some.injEq] at there
    rw [there]
  case h_2 there =>
    rw [here] at there
    cases there

theorem follow_of_fresh (covered : b.covers feed.position = true)
    (fresh : nodeAt? visited feed.position = none)
    (component : (w.block feed.position).isComponent = true) :
    b.follow w inputs g visited ((target, feed) :: rest) = (do
      let n ← (addNode g feed).mapError .netlist
      let g ← (Board.attach n.2 n.1 feed target).mapError .netlist
      let g ← (b.attachInput inputs g n.1 feed).mapError .netlist
      let feeds ← b.feedsOf w g n.1 feed
      b.follow w inputs g ((feed.position, n.1) :: visited) (feeds ++ rest)) := by
  rw [follow, if_pos covered]
  split
  case h_1 k there =>
    rw [fresh] at there
    cases there
  case h_2 => rw [dif_pos component]

theorem follow_of_outside (outside : ¬ b.covers feed.position = true) :
    b.follow w inputs g visited ((target, feed) :: rest) = b.follow w inputs g visited rest := by
  rw [follow, if_neg outside]

theorem follow_of_missing (covered : b.covers feed.position = true)
    (fresh : nodeAt? visited feed.position = none)
    (missing : ¬ (w.block feed.position).isComponent = true) :
    b.follow w inputs g visited ((target, feed) :: rest) = b.follow w inputs g visited rest := by
  rw [follow, if_pos covered]
  split
  case h_1 k there =>
    rw [fresh] at there
    cases there
  case h_2 => rw [dif_neg missing]

/-- Following feeds and then others is following them one list after the other. -/
theorem follow_append (first second : List (NodeId × Feed)) :
    b.follow w inputs g visited (first ++ second) = (do
      let st ← b.follow w inputs g visited first
      b.follow w inputs st.1 st.2 second) := by
  -- The induction goes along the first list, feed by feed.
  induction g, visited, first using Board.follow.induct b w with
  | case1 g visited =>
    rw [List.nil_append, follow_nil]
    rfl
  | case2 g visited target feed rest covered id here ih =>
    rw [List.cons_append, follow_of_visited covered here, follow_of_visited covered here,
      bind_assoc]
    exact bind_congr ih
  -- The feeds of a first visit come before both.
  | case3 g visited target feed rest covered fresh component ih =>
    rw [List.cons_append, follow_of_fresh covered fresh component,
      follow_of_fresh covered fresh component]
    simp only [bind_assoc]
    refine bind_congr fun n => bind_congr fun g₁ => bind_congr fun g₂ => bind_congr fun feeds => ?_
    rw [← List.append_assoc]
    exact ih n.1 g₂ feeds
  | case4 g visited target feed rest covered fresh missing ih =>
    rw [List.cons_append, follow_of_missing covered fresh missing,
      follow_of_missing covered fresh missing]
    exact ih
  | case5 g visited target feed rest outside ih =>
    rw [List.cons_append, follow_of_outside outside, follow_of_outside outside]
    exact ih

/-- **The first visit of a component** succeeds. It pays the feed by which the component was
reached, and what it owes instead is due. -/
theorem Progress.firstVisit
    (h : b.Progress w inputs outputs g visited (Owed ((target, feed) :: rest)))
    (ready : ∀ f, b.role f = .input → ∃ input, inputs.lookup f = some input)
    (due : ∀ e ∈ (target, feed) :: rest, b.Due w g visited e.1 e.2)
    (covered : b.covers feed.position = true) (fresh : nodeAt? visited feed.position = none) :
    ∃ n g₂ g₃ feeds, addNode g feed = .ok n ∧ Board.attach n.2 n.1 feed target = .ok g₂ ∧
      b.attachInput inputs g₂ n.1 feed = .ok g₃ ∧ b.feedsOf w g₃ n.1 feed = .ok feeds ∧
      b.Progress w inputs outputs g₃ ((feed.position, n.1) :: visited) (Owed (feeds ++ rest)) ∧
      ∀ e ∈ feeds ++ rest, b.Due w g₃ ((feed.position, n.1) :: visited) e.1 e.2 := by
  obtain ⟨genuine, t, node, takes, power⟩ := due (target, feed) List.mem_cons_self
  have here := nodeAt?_cons_self feed.position g.size visited
  -- The component matters, for it powers something that does.
  have traced : b.Traced w feed.terminal := by
    refine Traced.of_powers ?_ (power covered)
    cases h.present target t node with
    | traced traced => exact traced
    | input | circuitOutput => cases takes
  obtain ⟨g₁, added, adds⟩ := addNode_eq h.wf feed
  have h₁ := h.visit adds fresh feed.isPlaced_component genuine.component? covered
    fun t at_p stands => Present.of_feed traced at_p stands
  -- Numbers that stand keep their components, and a feed is never for the node that is added.
  have keeps {y : Nat} {t : Terminal} (old : NodeOf g visited y t) := old.kept adds fresh
  have pays (y : Nat) (s : Terminal) (owes : Owed ((target, feed) :: rest) y s ∨
      b.OwedAt w g₁ ((feed.position, g.size) :: visited) feed.position y s) :
      (Owed rest y s ∨ b.OwedAt w g₁ ((feed.position, g.size) :: visited) feed.position y s) ∨
        y = target ∧ s = feed.terminal := by
    rcases owes with owes | new
    · exact (owed_cons owes).imp_left .inl
    · exact .inl (.inr new)
  obtain ⟨g₂, attached, same₂, h₂⟩ :=
    h₁.attach genuine here (keeps node) takes (power covered) pays
  obtain ⟨g₃, connected, same₃, h₃⟩ := h₂.attachInput ready genuine here
  have same {y : Nat} {t : Terminal} : NodeOf g₃ ((feed.position, g.size) :: visited) y t ↔
      NodeOf g₁ ((feed.position, g.size) :: visited) y t :=
    (nodeOf_congr same₃).trans (nodeOf_congr same₂)
  obtain ⟨feeds, listed, feeds_due, feeds_owed⟩ := h₃.feedsOf genuine here
  refine ⟨(g.size, g₁), g₂, g₃, feeds, added, attached, connected, listed, ?_, fun e mem => ?_⟩
  · refine h₃.weaken fun y t s _ _ ⟨owes, unpaid⟩ => owed_append.2 ?_
    -- What was pending still is, and what the visit owes is pending now, but for an input socket
    -- that has been attached.
    rcases owes with owes | ⟨t', new, at_p, takes', power'⟩
    · exact .inr owes
    · exact .inl ((feeds_owed y s ⟨t', same.2 new, at_p, takes', power'⟩).resolve_right unpaid)
  · -- the feeds of the visit are due, and the others are as they were
    rcases List.mem_append.1 mem with mem | mem
    · exact feeds_due e mem
    · exact (due e (List.mem_cons_of_mem _ mem)).mono fun t old => same.2 (keeps old)

/-- **Following feeds succeeds, and then nothing is owed.** -/
theorem Progress.follow (ready : ∀ f, b.role f = .input → ∃ input, inputs.lookup f = some input)
    {pending : List (NodeId × Feed)} (h : b.Progress w inputs outputs g visited (Owed pending))
    (due : ∀ e ∈ pending, b.Due w g visited e.1 e.2) :
    ∃ g' visited', b.follow w inputs g visited pending = .ok (g', visited') ∧
      b.Progress w inputs outputs g' visited' fun _ _ => False := by
  -- The induction follows the visit, and what it preserves is that whatever is owed is pending.
  induction g, visited, pending using Board.follow.induct b w with
  | case1 g visited =>
    exact ⟨g, visited, follow_nil, h.weaken fun y t s _ _ ⟨feed, mem, _⟩ => by cases mem⟩
  -- A component that was visited already.
  | case2 g visited target feed rest covered id here ih =>
    obtain ⟨genuine, t, node, takes, power⟩ := due (target, feed) List.mem_cons_self
    have pays (y : Nat) (s : Terminal) (owes : Owed ((target, feed) :: rest) y s) :
        Owed rest y s ∨ y = target ∧ s = feed.terminal := owed_cons owes
    obtain ⟨g₁, attached, same, h₁⟩ := h.attach genuine here node takes (power covered) pays
    rw [follow_of_visited covered here, attached]
    exact ih g₁ h₁ fun e mem => (due e (List.mem_cons_of_mem _ mem)).mono
      fun t old => (nodeOf_congr same).2 old
  -- The first visit of a component.
  | case3 g visited target feed rest covered fresh component ih =>
    obtain ⟨n, g₂, g₃, feeds, added, attached, connected, listed, h₃, due₃⟩ :=
      h.firstVisit ready due covered fresh
    rw [follow_of_fresh covered fresh component, added]
    simp only [mapError_ok, ok_bind, attached, connected, listed]
    exact ih n.1 g₃ feeds h₃ due₃
  -- A genuine feed has a component.
  | case4 g visited target feed rest covered fresh component ih =>
    have genuine := (due (target, feed) List.mem_cons_self).genuine
    exact absurd genuine.isComponent component
  -- Nothing outside the area powers anything.
  | case5 g visited target feed rest outside ih =>
    rw [follow_of_outside outside]
    refine ih (h.weaken fun y t s node power owes => ?_) fun e mem =>
      due e (List.mem_cons_of_mem _ mem)
    refine (owed_cons owes).resolve_right ?_
    rintro ⟨rfl, rfl⟩
    exact outside (power.stands.1.covers)

end Follow

end Board

end TorchLogic
