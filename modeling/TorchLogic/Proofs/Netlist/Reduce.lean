import Mathlib.Data.List.Chain
import Mathlib.Data.Set.Function
import TorchLogic.Proofs.Netlist.Edit
import TorchLogic.Proofs.Netlist.Reach
import TorchLogic.Proofs.Netlist.Renumber

/-!
# What reduction does

Two nodes that are kept have an edge in the reduced netlist exactly when a run of at most fifteen
wires leads from one to the other (`Netlist.Crosses`); the rest of what a reduced netlist is stands
in `Netlist.IsReduction`. The reduction of a well-formed netlist never fails, and it is well formed
again (`Netlist.WellFormed.reduce`), so every netlist that the construction calls and reduction can
lead to is (`Netlist.Reachable.wellFormed`). The distances that reduction goes by are lengths of
shortest runs (`Netlist.distances_of_reachable`).

Reduction cannot fail because each edge that it adds respects the seals. A direct edge did before,
and renumbering does not change that. When there are wires in between, the first of them is driven
by a component that drives freely and the last one drives a component that is driven freely, and the
seals have nothing to say about two such components (`Netlist.WirePath.legal`).

The edges are added by two nested loops, and both are instances of one lemma: a loop whose steps
each add some edges adds the edges of all its steps (`Netlist.Extends.foldlM`).
-/

namespace TorchLogic.Netlist

/-! ### Runs of wires -/

section Runs

variable {g : Netlist .wired} {a b n : Nat} {ws : List Nat}

/-- **A run of wires that leads from one node to another.** -/
def WireRun (g : Netlist .wired) (a : Nat) (ws : List Nat) (b : Nat) : Prop :=
  (∀ w ∈ ws, g.isWire w = true) ∧ List.IsChain g.Drives (a :: ws ++ [b])

/-- **Whether a signal crosses from one node to another**: by a run of at most fifteen wires. -/
def Crosses (g : Netlist .wired) (a b : Nat) : Prop :=
  ∃ ws : List Nat, ws.length ≤ maxWireRun ∧ g.WireRun a ws b

/-- A path has one edge more than wires. -/
theorem wirePath_iff (h : g.EdgesKept) :
    g.WirePath a n b ↔ ∃ ws : List Nat, ws.length + 1 = n ∧ g.WireRun a ws b := by
  refine ⟨?_, ?_⟩
  · -- a path is a run of the wires that it goes through
    intro path
    induction path with
    | edge edge =>
      exact ⟨[], rfl, by simp, List.isChain_pair.2 ((h.mirrored _ _).1 edge)⟩
    -- The path ends one wire later.
    | @through length wire target _ isWire edge ih =>
      obtain ⟨ws, rfl, wires, chain⟩ := ih
      refine ⟨ws ++ [wire], by simp, ?_, ?_⟩
      · intro w mem
        rcases List.mem_append.1 mem with old | last
        · exact wires w old
        · rwa [List.mem_singleton.1 last]
      · rw [← List.cons_append, List.append_assoc]
        refine List.isChain_split.2 ⟨chain, List.isChain_pair.2 ?_⟩
        exact (h.mirrored _ _).1 edge
  · -- and a run is a path
    rintro ⟨ws, rfl, wires, chain⟩
    -- The last wire is the one that the path goes through last.
    induction ws using List.reverseRecOn generalizing b with
    | nil => exact .edge ((h.mirrored _ _).2 (List.isChain_pair.1 chain))
    | append_singleton ws wire ih =>
      rw [← List.cons_append, List.append_assoc] at chain
      obtain ⟨before, last⟩ := List.isChain_split.1 chain
      rw [List.length_append]
      refine .through (ih (fun w mem => wires w (List.mem_append_left _ mem)) before)
        (wires wire (List.mem_append_right _ (List.mem_singleton_self _))) ?_
      exact (h.mirrored _ _).2 (List.isChain_pair.1 last)

/-- The distances tell which nodes a signal crosses to. -/
theorem exists_distance_iff (h : g.EdgesKept) :
    (∃ n, (b, n) ∈ g.distances a ∧ n - 1 ≤ maxWireRun) ↔ g.Crosses a b := by
  refine ⟨?_, ?_⟩
  · rintro ⟨n, mem, le⟩
    obtain ⟨ws, rfl, run⟩ := (wirePath_iff h).1 ((mem_distances g a b n).1 mem).1
    exact ⟨ws, le, run⟩
  · rintro ⟨ws, le, run⟩
    -- The run need not be the shortest, but the shortest is no longer.
    obtain ⟨n, short, mem⟩ := exists_mem_distances ((wirePath_iff h).2 ⟨ws, rfl, run⟩)
    exact ⟨n, mem, by omega⟩

/-- The two ends of a path have an edge, or nothing is sealed at either of them. -/
theorem WirePath.edge_or_free (h : g.WellFormed) (path : g.WirePath a n b) :
    g.Drives a b ∨ ∃ c d, g.component? a = some c ∧ g.component? b = some d ∧
      c.drivesFreely = true ∧ d.drivenFreely = true := by
  induction path with
  | edge edge => exact .inl ((h.mirrored _ _).1 edge)
  | @through length wire target _ isWire edge ih =>
    have hw := isWire_iff.1 isWire
    obtain ⟨w, d, hw', hd, legal⟩ := h.sealed _ _ ((h.mirrored _ _).1 edge)
    rw [hw, Option.some.injEq] at hw'
    subst hw'
    -- What a wire drives is driven freely.
    have driven := Sealing.drivenFreely_of_fault? rfl legal
    -- And what drives the first wire drives freely.
    rcases ih with first | ⟨c, w, hc, -, drives, -⟩
    · -- the path before the last edge is an edge
      obtain ⟨c, w, hc, hw', legal⟩ := h.sealed _ _ first
      rw [hw, Option.some.injEq] at hw'
      subst hw'
      exact .inr ⟨c, d, hc, hd, Sealing.drivesFreely_of_fault? rfl legal, driven⟩
    · -- it is longer, and was known to start freely
      exact .inr ⟨c, d, hc, hd, drives, driven⟩

/-- **The edge that stands for a path respects the seals.** -/
theorem WirePath.legal (h : g.WellFormed) (path : g.WirePath a n b) :
    ∃ c d, g.component? a = some c ∧ g.component? b = some d ∧ Sealing.fault? a b c d = none := by
  rcases path.edge_or_free h with edge | ⟨c, d, hc, hd, drives, driven⟩
  · exact h.sealed a b edge
  · exact ⟨c, d, hc, hd, Sealing.fault?_of_free drives driven⟩

theorem Crosses.legal (h : g.WellFormed) (cross : g.Crosses a b) :
    ∃ c d, g.component? a = some c ∧ g.component? b = some d ∧ Sealing.fault? a b c d = none := by
  obtain ⟨ws, -, run⟩ := cross
  exact ((wirePath_iff h.toEdgesKept).2 ⟨ws, rfl, run⟩).legal h

end Runs

/-! ### Adding edges -/

section Edges

variable {base r : Netlist .reduced} {edges : Nat → Nat → Prop} {a b : Nat}

/-- **A netlist that has the nodes of another and given edges.** -/
structure Extends (r base : Netlist .reduced) (edges : Nat → Nat → Prop) : Prop
    extends r.EdgesKept where
  /-- The nodes are as many. -/
  size : r.size = base.size
  /-- The components are the same. -/
  component? : ∀ id, r.component? id = base.component? id
  /-- The inputs are the same. -/
  inputs : r.inputs = base.inputs
  /-- The outputs are the same. -/
  outputs : r.outputs = base.outputs
  /-- The edges are the given ones. -/
  drives : ∀ a b, r.Drives a b ↔ edges a b

namespace Extends

theorem connect (h : r.Extends base edges) {c d : Component} (ha : base.component? a = some c)
    (hb : base.component? b = some d) (legal : Sealing.fault? a b c d = none) :
    ∃ r', r.connect a b = .ok r' ∧
      r'.Extends base fun x y => edges x y ∨ x = a ∧ y = b := by
  rw [← h.component?] at ha hb
  have la := lt_size_of_component? ha
  have lb := lt_size_of_component? hb
  refine ⟨r.link a b, connect_eq_ok_iff.2 ⟨c, d, ha, hb, legal, rfl⟩, ?_⟩
  exact {
    toEdgesKept := h.toEdgesKept.link la lb
    size := by rw [size_link, h.size]
    component? := fun id => by rw [component?_link, h.component?]
    inputs := h.inputs
    outputs := h.outputs
    drives := fun x y => by rw [Drives, mem_drivers_link lb, ← h.drives]; rfl }

/-- **A loop whose steps each add some edges** adds the edges of all its steps. -/
theorem foldlM {α : Type} {step : Netlist .reduced → α → Except NetlistError (Netlist .reduced)}
    {added : α → Nat → Nat → Prop} {l : List α}
    (adds : ∀ x ∈ l, ∀ edges r, r.Extends base edges →
      ∃ r', step r x = .ok r' ∧ r'.Extends base fun a b => edges a b ∨ added x a b)
    (h : r.Extends base edges) :
    ∃ r', l.foldlM step r = .ok r' ∧
      r'.Extends base fun a b => edges a b ∨ ∃ x ∈ l, added x a b := by
  induction l generalizing edges r with
  | nil => exact ⟨r, rfl, by simpa using h⟩
  | cons x rest ih =>
    -- What the first step adds is a base for the others.
    obtain ⟨r₁, first, h₁⟩ := adds x List.mem_cons_self edges r h
    obtain ⟨r₂, others, h₂⟩ := ih (fun y mem => adds y (List.mem_cons_of_mem _ mem)) h₁
    refine ⟨r₂, by rw [List.foldlM_cons, first]; exact others, ?_⟩
    simpa only [List.mem_cons, or_and_right, exists_or, exists_eq_left, or_assoc] using h₂

theorem congr (h : r.Extends base edges) {edges' : Nat → Nat → Prop}
    (same : ∀ a b, edges a b ↔ edges' a b) : r.Extends base edges' :=
  { h with drives := fun a b => (h.drives a b).trans (same a b) }

end Extends

end Edges

/-! ### The edges of a reduction -/

section Steps

variable {g : Netlist .wired} {id : Nat}

/-- The kept nodes, renumbered and without edges. -/
def bare (g : Netlist .wired) : Netlist .reduced := loose (g.kept.map g.keptComponent)

theorem size_bare (g : Netlist .wired) : g.bare.size = g.kept.length := by
  rw [bare, size_loose, List.length_map]

theorem component?_bare {c : Component} (mem : id ∈ g.kept) (hc : g.component? id = some c) :
    g.bare.component? (g.renumbered id) = some (c.renumber g.renumbered) := by
  rw [bare, component?_loose, List.getElem?_map, renumbered, List.getElem?_idxOf mem,
    Option.map_some, keptComponent_eq hc]

theorem extends_bare (g : Netlist .wired) : g.bare.Extends g.bare fun _ _ => False where
  toEdgesKept := .loose _
  size := rfl
  component? := fun _ => rfl
  inputs := rfl
  outputs := rfl
  drives := fun a b => by simp [Drives, bare]

/-- **Connecting a node to one that its signal reaches** adds an edge, if both are kept and the
signal comes that far. -/
theorem WellFormed.connectTo (h : g.WellFormed) {source : Nat} (kept : source ∈ g.kept)
    {target : NodeId × Nat} (reached : target ∈ g.distances source) {edges : Nat → Nat → Prop}
    {r : Netlist .reduced} (hr : r.Extends g.bare edges) :
    ∃ r', g.connectTo (g.renumbered source) r target = .ok r' ∧ r'.Extends g.bare fun x y =>
      edges x y ∨ target.1 ∈ g.kept ∧ target.2 - 1 ≤ maxWireRun ∧
        x = g.renumbered source ∧ y = g.renumbered target.1 := by
  unfold Netlist.connectTo
  cases new : g.renumbered? target.1 with
  | none =>
    -- A wire is no end of an edge.
    have gone := renumbered?_eq_none_iff.1 new
    exact ⟨r, rfl, hr.congr fun x y => by simp [gone]⟩
  | some k =>
    obtain ⟨stays, rfl⟩ := renumbered?_eq_some_iff.1 new
    by_cases near : target.2 - 1 ≤ maxWireRun
    · obtain ⟨c, d, hc, hd, legal⟩ :=
        ((mem_distances g source target.1 target.2).1 reached).1.legal h
      obtain ⟨r', ok, hr'⟩ := hr.connect (component?_bare kept hc) (component?_bare stays hd)
        (Sealing.fault?_renumber legal)
      refine ⟨r', by simp only [if_pos near]; exact ok, hr'.congr fun x y => ?_⟩
      simp [stays, near]
    -- Too far for the signal.
    · exact ⟨r, by simp only [if_neg near], hr.congr fun x y => by simp [near]⟩

/-- **Connecting a node** adds its edges to all the nodes that a signal crosses to. -/
theorem WellFormed.connectFrom (h : g.WellFormed) (source : Nat) {edges : Nat → Nat → Prop}
    {r : Netlist .reduced} (hr : r.Extends g.bare edges) :
    ∃ r', g.connectFrom r source = .ok r' ∧ r'.Extends g.bare fun x y =>
      edges x y ∨ source ∈ g.kept ∧ x = g.renumbered source ∧
        ∃ target ∈ g.kept, y = g.renumbered target ∧ g.Crosses source target := by
  unfold Netlist.connectFrom
  cases new : g.renumbered? source with
  | none =>
    -- A wire is no source of an edge.
    have gone := renumbered?_eq_none_iff.1 new
    exact ⟨r, rfl, hr.congr fun x y => by simp [gone]⟩
  | some k =>
    obtain ⟨kept, rfl⟩ := renumbered?_eq_some_iff.1 new
    obtain ⟨r', ok, hr'⟩ := Extends.foldlM
      (fun target reached _ _ hr => h.connectTo kept reached hr) hr
    refine ⟨r', ok, hr'.congr fun x y => or_congr_right ?_⟩
    refine ⟨?_, ?_⟩
    · -- an edge is added for a node at a short distance
      rintro ⟨⟨target, n⟩, mem, stays, near, rfl, rfl⟩
      exact ⟨kept, rfl, target, stays, rfl, (exists_distance_iff h.toEdgesKept).1 ⟨n, mem, near⟩⟩
    · -- and a node that a signal crosses to is at a short distance
      rintro ⟨-, rfl, target, stays, rfl, cross⟩
      obtain ⟨n, mem, near⟩ := (exists_distance_iff h.toEdgesKept).2 cross
      exact ⟨(target, n), mem, stays, near, rfl, rfl⟩

/-- **Reduction succeeds**, and its edges are those that a signal crosses. -/
theorem WellFormed.reduce_extends (h : g.WellFormed) :
    ∃ r, g.reduce = .ok r ∧ r.Extends g.bare fun x y =>
      ∃ a ∈ g.kept, ∃ b ∈ g.kept, x = g.renumbered a ∧ y = g.renumbered b ∧ g.Crosses a b := by
  obtain ⟨r, ok, hr⟩ := Extends.foldlM
    (fun source (_ : source ∈ g.ids) _ _ hr => h.connectFrom source hr) g.extends_bare
  refine ⟨r, ?_, hr.congr fun x y => ?_⟩
  · -- the edges are added to the bare netlist of the kept nodes
    rw [Netlist.reduce, h.keptNodes_eq]
    exact ok
  · rw [false_or]
    refine ⟨?_, ?_⟩
    · rintro ⟨a, -, kept, rfl, b, stays, rfl, cross⟩
      exact ⟨a, kept, b, stays, rfl, rfl, cross⟩
    · rintro ⟨a, kept, b, stays, rfl, rfl, cross⟩
      exact ⟨a, (List.mem_filter.1 kept).1, kept, rfl, b, stays, rfl, cross⟩

end Steps

/-! ### The reduced netlist -/

section Whole

variable {g : Netlist .wired} {r : Netlist .reduced}

/-- **What the reduction of a netlist is**, where `new` gives the numbers of its nodes. -/
structure IsReduction (g : Netlist .wired) (r : Netlist .reduced) (new : Nat → Nat) : Prop where
  /-- The nodes are the kept ones. -/
  nodes : Set.BijOn new {id | id ∈ g.kept} {id | id < r.size}
  /-- They keep their order. -/
  ascends : StrictMonoOn new {id | id ∈ g.kept}
  /-- They keep their components, up to the numbers of circuits. -/
  component : ∀ id ∈ g.kept,
    r.component? (new id) = (g.component? id).map (Component.renumber new)
  /-- The circuits that the components name are kept. -/
  owners : ∀ id side owner, g.component? id = some (.circuitInput side owner) ∨
    g.component? id = some (.circuitOutput side owner) → owner ∈ g.kept
  /-- The inputs are the same, in the same order. -/
  inputs : r.inputs = g.inputs.map new
  /-- The outputs are the same, in the same order. -/
  outputs : r.outputs = g.outputs.map new
  /-- The edges are the runs of at most fifteen wires. -/
  edges : ∀ a ∈ g.kept, ∀ b ∈ g.kept, r.Drives (new a) (new b) ↔ g.Crosses a b
  /-- The successors are the other end of the drivers. -/
  mirrored : ∀ a b, b ∈ r.successors a ↔ a ∈ r.drivers b

/-- A list of the nodes whose components pass a test, renumbered. -/
theorem filter_bare (p : Component → Bool) (wire : p .wire = false)
    (same : ∀ new c, p (Component.renumber new c) = p c) :
    (g.bare.ids.filter fun id => (g.bare.component? id).any p) =
      (g.ids.filter fun id => (g.component? id).any p).map g.renumbered := by
  -- No wire passes the test, so all that do are kept.
  have kept_of : (g.ids.filter fun id => (g.component? id).any p) =
      g.kept.filter fun id => (g.component? id).any p := by
    rw [kept, List.filter_filter]
    refine List.filter_congr fun id _ => ?_
    cases hw : g.isWire id with
    | true => simp [isWire_iff.1 hw, wire]
    | false => simp
  rw [kept_of, ids, size_bare, ← map_renumbered_kept, List.filter_map]
  congr 1
  refine List.filter_congr fun id mem => ?_
  obtain ⟨c, hc, -⟩ := mem_kept.1 mem
  rw [Function.comp_apply, component?_bare mem hc, hc]
  exact same _ c

theorem WellFormed.owner_kept (h : g.WellFormed) {id owner : Nat} {side : Side}
    (child : g.component? id = some (.circuitInput side owner) ∨
      g.component? id = some (.circuitOutput side owner)) : owner ∈ g.kept := by
  rcases child with hk | hk
  · obtain ⟨-, t, i, ho, -⟩ := h.circuitInput id side owner hk
    exact mem_kept.2 ⟨_, ho, Component.noConfusion⟩
  · obtain ⟨-, t, i, ho, -⟩ := h.circuitOutput id side owner hk
    exact mem_kept.2 ⟨_, ho, Component.noConfusion⟩

/-- **Reduction succeeds**, with what a reduction is. -/
theorem WellFormed.isReduction (h : g.WellFormed) :
    ∃ r, g.reduce = .ok r ∧ IsReduction g r g.renumbered := by
  obtain ⟨r, ok, hr⟩ := h.reduce_extends
  have inj : Set.InjOn g.renumbered {id | id ∈ g.kept} := g.strictMonoOn_renumbered.injOn
  refine ⟨r, ok, ?_⟩
  exact {
    nodes := by
      refine ⟨fun id mem => ?_, inj, fun k lt => ?_⟩
      · rw [Set.mem_ofPred_eq, hr.size, size_bare]
        exact List.idxOf_lt_length_of_mem mem
      · rw [Set.mem_ofPred_eq, hr.size, size_bare] at lt
        exact ⟨g.kept[k], List.getElem_mem lt, (nodup_kept g).idxOf_getElem k lt⟩
    ascends := g.strictMonoOn_renumbered
    component := by
      intro id mem
      obtain ⟨c, hc, -⟩ := mem_kept.1 mem
      rw [hr.component?, component?_bare mem hc, hc, Option.map_some]
    owners := fun _ _ _ => h.owner_kept
    inputs := by
      rw [hr.inputs, h.inputs_eq, ← filter_bare _ rfl fun _ _ => Component.isInput_renumber]
      exact inputs_loose _
    outputs := by
      rw [hr.outputs, h.outputs_eq, ← filter_bare _ rfl fun _ _ => Component.isOutput_renumber]
      exact outputs_loose _
    edges := by
      intro a ha b hb
      rw [hr.drives]
      refine ⟨?_, ?_⟩
      · -- numbers are not shared, so an edge is that of the two nodes
        rintro ⟨a', ha', b', hb', eq_a, eq_b, cross⟩
        rw [(renumbered_inj ha).1 eq_a, (renumbered_inj hb).1 eq_b]
        exact cross
      · intro cross
        exact ⟨a, ha, b, hb, rfl, rfl, cross⟩
    mirrored := hr.mirrored }

/-! ### Reduction keeps netlists well formed -/

/-- The nodes of the block of a circuit are kept. -/
theorem WellFormed.block_kept (h : g.WellFormed) {c i : Nat} {t : TruthTable}
    (hc : g.component? c = some (.circuit t)) (le : i ≤ t.inputs.length + t.outputs.length) :
    c + i ∈ g.kept := by
  match i with
  | 0 => exact mem_kept.2 ⟨_, hc, Component.noConfusion⟩
  | j + 1 =>
    rw [Nat.add_comm j 1, ← Nat.add_assoc]
    by_cases lt : j < t.inputs.length
    · -- an input child
      have child := h.inputChild c t j _ hc (List.getElem?_eq_getElem lt)
      exact mem_kept.2 ⟨_, child, Component.noConfusion⟩
    · -- an output child
      obtain ⟨k, rfl⟩ := Nat.exists_eq_add_of_le (Nat.le_of_not_lt lt)
      have bound : k < t.outputs.length := by omega
      have child := h.outputChild c t k _ hc (List.getElem?_eq_getElem bound)
      rw [← Nat.add_assoc]
      exact mem_kept.2 ⟨_, child, Component.noConfusion⟩

/-- The block of a circuit stays one. -/
theorem WellFormed.renumbered_block (h : g.WellFormed) {c i : Nat} {t : TruthTable}
    (hc : g.component? c = some (.circuit t)) (le : i ≤ t.inputs.length + t.outputs.length) :
    g.renumbered (c + i) = g.renumbered c + i :=
  renumbered_add fun _ bound => h.block_kept hc (Nat.le_trans bound le)

/-- Every node of a reduction is a kept node with its component. -/
theorem IsReduction.exists_kept {new : Nat → Nat} (h : IsReduction g r new) {k : Nat}
    {c : Component} (hk : r.component? k = some c) :
    ∃ id d, k = new id ∧ id ∈ g.kept ∧ g.component? id = some d ∧ c = d.renumber new := by
  obtain ⟨id, mem, rfl⟩ := h.nodes.2.2 (lt_size_of_component? hk)
  obtain ⟨d, hd, -⟩ := mem_kept.1 mem
  refine ⟨id, d, rfl, mem, hd, ?_⟩
  rw [h.component id mem, hd] at hk
  exact (Option.some.inj hk).symm

theorem crosses_of_drives {a b : Nat} (edge : g.Drives a b) : g.Crosses a b :=
  ⟨[], Nat.zero_le _, by simp, List.isChain_pair.2 edge⟩

/-- **The reduction of a well-formed netlist is well formed.** -/
theorem WellFormed.reduce (h : g.WellFormed) (ok : g.reduce = .ok r) : r.WellFormed := by
  obtain ⟨r', ok', hr⟩ := h.reduce_extends
  obtain ⟨r'', ok'', red⟩ := h.isReduction
  obtain rfl : r = r' := Except.ok.inj (ok.symm.trans ok')
  obtain rfl : r = r'' := Except.ok.inj (ok.symm.trans ok'')
  -- What is kept is found at its new number, and so are the edges between kept nodes.
  have component {id : Nat} {c : Component} (hc : g.component? id = some c) (ne : c ≠ .wire) :
      r.component? (g.renumbered id) = some (c.renumber g.renumbered) := by
    rw [red.component id (mem_kept.2 ⟨c, hc, ne⟩), hc, Option.map_some]
  have edge {a b : Nat} (ha : a ∈ g.kept) (hb : b ∈ g.kept) (edge : g.Drives a b) :
      r.Drives (g.renumbered a) (g.renumbered b) := (red.edges a ha b hb).2 (crosses_of_drives edge)
  exact {
    toEdgesKept := hr.toEdgesKept
    -- An edge crosses between two kept nodes, and numbers are nothing to the seals.
    sealed := by
      intro x y edge
      obtain ⟨a, ha, b, hb, rfl, rfl, cross⟩ := (hr.drives x y).1 edge
      obtain ⟨c, d, hc, hd, legal⟩ := cross.legal h
      refine ⟨_, _, ?_, ?_, Sealing.fault?_renumber legal⟩
      · rw [red.component a ha, hc, Option.map_some]
      · rw [red.component b hb, hd, Option.map_some]
    inputs_eq := by
      simp only [hr.inputs, ids, hr.size, hr.component?]
      exact inputs_loose _
    outputs_eq := by
      simp only [hr.outputs, ids, hr.size, hr.component?]
      exact outputs_loose _
    -- Children and circuits come from children and circuits, and the block has moved as a whole.
    circuitInput := by
      intro k side owner hk
      obtain ⟨id, d, rfl, mem, hd, eq⟩ := red.exists_kept hk
      obtain ⟨old, rfl, rfl⟩ := Component.renumber_eq_circuitInput_iff.1 eq.symm
      obtain ⟨feeds, t, i, ho, hi, place⟩ := h.circuitInput id side old hd
      refine ⟨edge mem (h.owner_kept (.inl hd)) feeds, t, i,
        component ho Component.noConfusion, hi, ?_⟩
      have lt := (List.getElem?_eq_some_iff.1 hi).1
      rw [place, Nat.add_assoc, h.renumbered_block ho (by omega), Nat.add_assoc]
    circuitOutput := by
      intro k side owner hk
      obtain ⟨id, d, rfl, mem, hd, eq⟩ := red.exists_kept hk
      obtain ⟨old, rfl, rfl⟩ := Component.renumber_eq_circuitOutput_iff.1 eq.symm
      obtain ⟨feeds, t, i, ho, hi, place⟩ := h.circuitOutput id side old hd
      refine ⟨edge (h.owner_kept (.inr hd)) mem feeds, t, i,
        component ho Component.noConfusion, hi, ?_⟩
      have lt := (List.getElem?_eq_some_iff.1 hi).1
      rw [place, Nat.add_assoc, Nat.add_assoc, h.renumbered_block ho (by omega), Nat.add_assoc,
        Nat.add_assoc]
    inputChild := by
      intro c t i side hc hi
      obtain ⟨id, d, rfl, -, hd, eq⟩ := red.exists_kept hc
      obtain rfl := Component.renumber_eq_circuit_iff.1 eq.symm
      have lt := (List.getElem?_eq_some_iff.1 hi).1
      have child := component (h.inputChild id t i side hd hi) Component.noConfusion
      rwa [Nat.add_assoc, h.renumbered_block hd (by omega), ← Nat.add_assoc] at child
    outputChild := by
      intro c t i side hc hi
      obtain ⟨id, d, rfl, -, hd, eq⟩ := red.exists_kept hc
      obtain rfl := Component.renumber_eq_circuit_iff.1 eq.symm
      have lt := (List.getElem?_eq_some_iff.1 hi).1
      have child := component (h.outputChild id t i side hd hi) Component.noConfusion
      rwa [Nat.add_assoc, Nat.add_assoc, h.renumbered_block hd (by omega), ← Nat.add_assoc,
        ← Nat.add_assoc] at child
    -- A wire would be the component of a kept node.
    no_wire := by
      intro _ k hk
      obtain ⟨id, d, rfl, mem, hd, eq⟩ := red.exists_kept hk
      obtain ⟨c, hc, ne⟩ := mem_kept.1 mem
      rw [hc, Option.some.injEq] at hd
      subst hd
      cases c <;> first | exact ne rfl | cases eq }

end Whole

/-! ### The netlists there can be -/

/-- **The netlists that the construction calls and reduction lead to.** -/
inductive Reachable : {stage : Stage} → Netlist stage → Prop
  /-- The netlist without nodes. -/
  | empty {stage : Stage} : Reachable (empty : Netlist stage)
  /-- The netlist after a call, whether it fails or not. -/
  | edited {stage : Stage} {g : Netlist stage} : Reachable g → (e : Edit) → Reachable (g.edited e)
  /-- The reduction of a netlist. -/
  | reduce {g : Netlist .wired} {r : Netlist .reduced} : Reachable g →
      g.reduce = .ok r → Reachable r

/-- **Every netlist there can be is well formed.** -/
theorem Reachable.wellFormed {stage : Stage} {g : Netlist stage} (h : g.Reachable) :
    g.WellFormed := by
  induction h with
  | empty => exact .empty
  | edited _ e ih => exact ih.edited e
  | reduce _ ok ih => exact ih.reduce ok

theorem reachable_foldl_edited {stage : Stage} (edits : List Edit) {g : Netlist stage}
    (h : g.Reachable) : (edits.foldl Netlist.edited g).Reachable := by
  induction edits generalizing g with
  | nil => exact h
  | cons e rest ih => exact ih (h.edited e)

/-- **Reducing what the construction calls have built never fails**, and the result is the netlist
of the kept nodes, in their order, with an edge for each run of at most fifteen wires. -/
theorem reduce_foldl_edited (edits : List Edit) :
    ∃ r new, (edits.foldl edited empty : Netlist .wired).reduce = .ok r ∧
      IsReduction (edits.foldl edited empty) r new := by
  obtain ⟨r, ok, red⟩ := (reachable_foldl_edited edits .empty).wellFormed.isReduction
  exact ⟨r, _, ok, red⟩

/-! ### Distances along wires -/

/-- **Distances are exact in what the construction calls have built**, from any source. The nodes
that are listed, each of them once, are those that a run of wires leads to, a run of none included;
the source is listed if a run leads back to it. A node is listed with the number of edges of its
shortest run, so no distance is zero, and a number without a node leads nowhere. -/
theorem distances_of_reachable {g : Netlist .wired} (h : g.Reachable) (source : NodeId) :
    (∀ target, (∃ n, (target, n) ∈ g.distances source) ↔ ∃ ws, g.WireRun source ws target) ∧
    (∀ target n, (target, n) ∈ g.distances source ↔
      IsLeast {n | ∃ ws, ws.length + 1 = n ∧ g.WireRun source ws target} n) ∧
    (g.distances source).Pairwise (fun a b => a.1 < b.1) ∧
    (∀ target n, (target, n) ∈ g.distances source → 1 ≤ n) ∧
    (g.size ≤ source → g.distances source = []) := by
  have edges : g.EdgesKept := h.wellFormed.toEdgesKept
  have shortest (target n : Nat) : (target, n) ∈ g.distances source ↔
      IsLeast {n | ∃ ws, ws.length + 1 = n ∧ g.WireRun source ws target} n := by
    simp only [mem_distances, wirePath_iff edges]
  refine ⟨fun target => ?_, shortest, pairwise_distances g source,
    fun target n mem => ?_, fun out => ?_⟩
  · -- listed exactly if there is a run
    constructor
    · rintro ⟨n, mem⟩
      obtain ⟨ws, -, run⟩ := ((shortest target n).1 mem).1
      exact ⟨ws, run⟩
    · rintro ⟨ws, run⟩
      obtain ⟨n, -, mem⟩ := exists_mem_distances ((wirePath_iff edges).2 ⟨ws, rfl, run⟩)
      exact ⟨n, mem⟩
  · -- Even a run of no wires is an edge.
    obtain ⟨ws, length, -⟩ := ((shortest target n).1 mem).1
    omega
  · -- nothing is listed for what is no node
    rw [distances, if_neg (Nat.not_lt.2 out)]

/-- A torch whose signal comes back to it through two wires. -/
def ring : Netlist .wired :=
  [.torch, .wire, .wire, .connect 0 1, .joinWires 1 2, .connect 2 0].foldl edited empty

/-- The torch of the ring is three edges away from itself, and no run leads back sooner. -/
theorem distances_of_reachable_ring : ring.Reachable ∧ (0, 3) ∈ ring.distances 0 ∧
    IsLeast {n | ∃ ws, ws.length + 1 = n ∧ ring.WireRun 0 ws 0} 3 := by
  have built : ring.Reachable := reachable_foldl_edited _ .empty
  have listed : (0, 3) ∈ ring.distances 0 := by decide +kernel
  exact ⟨built, listed, ((distances_of_reachable built 0).2.1 0 3).1 listed⟩

end TorchLogic.Netlist
