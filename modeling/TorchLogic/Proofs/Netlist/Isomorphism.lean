import Mathlib.Data.List.Perm.Basic
import TorchLogic.Proofs.Netlist.Consistency
import TorchLogic.Proofs.Netlist.Diagram

/-!
# Netlists that differ in their numbers

Nodes are numbered in the order in which they are added, and the numbers decide in which order
everything is looked at: which wire is searched first, from which output feedback is looked for,
which driver is evaluated before which, and which input is which bit of a row. None of this shows in
what a netlist computes.

Two netlists are the same up to numbers if their nodes correspond one to one, with the same
components and the same edges (`Netlist.IsIsomorphism`); the numbers that components name for their
circuits correspond as well. Such a correspondence is a faithful map between the diagrams of the
netlists (`IsIsomorphism.faithful`), and what is found for a netlist is told by its diagram. So the
two are both with feedback or both without, and their tables do the same
(`Netlist.apply_eq_of_isIsomorphism`). The tables need not be equal, for they list their sides in
the order of the numbers.
-/

namespace TorchLogic.Netlist

open Relation

variable {stage : Stage} {g g' : Netlist stage} {new : NodeId → NodeId} {ins outs : List Facing}

/-! ### Correspondences -/

/-- **A correspondence between the nodes of two netlists** that keeps components and edges. -/
structure IsIsomorphism (g g' : Netlist stage) (new : NodeId → NodeId) : Prop where
  /-- The nodes correspond one to one. -/
  nodes : Set.BijOn new {id | id < g.size} {id | id < g'.size}
  /-- They hold the same components, up to the numbers of circuits. -/
  component : ∀ id < g.size, g'.component? (new id) = (g.component? id).map (Component.renumber new)
  /-- They have the same edges. -/
  drives : ∀ a < g.size, ∀ b < g.size, (g'.Drives (new a) (new b) ↔ g.Drives a b)

namespace IsIsomorphism

variable (iso : g.IsIsomorphism g' new)

include iso

/-- Every node of the other netlist corresponds to one with its component. -/
theorem exists_node {k : NodeId} {c : Component} (hk : g'.component? k = some c) :
    ∃ id d, k = new id ∧ g.component? id = some d ∧ c = d.renumber new := by
  obtain ⟨id, lt, rfl⟩ := iso.nodes.surjOn (lt_size_of_component? hk)
  have stands : id < g.size := lt
  rw [iso.component id stands, Option.map_eq_some_iff] at hk
  obtain ⟨d, hd, rfl⟩ := hk
  exact ⟨id, d, rfl, hd, rfl⟩

/-- **The diagrams are the same** up to the correspondence. -/
theorem faithful (h : g.WellFormed) (h' : g'.WellFormed) :
    h.diagram.Faithful h'.diagram id new where
  is_iff := by
    -- The component of a node says its part, and owners are renumbered by the same bijection.
    rintro a ⟨_, c, hc, rfl⟩ q
    have hc' : g'.component? (new a) = some (c.renumber new) := by
      rw [iso.component a (lt_size_of_component? hc), hc, Option.map_some]
    rw [is_iff h' hc', Component.part_renumber]
    simp only [is_iff h hc, Part.turn_id, exists_eq_left]
  drives_iff := by
    rintro b ⟨_, c, hc, rfl⟩ k
    have hb := lt_size_of_component? hc
    show g'.Drives k (new b) ↔ ∃ a, g.Drives a b ∧ k = new a
    constructor
    · -- the driver is a node of the other netlist, so it is the image of one here
      intro edge
      obtain ⟨a, ha, rfl⟩ := iso.nodes.surjOn (h'.lt_of_mem_drivers edge).1
      exact ⟨a, (iso.drives a ha b hb).1 edge, rfl⟩
    · -- edges are kept both ways
      rintro ⟨a, edge, rfl⟩
      exact (iso.drives a (h.lt_of_mem_drivers edge).1 b hb).2 edge
  onto := by
    -- Every node of the other netlist is the image of one here, in particular an output.
    rintro k f ⟨c, hc, -⟩
    obtain ⟨id, d, rfl, hd, -⟩ := iso.exists_node hc
    exact ⟨id, ⟨_, d, hd, rfl⟩, rfl⟩

end IsIsomorphism

/-! ### Board nodes -/

/-- Nodes whose components are sockets of one kind stand for sides. -/
theorem exists_facings {ids : List NodeId} {kind : Facing → Component}
    (sockets : ∀ id ∈ ids, ∃ f, g.component? id = some (kind f)) :
    ∃ sides : List Facing, ids.map g.component? = sides.map fun f => some (kind f) := by
  induction ids with
  | nil => exact ⟨[], rfl⟩
  | cons id rest ih =>
    obtain ⟨f, stands⟩ := sockets id List.mem_cons_self
    obtain ⟨sides, eq⟩ := ih fun k mem => sockets k (List.mem_cons_of_mem _ mem)
    exact ⟨f :: sides, by rw [List.map_cons, List.map_cons, stands, eq]⟩

/-- The facings of board nodes are the sides that they stand for. -/
theorem map_facing_eq {ids : List NodeId} {sides : List Facing} {kind : Facing → Component}
    (socket : kind = .input ∨ kind = .output)
    (eq : ids.map g.component? = sides.map fun f => some (kind f)) :
    ids.map g.facing = sides.map .ok := by
  -- A board node of either kind has a facing.
  have facing_eq {id : NodeId} {f : Facing} (stands : g.component? id = some (kind f)) :
      g.facing id = .ok f := by
    rw [facing, component_eq_ok_iff.2 stands]
    rcases socket with rfl | rfl <;> rfl
  -- The induction is on both lists at once, which are of one length.
  induction ids generalizing sides with
  | nil =>
    obtain rfl : sides = [] := List.map_eq_nil_iff.1 eq.symm
    rfl
  | cons id rest ih =>
    cases sides with
    | nil => cases eq
    | cons f others =>
      obtain ⟨stands, eq⟩ := List.cons.inj eq
      rw [List.map_cons, List.map_cons, facing_eq stands, ih eq]

section Kind

variable (iso : g.IsIsomorphism g' new) {ids ids' : List NodeId} {kind : Facing → Component}
  (plain : ∀ c f, c.renumber new = kind f ↔ c = kind f)

include iso plain

/-- A kind of component that names no owner is neither made nor removed by renumbering. -/
theorem IsIsomorphism.component?_eq_kind_iff {id : NodeId} (lt : id < g.size) (f : Facing) :
    g'.component? (new id) = some (kind f) ↔ g.component? id = some (kind f) := by
  rw [iso.component id lt, Option.map_eq_some_iff]
  simp only [plain, exists_eq_right]

/-- **Board nodes of one kind correspond**: the one list is the other, renumbered, but for the
order. -/
theorem IsIsomorphism.perm_map (mem : ∀ id, id ∈ ids ↔ ∃ f, g.component? id = some (kind f))
    (mem' : ∀ id, id ∈ ids' ↔ ∃ f, g'.component? id = some (kind f))
    (nodup : ids.Nodup) (nodup' : ids'.Nodup) : ids'.Perm (ids.map new) := by
  have lt_of_mem {id : NodeId} (listed : id ∈ ids) : id < g.size := by
    obtain ⟨f, stands⟩ := (mem id).1 listed
    exact lt_size_of_component? stands
  have nodup_new : (ids.map new).Nodup := by
    refine (List.nodup_map_iff_inj_on nodup).2 fun a ha b hb same => ?_
    exact iso.nodes.injOn (lt_of_mem ha) (lt_of_mem hb) same
  refine (List.perm_ext_iff_of_nodup nodup' nodup_new).2 fun k => ?_
  rw [mem', List.mem_map]
  constructor
  · -- a listed node of the other netlist is the image of one listed here
    rintro ⟨f, stands⟩
    obtain ⟨id, d, rfl, hd, -⟩ := iso.exists_node stands
    have here := (iso.component?_eq_kind_iff plain (lt_size_of_component? hd) f).1 stands
    exact ⟨id, (mem id).2 ⟨f, here⟩, rfl⟩
  · -- and the image of one listed here is listed there
    rintro ⟨id, listed, rfl⟩
    obtain ⟨f, stands⟩ := (mem id).1 listed
    exact ⟨f, (iso.component?_eq_kind_iff plain (lt_of_mem listed) f).2 stands⟩

/-- Board nodes of one kind are on the same sides, in whatever order. -/
theorem IsIsomorphism.perm_sides {sides sides' : List Facing}
    (inj : ∀ f f', kind f = kind f' → f = f')
    (mem : ∀ id, id ∈ ids ↔ ∃ f, g.component? id = some (kind f))
    (mem' : ∀ id, id ∈ ids' ↔ ∃ f, g'.component? id = some (kind f))
    (nodup : ids.Nodup) (nodup' : ids'.Nodup)
    (eq : ids.map g.component? = sides.map fun f => some (kind f))
    (eq' : ids'.map g'.component? = sides'.map fun f => some (kind f)) : sides'.Perm sides := by
  -- A node and its image show the same component of this kind,
  have components : (ids.map new).map g'.component? = ids.map g.component? := by
    rw [List.map_map]
    refine List.map_congr_left fun id listed => ?_
    obtain ⟨f, stands⟩ := (mem id).1 listed
    have lt := lt_size_of_component? stands
    rw [Function.comp_apply, stands, (iso.component?_eq_kind_iff plain lt f).2 stands]
  -- so the two lists of components, and with them the sides, agree but for the order.
  have kinds : (sides'.map fun f => some (kind f)).Perm (sides.map fun f => some (kind f)) :=
    calc (sides'.map fun f => some (kind f)) = ids'.map g'.component? := eq'.symm
      List.Perm _ ((ids.map new).map g'.component?) :=
        (iso.perm_map plain mem mem' nodup nodup').map _
      _ = ids.map g.component? := components
      _ = sides.map fun f => some (kind f) := eq
  exact (List.map_perm_map_iff fun f f' same => inj f f' (Option.some.inj same)).1 kinds

end Kind

namespace WellFormed

variable (h : g.WellFormed)

include h

theorem nodup_inputs : g.inputs.Nodup := by
  rw [h.inputs_eq]
  exact List.Nodup.filter _ List.nodup_range

theorem nodup_outputs : g.outputs.Nodup := by
  rw [h.outputs_eq]
  exact List.Nodup.filter _ List.nodup_range

/-- The board nodes stand for sides, each once if they face different ways. -/
theorem exists_sides (distinct : ((g.inputs ++ g.outputs).map g.facing).Nodup) :
    ∃ ins outs : List Facing, g.inputs.map g.component? = ins.map (fun f => some (.input f)) ∧
      g.outputs.map g.component? = outs.map (fun f => some (.output f)) ∧ (ins ++ outs).Nodup := by
  obtain ⟨ins, inputs⟩ := exists_facings fun id listed => h.mem_inputs.1 listed
  obtain ⟨outs, outputs⟩ := exists_facings fun id listed => h.mem_outputs.1 listed
  refine ⟨ins, outs, inputs, outputs, ?_⟩
  rw [List.map_append, map_facing_eq (.inl rfl) inputs, map_facing_eq (.inr rfl) outputs,
    ← List.map_append] at distinct
  exact distinct.of_map _

end WellFormed

/-! ### What the numbers do not change -/

/-- **Numbers do not matter.** Of two netlists that calls have built and that correspond, with board
nodes that face different ways, the reductions are both free of feedback or both not; if they are,
both have tables, and these do the same. -/
theorem apply_eq_of_isIsomorphism {g g' : Netlist .wired} (built : g.Reachable)
    (built' : g'.Reachable)
    (iso : g.IsIsomorphism g' new) (distinct : ((g.inputs ++ g.outputs).map g.facing).Nodup) :
    ∃ r r', g.reduce = .ok r ∧ g'.reduce = .ok r' ∧ (r.isAcyclic = true ↔ r'.isAcyclic = true) ∧
      (r.isAcyclic = true → ∃ t t', r.truthTable = .ok t ∧ r'.truthTable = .ok t' ∧
        ∀ signals, t.apply signals = t'.apply signals) := by
  have h := built.wellFormed
  have h' := built'.wellFormed
  obtain ⟨ins, outs, inputs, outputs, nodup⟩ := h.exists_sides distinct
  obtain ⟨ins', inputs'⟩ := exists_facings fun id listed => h'.mem_inputs.1 listed
  obtain ⟨outs', outputs'⟩ := exists_facings fun id listed => h'.mem_outputs.1 listed
  -- The board nodes of the other netlist are on the same sides, so they face different ways as
  -- well.
  have perm_ins : ins'.Perm ins :=
    iso.perm_sides (fun c f => by cases c <;> simp [Component.renumber])
      (fun _ _ => Component.input.inj)
      (fun _ => h.mem_inputs) (fun _ => h'.mem_inputs) h.nodup_inputs h'.nodup_inputs inputs inputs'
  have perm_outs : outs'.Perm outs :=
    iso.perm_sides (fun c f => by cases c <;> simp [Component.renumber])
      (fun _ _ => Component.output.inj) (fun _ => h.mem_outputs)
      (fun _ => h'.mem_outputs) h.nodup_outputs h'.nodup_outputs outputs outputs'
  have nodup' : (ins' ++ outs').Nodup := (perm_ins.append perm_outs).nodup_iff.2 nodup
  -- Both go by the diagram of the first.
  obtain ⟨r, reduced, goes⟩ := h.exists_reduce (.refl h.diagram) inputs outputs nodup
  obtain ⟨r', reduced', goes'⟩ := h'.exists_reduce (iso.faithful h h') inputs' outputs' nodup'
  refine ⟨r, r', reduced, reduced', ?_⟩
  rcases goes with ⟨cyclic, unfounded⟩ | ⟨acyclic, founded, t, ok, -, -, computes⟩
  · -- neither is acyclic, since the diagram is not founded
    rcases goes' with ⟨cyclic', -⟩ | ⟨-, founded', -⟩
    · rw [cyclic, cyclic']
      exact ⟨.rfl, fun no => Bool.noConfusion no⟩
    · exact absurd founded' unfounded
  · -- both are, and both tables compute the one solution of the diagram
    rcases goes' with ⟨-, unfounded'⟩ | ⟨acyclic', -, t', ok', -, -, computes'⟩
    · exact absurd founded unfounded'
    · rw [acyclic, acyclic']
      exact ⟨.rfl, fun _ => ⟨t, t', ok, ok', computes.apply_eq founded computes'⟩⟩

namespace Relay

/-- The nested inverter and all around it, added in another order. -/
def shuffled : Netlist .wired :=
  [Edit.circuit table, .output ⟨.north, .output⟩, .wire, .input ⟨.south, .input⟩, .connect 2 3,
    .connect 4 1, .connect 5 4].foldl edited Netlist.empty

/-- The number that a node has in the other order. -/
def shuffle (id : NodeId) : NodeId := [5, 4, 0, 1, 2, 3].getD id id

theorem isIsomorphism_shuffled : wired.IsIsomorphism shuffled shuffle where
  nodes := by
    have within : ∀ id < wired.size, shuffle id < shuffled.size := by decide
    have apart : ∀ a < wired.size, ∀ b < wired.size, shuffle a = shuffle b → a = b := by decide
    have all : ∀ k < shuffled.size, ∃ id < wired.size, shuffle id = k := by decide
    exact ⟨within, fun a ha b hb => apart a ha b hb, all⟩
  component := by decide
  drives := by
    have edges : ∀ a < wired.size, ∀ b < wired.size,
        (shuffle a ∈ shuffled.drivers (shuffle b) ↔ a ∈ wired.drivers b) := by decide
    exact edges

end Relay

/-- The nested inverter in two orders: either way it is free of feedback and has a table, and the
two tables do the same. -/
theorem apply_eq_of_isIsomorphism_relay :
    Relay.wired.Reachable ∧ Relay.shuffled.Reachable ∧
      Relay.wired.IsIsomorphism Relay.shuffled Relay.shuffle ∧
      ((Relay.wired.inputs ++ Relay.wired.outputs).map Relay.wired.facing).Nodup ∧
      ∃ r' t t', Relay.shuffled.reduce = .ok r' ∧ r'.isAcyclic = true ∧
        Relay.reduced.truthTable = .ok t ∧ r'.truthTable = .ok t' ∧
        ∀ signals, t.apply signals = t'.apply signals := by
  have built := Relay.built_wired.reachable
  have built' : Relay.shuffled.Reachable := reachable_foldl_edited _ .empty
  have distinct :
      ((Relay.wired.inputs ++ Relay.wired.outputs).map Relay.wired.facing).Nodup := by decide
  refine ⟨built, built', Relay.isIsomorphism_shuffled, distinct, ?_⟩
  obtain ⟨r, r', reduced, reduced', acyclic_iff, tables⟩ :=
    apply_eq_of_isIsomorphism built built' Relay.isIsomorphism_shuffled distinct
  -- The reduction of the relay is the one that was worked out before.
  obtain rfl : Relay.reduced = r := Except.ok.inj (Relay.reduce_eq.symm.trans reduced)
  have acyclic : Relay.reduced.isAcyclic = true := by cbv
  obtain ⟨t, t', ok, ok', same⟩ := tables acyclic
  exact ⟨r', t, t', reduced', acyclic_iff.1 acyclic, ok, ok', same⟩

end TorchLogic.Netlist
