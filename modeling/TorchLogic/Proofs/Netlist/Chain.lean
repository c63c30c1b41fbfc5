import TorchLogic.Proofs.Diagram.Nesting
import TorchLogic.Proofs.Netlist.Diagram

/-!
# Laying chains of wires

A chain of wires between two nodes takes a call for each wire and one for each edge
(`Netlist.layChain`). What a call adds is told as a whole, as wires behind all the nodes that are
there and some edges (`Netlist.Laid`), and what two calls add, one after the other, is told in the
same way (`Laid.trans`). So the chain is laid by induction on its wires: the edges are those of a
chain as it is drawn (`Netlist.exists_layChain`).
-/

namespace TorchLogic

/-- **The number of a stop** of a chain between two nodes, if its wires are numbered from `first`
on. -/
def ChainStop.number (source first target : NodeId) : ChainStop → NodeId
  | head => source
  | wire j => first + j
  | tail => target

namespace Netlist

variable {g g' g'' : Netlist .wired} {source target : NodeId} {n wires wires' : Nat}

/-- Joins a new wire to the `n` wires before it, or leads to it from the node at the head if it is
the first. -/
def joinNext (n : Nat) (last wire : NodeId) (g : Netlist .wired) :
    Except NetlistError (Netlist .wired) :=
  if n = 0 then g.connect last wire else g.joinWires last wire

/-- **Adds wires in a row** after a node. The number is that of the last one, or of the node if
there is none. -/
def layWires (source : NodeId) : Nat → Netlist .wired →
    Except NetlistError (NodeId × Netlist .wired)
  | 0, g => .ok (source, g)
  | n + 1, g => do
    let (last, g) ← layWires source n g
    let (wire, g) ← g.addWire
    let g ← g.joinNext n last wire
    .ok (wire, g)

/-- **Lays a chain of wires** from a node to another. -/
def layChain (source target : NodeId) (wires : Nat) (g : Netlist .wired) :
    Except NetlistError (Netlist .wired) := do
  let (last, g) ← layWires source wires g
  g.connect last target

/-! ### What is laid -/

theorem Reachable.apply {e : Edit} (built : g.Reachable) (ok : e.apply g = .ok g') :
    g'.Reachable := by
  have after := built.edited e
  rwa [Netlist.edited, ok] at after

/-- **What laying adds to a netlist**: wires after all that is there, and edges. -/
structure Laid (g g' : Netlist .wired) (wires : Nat) (edges : NodeId → NodeId → Prop) : Prop where
  reachable : g'.Reachable
  size : g'.size = g.size + wires
  component?_old : ∀ id < g.size, g'.component? id = g.component? id
  component?_new : ∀ j < wires, g'.component? (g.size + j) = some .wire
  inputs : g'.inputs = g.inputs
  outputs : g'.outputs = g.outputs
  drives : ∀ a b, g'.Drives a b ↔ g.Drives a b ∨ edges a b

namespace Laid

variable {edges edges' : NodeId → NodeId → Prop}

theorem refl (built : g.Reachable) : Laid g g 0 fun _ _ => False where
  reachable := built
  size := rfl
  component?_old _ _ := rfl
  component?_new j lt := absurd lt (Nat.not_lt_zero j)
  inputs := rfl
  outputs := rfl
  drives _ _ := (iff_of_eq (or_false _)).symm

theorem trans (h : Laid g g' wires edges) (h' : Laid g' g'' wires' edges') :
    Laid g g'' (wires + wires') fun a b => edges a b ∨ edges' a b where
  reachable := h'.reachable
  size := by rw [h'.size, h.size, Nat.add_assoc]
  component?_old id lt := by
    rw [h'.component?_old id (h.size ▸ Nat.lt_add_right wires lt), h.component?_old id lt]
  component?_new j lt := by
    by_cases early : j < wires
    · -- a wire that was laid first
      rw [h'.component?_old _ (h.size ▸ Nat.add_lt_add_left early g.size), h.component?_new j early]
    · -- a wire that was laid later, counted from the first of those
      have late := h'.component?_new (j - wires) (by omega)
      rwa [h.size, Nat.add_assoc, Nat.add_sub_cancel' (Nat.le_of_not_lt early)] at late
  inputs := h'.inputs.trans h.inputs
  outputs := h'.outputs.trans h.outputs
  drives a b := by rw [h'.drives, h.drives, or_assoc]

theorem congr (h : Laid g g' wires edges) (same : ∀ a b, edges a b ↔ edges' a b) :
    Laid g g' wires edges' :=
  { h with drives := fun a b => (h.drives a b).trans (or_congr_right (same a b)) }

/-- Every node that was there is what it was. -/
theorem component? {c : Component} {id : NodeId} (h : Laid g g' wires edges)
    (hc : g.component? id = some c) :
    g'.component? id = some c :=
  (h.component?_old id (lt_size_of_component? hc)).trans hc

end Laid

theorem laid_addWire (built : g.Reachable) : g.addWire = .ok (g.size, g.push .wire) ∧
    Laid g (g.push .wire) 1 fun _ _ => False := by
  refine ⟨rfl, ?_⟩
  exact {
    reachable := built.apply (e := .wire) rfl
    size := size_push g _
    component?_old := fun id lt => component?_push_of_lt lt
    component?_new := fun j lt => by
      obtain rfl : j = 0 := by omega
      exact component?_push_self g .wire
    inputs := rfl
    outputs := rfl
    drives := fun a b => by rw [Drives, drivers_push, or_false]; rfl }

/-- Connecting what drives freely with what is driven freely. -/
theorem exists_connect (built : g.Reachable) {c d : Component} (hc : g.component? source = some c)
    (hd : g.component? target = some d) (free : c.drivesFreely = true)
    (driven : d.drivenFreely = true) :
    ∃ g', g.connect source target = .ok g' ∧ Laid g g' 0 fun a b => a = source ∧ b = target := by
  have ok : g.connect source target = .ok (g.link source target) :=
    connect_eq_ok_iff.2 ⟨c, d, hc, hd, Sealing.fault?_of_free free driven, rfl⟩
  refine ⟨_, ok, ?_⟩
  exact {
    reachable := built.apply (e := .connect source target) ok
    size := size_link g _ _
    component?_old := fun id _ => component?_link g _ _ id
    component?_new := fun j lt => absurd lt (Nat.not_lt_zero j)
    inputs := rfl
    outputs := rfl
    drives := fun a b => mem_drivers_link (lt_size_of_component? hd) }

theorem exists_joinWires (built : g.Reachable) (hc : g.component? source = some .wire)
    (hd : g.component? target = some .wire) :
    ∃ g', g.joinWires source target = .ok g' ∧
      Laid g g' 0 fun a b => a = source ∧ b = target ∨ a = target ∧ b = source := by
  have ok : g.joinWires source target = .ok ((g.link source target).link target source) :=
    joinWires_eq_ok_iff.2 ⟨rfl, hc, hd, rfl⟩
  refine ⟨_, ok, ?_⟩
  exact {
    reachable := built.apply (e := .joinWires source target) ok
    size := (size_link _ _ _).trans (size_link g _ _)
    component?_old := fun id _ => by rw [component?_link, component?_link]
    component?_new := fun j lt => absurd lt (Nat.not_lt_zero j)
    inputs := rfl
    outputs := rfl
    drives := fun a b => by
      rw [Drives, mem_drivers_link (by rw [size_link]; exact lt_size_of_component? hc),
        mem_drivers_link (lt_size_of_component? hd), or_assoc]
      rfl }

/-- **Wires are added in a row** after what drives freely, and edges lead along the row. -/
theorem exists_layWires (built : g.Reachable) {c : Component} (hc : g.component? source = some c)
    (free : c.drivesFreely = true) (target : NodeId) (n : Nat) :
    ∃ g', g.layWires source n = .ok ((ChainStop.last n).number source g.size target, g') ∧
      Laid g g' n fun a b => ∃ x y, ChainStop.Drives n x y ∧ y ≠ .tail ∧
        a = x.number source g.size target ∧ b = y.number source g.size target := by
  induction n with
  | zero =>
    -- No wires are laid, and no edge of an empty chain stays inside it.
    refine ⟨g, rfl, (Laid.refl built).congr fun a b => ⟨False.elim, ?_⟩⟩
    rintro ⟨x, y, edge, inner, -⟩
    cases edge with
    | direct _ | leave _ => exact inner rfl
    | enter lt | ahead lt | back lt => exact absurd lt (Nat.not_lt_zero _)
  | succ n ih =>
    obtain ⟨g₁, ok₁, laid₁⟩ := ih
    obtain ⟨ok₂, laid₂⟩ := laid_addWire laid₁.reachable
    -- The next wire stands, and nothing leads to it yet.
    have upto := laid₁.trans laid₂
    have wire : (g₁.push .wire).component? (g.size + n) = some .wire :=
      upto.component?_new n (Nat.lt_succ_self n)
    -- It is joined to the wire before it, or connected to the source as the first of them.
    have joined : ∃ g',
      (g₁.push .wire).joinNext n ((ChainStop.last n).number source g.size target) (g.size + n) =
          .ok g' ∧ Laid (g₁.push .wire) g' 0 fun a b =>
          (a = (ChainStop.last n).number source g.size target ∧ b = g.size + n) ∨
            0 < n ∧ a = g.size + n ∧ b = (ChainStop.last n).number source g.size target := by
      cases n with
      | zero =>
        obtain ⟨g', ok, laid⟩ := exists_connect upto.reachable (upto.component? hc) wire free rfl
        exact ⟨g', ok, laid.congr fun a b => by simp [ChainStop.last, ChainStop.number]⟩
      | succ j =>
        have before : (g₁.push .wire).component? (g.size + j) = some .wire :=
          upto.component?_new j (Nat.lt_succ_of_lt (Nat.lt_succ_self j))
        obtain ⟨g', ok, laid⟩ := exists_joinWires upto.reachable before wire
        exact ⟨g', ok, laid.congr fun a b => by simp [ChainStop.last, ChainStop.number]⟩
    obtain ⟨g', ok₃, laid₃⟩ := joined
    refine ⟨g', ?_, (upto.trans laid₃).congr fun a b => ?_⟩
    · -- the calls succeed one after the other
      simp only [layWires, ok₁, ok_bind, ok₂, laid₁.size, ok₃]
      rfl
    · -- and the edges are those of a chain with one wire more
      constructor
      · rintro ((⟨x, y, edge, inner, rfl, rfl⟩ | no) | ⟨rfl, rfl⟩ | ⟨pos, rfl, rfl⟩)
        · exact ⟨x, y, (ChainStop.drives_succ_iff.2 (.inl ⟨edge, inner⟩)).1, inner, rfl, rfl⟩
        · exact no.elim
        · obtain ⟨edge, inner⟩ := ChainStop.drives_succ_iff.2 (.inr (.inl ⟨rfl, rfl⟩))
          exact ⟨_, _, edge, inner, rfl, rfl⟩
        · obtain ⟨edge, inner⟩ := ChainStop.drives_succ_iff.2 (.inr (.inr ⟨pos, rfl, rfl⟩))
          exact ⟨_, _, edge, inner, rfl, rfl⟩
      · rintro ⟨x, y, edge, inner, rfl, rfl⟩
        rcases ChainStop.drives_succ_iff.1 ⟨edge, inner⟩ with old | ⟨rfl, rfl⟩ | ⟨pos, rfl, rfl⟩
        · exact .inl (.inl ⟨x, y, old.1, old.2, rfl, rfl⟩)
        · exact .inr (.inl ⟨rfl, rfl⟩)
        · exact .inr (.inr ⟨pos, rfl, rfl⟩)

/-- **A chain is laid** from what drives freely to what is driven freely. -/
theorem exists_layChain (built : g.Reachable) {c d : Component} (hc : g.component? source = some c)
    (hd : g.component? target = some d) (free : c.drivesFreely = true)
    (driven : d.drivenFreely = true) (n : Nat) :
    ∃ g', g.layChain source target n = .ok g' ∧
      Laid g g' n fun a b => ∃ x y, ChainStop.Drives n x y ∧
      a = x.number source g.size target ∧ b = y.number source g.size target := by
  obtain ⟨g₁, ok₁, laid₁⟩ := exists_layWires built hc free target n
  -- What the chain ends with so far may drive anything.
  have last : ∃ e, g₁.component? ((ChainStop.last n).number source g.size target) = some e ∧
      e.drivesFreely = true := by
    cases n with
    | zero => exact ⟨c, laid₁.component? hc, free⟩
    | succ j => exact ⟨.wire, laid₁.component?_new j (Nat.lt_succ_self j), rfl⟩
  obtain ⟨e, he, free'⟩ := last
  obtain ⟨g₂, ok₂, laid₂⟩ := exists_connect laid₁.reachable he (laid₁.component? hd) free' driven
  refine ⟨g₂, ?_, (laid₁.trans laid₂).congr fun a b => ?_⟩
  · simp only [layChain, ok₁, ok_bind, ok₂]
  · -- with the edge to the target all edges of the chain are there
    constructor
    · rintro (⟨x, y, edge, -, rfl, rfl⟩ | ⟨rfl, rfl⟩)
      · exact ⟨x, y, edge, rfl, rfl⟩
      · exact ⟨_, _, ChainStop.drives_iff.2 (.inr ⟨rfl, rfl⟩), rfl, rfl⟩
    · rintro ⟨x, y, edge, rfl, rfl⟩
      rcases ChainStop.drives_iff.1 edge with ⟨edge, inner⟩ | ⟨rfl, rfl⟩
      · exact .inl ⟨x, y, edge, inner, rfl, rfl⟩
      · exact .inr ⟨rfl, rfl⟩

end Netlist

end TorchLogic
