import Mathlib.Data.Finset.Dedup
import Mathlib.Data.Finset.Lattice.Fold
import Mathlib.Order.Lattice.Nat
import TorchLogic.Proofs.Netlist.Consistency
import TorchLogic.Proofs.Netlist.Evaluate

/-!
# Signals grow weaker along wires

On a board a signal leaves its source at full strength and loses one unit with each wire that it
passes. A wire takes the strongest of the signals that reach it (`Netlist.Attenuates`), and a
component is powered by a source beside it or by a wire on which something is left
(`Netlist.PoweredAt`). Reduction knows nothing of strengths: it asks whether a run of at most
fifteen wires leads from one component to another. Both come to the same
(`Netlist.reduction_attenuates`): in a reduced netlist the drivers of a component are on exactly if
the component is powered by the strengths on the netlist with its wires.

The strengths are the least ones that the wires can have. They are known by the paths that they come
from (`Netlist.le_strength_iff`): at least `n` units are left on a wire if a source that is on has a
path to it of no more than `16 - n` edges. This makes them a solution
(`Netlist.attenuates_strength`), and no solution can be below a path
(`Netlist.Attenuates.le_of_path`).
-/

namespace TorchLogic

namespace Component

variable {c : Component} {new : Nat → Nat}

/-- Whether a component adds up what drives it. -/
def gathers : Component → Bool
  | output _ | torch | circuitInput _ _ => true
  | _ => false

@[simp] theorem gathers_renumber : (c.renumber new).gathers = c.gathers := by
  cases c <;> rfl

@[simp] theorem renumber_eq_torch_iff : c.renumber new = torch ↔ c = torch := by
  cases c <;> simp [renumber]

theorem isCircuit_of_gathers (h : c.gathers = true) : c.isCircuit = false := by
  cases c with
  | circuit t => cases h
  | _ => rfl

end Component

namespace Netlist

open Relation

/-! ### Strengths -/

/-- The strength of a signal at its source. -/
def fullStrength : Nat := 15

section Strengths

variable {g : Netlist .wired} {on : NodeId → Bool} {s : NodeId → Nat} {a w t k n : Nat}

/-- What a driver gives to a wire: full strength if it is a source that is on, and one unit less
than its own strength if it is a wire. -/
def given (g : Netlist .wired) (on : NodeId → Bool) (s : NodeId → Nat) (a : NodeId) : Nat :=
  if g.isWire a then s a - 1 else if on a then fullStrength else 0

/-- **Strengths that the wires can have** while the sources are on and off: each wire has the
largest strength that a driver gives it, and none without drivers. -/
def Attenuates (g : Netlist .wired) (on : NodeId → Bool) (s : NodeId → Nat) : Prop :=
  ∀ w, g.isWire w = true → s w = (g.drivers w).toFinset.sup (g.given on s)

/-- **Whether a node is powered** by a source that is on, or by a wire on which something is left.
-/
def PoweredAt (g : Netlist .wired) (on : NodeId → Bool) (s : NodeId → Nat) (t : NodeId) : Prop :=
  (∃ a ∈ g.drivers t, g.isWire a = false ∧ on a = true) ∨
    ∃ w ∈ g.drivers t, g.isWire w = true ∧ 1 ≤ s w

/-- Whether a signal arrives at a wire with so many units left at least. -/
def Arrives (g : Netlist .wired) (on : NodeId → Bool) (n w : Nat) : Prop :=
  g.isWire w = true ∧ ∃ a k, (g.isWire a = false ∧ on a = true) ∧ g.WirePath a k w ∧
    k + n ≤ fullStrength + 1

open Classical in
/-- **The strength of a wire**, which is as large as a signal arrives with. -/
noncomputable def strength (g : Netlist .wired) (on : NodeId → Bool) (w : Nat) : Nat :=
  Nat.findGreatest (g.Arrives on · w) fullStrength

theorem WirePath.length_pos (path : g.WirePath a k w) : 0 < k := by
  cases path with
  | edge _ => exact Nat.one_pos
  | through _ _ _ => exact Nat.succ_pos _

theorem Arrives.weaken {m : Nat} (h : g.Arrives on n w) (le : m ≤ n) : g.Arrives on m w := by
  obtain ⟨wire, a, k, source, path, enough⟩ := h
  exact ⟨wire, a, k, source, path, by omega⟩

theorem le_strength_iff (pos : 0 < n) : n ≤ g.strength on w ↔ g.Arrives on n w := by
  classical
  refine ⟨fun le => ?_, fun arrives => ?_⟩
  · have some_left : g.strength on w ≠ 0 := by omega
    exact (Nat.findGreatest_of_ne_zero rfl some_left).weaken le
  · -- No signal arrives stronger than it left.
    have bound : n ≤ fullStrength := by
      obtain ⟨-, a, k, -, path, enough⟩ := arrives
      have := path.length_pos
      omega
    exact Nat.le_findGreatest bound arrives

/-- **A signal arrives at a wire from a driver**, one unit weaker if the driver is a wire. -/
theorem arrives_iff (h : g.EdgesKept) (wire : g.isWire w = true) (pos : 0 < n) :
    g.Arrives on n w ↔ ∃ a ∈ g.drivers w, n ≤ g.given on (g.strength on) a := by
  refine ⟨?_, ?_⟩
  · rintro ⟨-, a, k, ⟨plain, lit⟩, path, enough⟩
    cases path with
    | edge edge =>
      -- the source itself drives the wire
      refine ⟨a, (h.mirrored _ _).1 edge, ?_⟩
      simp only [given, plain, lit, Bool.false_eq_true, if_false, if_true]
      omega
    | @through length last _ before isWire edge =>
      -- the path came through one more wire, where it was stronger by one
      refine ⟨last, (h.mirrored _ _).1 edge, ?_⟩
      have stronger : g.Arrives on (n + 1) last :=
        ⟨isWire, a, length, ⟨plain, lit⟩, before, by omega⟩
      have le := (le_strength_iff (Nat.succ_pos n)).2 stronger
      simp only [given, isWire, if_true]
      omega
  · -- the driver is a wire, a source that is on, or gives nothing
    rintro ⟨a, edge, le⟩
    have edge := (h.mirrored _ _).2 edge
    unfold given at le
    split at le
    case isTrue isWire =>
      -- Something is left on the driver, and it has come by a path.
      have stronger : n + 1 ≤ g.strength on a := by omega
      obtain ⟨-, source, k, lit, path, enough⟩ := (le_strength_iff (Nat.succ_pos n)).1 stronger
      exact ⟨wire, source, k + 1, lit, .through path isWire edge, by omega⟩
    case isFalse plain =>
      split at le
      case isTrue lit =>
        exact ⟨wire, a, 1, ⟨Bool.eq_false_iff.2 plain, lit⟩, .edge edge, by omega⟩
      case isFalse => omega

/-- **Strengths attenuate.** -/
theorem attenuates_strength (h : g.EdgesKept) (on : NodeId → Bool) :
    g.Attenuates on (g.strength on) := by
  intro w wire
  refine eq_of_forall_le_iff fun n => ?_
  rcases Nat.eq_zero_or_pos n with rfl | pos
  · exact iff_of_true (Nat.zero_le _) (Nat.zero_le _)
  · rw [le_strength_iff pos, arrives_iff h wire pos, Finset.le_sup_iff pos]
    simp only [List.mem_toFinset]

/-- No strengths are below what comes along a path. -/
theorem Attenuates.le_of_path (sol : g.Attenuates on s) (h : g.EdgesKept)
    (source : g.isWire a = false ∧ on a = true) (path : g.WirePath a k w)
    (wire : g.isWire w = true) : fullStrength + 1 ≤ s w + k := by
  -- A wire has at least what any one driver gives it, since it has the most that one gives.
  have le_of_edge {b v : Nat} (edge : v ∈ g.successors b) (wire : g.isWire v = true) :
      g.given on s b ≤ s v := by
    rw [sol v wire]
    exact Finset.le_sup (List.mem_toFinset.2 ((h.mirrored _ _).1 edge))
  -- Along the path each wire takes one from the strength, and `k` counts them.
  induction path with
  | edge edge =>
    have le := le_of_edge edge wire
    simp only [given, source.1, source.2, Bool.false_eq_true, if_false, if_true] at le
    omega
  | @through length last _ before isWire edge ih =>
    have le := le_of_edge edge wire
    simp only [given, isWire, if_true] at le
    have := ih isWire
    omega

/-- **The strengths are the least that the wires can have.** -/
theorem isLeast_strength (h : g.EdgesKept) (on : NodeId → Bool) :
    IsLeast {s | g.Attenuates on s} (g.strength on) := by
  refine ⟨attenuates_strength h on, fun s sol w => ?_⟩
  rcases Nat.eq_zero_or_pos (g.strength on w) with none | pos
  · rw [none]
    exact Nat.zero_le _
  · obtain ⟨wire, a, k, source, path, enough⟩ := (le_strength_iff pos).1 (Nat.le_refl _)
    have := sol.le_of_path h source path wire
    show g.strength on w ≤ s w
    omega

/-- **A node is powered if a source that is on crosses to it.** -/
theorem poweredAt_strength_iff (h : g.EdgesKept) : g.PoweredAt on (g.strength on) t ↔
    ∃ a, (g.isWire a = false ∧ on a = true) ∧ g.Crosses a t := by
  -- Nodes cross over at most `fullStrength` wires, which is a path of one edge more.
  have crosses_iff {a : Nat} : g.Crosses a t ↔ ∃ k, k ≤ fullStrength + 1 ∧ g.WirePath a k t := by
    simp only [wirePath_iff h]
    refine ⟨?_, ?_⟩
    · rintro ⟨ws, le, run⟩
      exact ⟨ws.length + 1, Nat.succ_le_succ le, ws, rfl, run⟩
    · rintro ⟨_, le, ws, rfl, run⟩
      exact ⟨ws, Nat.le_of_succ_le_succ le, run⟩
  simp only [crosses_iff]
  refine ⟨?_, ?_⟩
  · rintro (⟨a, edge, source⟩ | ⟨w, edge, wire, left⟩)
    · exact ⟨a, source, 1, by decide, .edge ((h.mirrored _ _).2 edge)⟩
    · obtain ⟨-, a, k, source, path, enough⟩ := (le_strength_iff Nat.one_pos).1 left
      exact ⟨a, source, k + 1, enough, .through path wire ((h.mirrored _ _).2 edge)⟩
  · -- the last edge of the path is from the source or from a wire with something left
    rintro ⟨a, source, k, le, path⟩
    cases path with
    | edge edge => exact .inl ⟨a, (h.mirrored _ _).1 edge, source⟩
    | @through length last _ before isWire edge =>
      refine .inr ⟨last, (h.mirrored _ _).1 edge, isWire, ?_⟩
      exact (le_strength_iff Nat.one_pos).2 ⟨isWire, a, length, source, before, le⟩

/-- **The drivers after reduction** are on if the node is powered before. -/
theorem IsReduction.any_drivers_iff {r : Netlist .reduced} {new : Nat → Nat}
    (red : IsReduction g r new) (wf : g.WellFormed) (reduced : r.WellFormed) (v : NodeId → Bool)
    (kept : t ∈ g.kept) : (r.drivers (new t)).any v = true ↔
      g.PoweredAt (v ∘ new) (g.strength (v ∘ new)) t := by
  rw [poweredAt_strength_iff wf.toEdgesKept, List.any_eq_true]
  refine ⟨?_, ?_⟩
  · -- a driver in the reduced netlist is a node that was kept, and not a wire
    rintro ⟨k, edge, lit⟩
    obtain ⟨a, ka, rfl⟩ := red.nodes.2.2 (reduced.lt_of_mem_drivers edge).1
    obtain ⟨c, hc, ne⟩ := mem_kept.1 ka
    have plain : g.isWire a = false := by
      rw [Bool.eq_false_iff, ne_eq, isWire_iff, hc, Option.some.injEq]
      exact ne
    exact ⟨a, ⟨plain, lit⟩, (red.edges a ka t kept).1 edge⟩
  · -- a source has an edge onwards and is no wire, so the reduction keeps it
    rintro ⟨a, ⟨plain, lit⟩, cross⟩
    obtain ⟨c, d, hc, -⟩ := cross.legal wf
    have ka : a ∈ g.kept := by
      refine mem_kept.2 ⟨c, hc, ?_⟩
      rintro rfl
      rw [isWire_iff.2 hc] at plain
      cases plain
    exact ⟨new a, (red.edges a ka t kept).2 cross, lit⟩

end Strengths

/-! ### Evaluation -/

section Evaluation

variable {g : Netlist .reduced} {id : Nat} {word : UInt64} {v : NodeId → Bool}

/-- **What evaluation finds**, for the nodes on which an output depends. -/
def EvaluatesTo (g : Netlist .reduced) (word : UInt64) (v : NodeId → Bool) : Prop :=
  ∀ id, g.Observed id → g.isCircuit id = false → g.signal id word = .ok (v id)

/-- What evaluation finds is a solution. -/
theorem EvaluatesTo.solves (values : g.EvaluatesTo word v) (h : g.WellFormed)
    (acyclic : g.isAcyclic = true) (few : g.inputs.length < 64) :
    g.Solves word.toNat.testBit v := by
  intro id observed plain
  rw [← settled_eq (values id observed plain), solves_settled h acyclic few word id observed plain]
  refine h.required_congr _ fun p mem => ?_
  obtain ⟨path, plain⟩ := h.asked_upstream mem
  exact settled_eq (values p (observed.of_transGen path) plain)

theorem exists_evaluatesTo (h : g.WellFormed) (acyclic : g.isAcyclic = true)
    (few : g.inputs.length < 64) (word : UInt64) : ∃ v, g.EvaluatesTo word v := by
  refine ⟨g.settled word, fun id observed plain => ?_⟩
  exact signalWithin_eq_of_solves h acyclic few (solves_settled h acyclic few word) observed plain
    (Nat.lt_succ_self _)

/-- **The state of a component that adds up its drivers** is on or off with them, and the other way
about for a torch. -/
theorem Solves.gathers {given : Nat → Bool} (solves : g.Solves given v) {c : Component}
    (hid : g.component? id = some c) (gathers : c.gathers = true) (observed : g.Observed id) :
    v id = ((g.drivers id).any v != decide (c = .torch)) := by
  have plain : g.isCircuit id = false := by
    rw [isCircuit, hid]
    exact Component.isCircuit_of_gathers gathers
  rw [solves id observed plain, required, hid]
  cases c with
  | output f => simp
  | torch => simp
  | circuitInput side owner => simp
  | _ => cases gathers

end Evaluation

/-- **Reduction knows what attenuation does.** On a reduced netlist without feedback evaluation
finds a state for each node on which an output depends. With the sources in these states the wires
of the netlist before reduction have least strengths, and what adds up its drivers is powered by
those strengths exactly if one of its drivers after reduction is on. So it is on exactly if it is
powered, and a torch if it is not. -/
theorem reduction_attenuates {g : Netlist .wired} {r : Netlist .reduced} (reachable : g.Reachable)
    (ok : g.reduce = .ok r) (acyclic : r.isAcyclic = true) (few : r.inputs.length < 64)
    (word : UInt64) :
    (∃ v, r.EvaluatesTo word v) ∧ ∀ v, r.EvaluatesTo word v →
      ∃ s, IsLeast {s | g.Attenuates (v ∘ g.renumbered) s} s ∧
        ∀ t c, g.component? t = some c → c.gathers = true → r.Observed (g.renumbered t) →
          ((r.drivers (g.renumbered t)).any v = true ↔ g.PoweredAt (v ∘ g.renumbered) s t) ∧
          (v (g.renumbered t) = true ↔
            if c = .torch then ¬ g.PoweredAt (v ∘ g.renumbered) s t
            else g.PoweredAt (v ∘ g.renumbered) s t) := by
  have wf := reachable.wellFormed
  have reduced := wf.reduce ok
  obtain ⟨r', ok', red⟩ := wf.isReduction
  obtain rfl : r = r' := Except.ok.inj (ok.symm.trans ok')
  refine ⟨exists_evaluatesTo reduced acyclic few word, fun v values => ?_⟩
  -- The least strengths are those that the paths from the sources leave.
  refine ⟨_, isLeast_strength wf.toEdgesKept _, fun t c hc gathers observed => ?_⟩
  have kept : t ∈ g.kept := by
    refine mem_kept.2 ⟨c, hc, ?_⟩
    rintro rfl
    cases gathers
  have powered := red.any_drivers_iff wf reduced v kept
  refine ⟨powered, ?_⟩
  have moved : r.component? (g.renumbered t) = some (c.renumber g.renumbered) := by
    rw [red.component t kept, hc, Option.map_some]
  -- The reduced netlist solves its own equations, and there the drivers say what the state is.
  have state := (values.solves reduced acyclic few).gathers moved
    (by rw [Component.gathers_renumber, gathers]) observed
  simp only [Component.renumber_eq_torch_iff] at state
  rw [state]
  by_cases torch : c = .torch
  · simp [torch, ← powered]
  · simp [torch, ← powered]

/-- The output of the nested inverter depends on its input child and on the board input. -/
theorem Relay.observed : reduced.Observed 2 ∧ reduced.Observed 0 := by
  have edge (a b : Nat) (mem : a ∈ reduced.drivers b) : reduced.Drives a b := mem
  have child : ReflTransGen reduced.Drives 2 4 :=
    .head (edge 2 1 (by decide)) (.head (edge 1 3 (by decide)) (.single (edge 3 4 (by decide))))
  have output : 4 ∈ reduced.outputs := by decide
  exact ⟨⟨4, output, child⟩, 4, output, .head (edge 0 2 (by decide)) child⟩

/-- The nested inverter behind a wire: while the board input is on, the wire powers the input child.
-/
theorem reduction_attenuates_relay :
    Relay.wired.Reachable ∧ Relay.wired.reduce = .ok Relay.reduced ∧
      Relay.reduced.isAcyclic = true ∧ Relay.reduced.inputs.length < 64 ∧
      ∃ v, Relay.reduced.EvaluatesTo 1 v ∧ v 0 = true ∧
        ∃ s, IsLeast {s | Relay.wired.Attenuates (v ∘ Relay.wired.renumbered) s} s ∧
          Relay.wired.PoweredAt (v ∘ Relay.wired.renumbered) s 3 := by
  have reachable := Relay.built_wired.reachable
  have acyclic : Relay.reduced.isAcyclic = true := by cbv
  have few : Relay.reduced.inputs.length < 64 := by decide
  obtain ⟨⟨v, values⟩, attenuates⟩ := reduction_attenuates reachable Relay.reduce_eq acyclic few 1
  obtain ⟨s, least, powered⟩ := attenuates v values
  -- The input is on, by the word.
  have on : v 0 = true := by
    have found : Relay.reduced.signal 0 1 = .ok true := by cbv
    exact Except.ok.inj ((values 0 Relay.observed.2 rfl).symm.trans found)
  refine ⟨reachable, Relay.reduce_eq, acyclic, few, v, values, on, s, least, ?_⟩
  -- The socket of the circuit is powered, since its one driver is the input.
  have number : Relay.wired.renumbered 3 = 2 := by cbv
  refine (powered 3 (.circuitInput .back 2) (by cbv) rfl (number ▸ Relay.observed.1)).1.1 ?_
  rw [number, List.any_eq_true]
  exact ⟨0, by decide, on⟩

end Netlist

end TorchLogic
