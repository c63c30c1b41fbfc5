import Mathlib.Data.List.Nodup
import TorchLogic.Proofs.Diagram.Faithful
import TorchLogic.Proofs.Netlist.TruthTable

/-!
# The diagram of a netlist

A well-formed netlist is drawn by the diagram of its components and edges
(`Netlist.WellFormed.diagram`). What is computed from the netlist is told by the diagram: the
netlist passes the check for feedback exactly if the diagram is founded
(`Netlist.isAcyclic_iff_founded`), the diagram of its reduction is its diagram without wires up to
numbers (`Netlist.IsReduction.faithful`), and its truth table computes what the diagram does
(`Netlist.exists_truthTable_computes`). The whole way from a netlist with wires to its table is one
statement about its diagram (`Netlist.WellFormed.exists_reduce`).
-/

namespace TorchLogic

/-- What the node of a component is. -/
def Component.part : Component → Part
  | input f => .input f
  | output f => .output f
  | wire => .wire
  | torch => .torch
  | circuit t => .circuit t
  | circuitInput side _ => .circuitInput side
  | circuitOutput side _ => .circuitOutput side

theorem Component.part_eq_wire_iff {c : Component} : c.part = .wire ↔ c = .wire := by
  cases c <;> simp [part]

/-- Renumbering does not change what a component is. -/
theorem Component.part_renumber (new : NodeId → NodeId) (c : Component) :
    (c.renumber new).part = c.part := by
  cases c <;> rfl

namespace Netlist

open Relation

section Diagram

variable {stage : Stage} {g : Netlist stage} {a b id : Nat} {c : Component}

/-- **The diagram of a netlist.** -/
def WellFormed.diagram (h : g.WellFormed) : Diagram NodeId where
  Is id p := ∃ c, g.component? id = some c ∧ p = c.part
  Drives := g.Drives
  is_of_drives edge := by
    obtain ⟨c, d, hc, hd, -⟩ := h.sealed _ _ edge
    exact ⟨⟨_, c, hc, rfl⟩, _, d, hd, rfl⟩

variable (h : g.WellFormed)

theorem is_iff (hc : g.component? id = some c) {p : Part} : h.diagram.Is id p ↔ p = c.part := by
  refine ⟨?_, fun eq => ⟨c, hc, eq⟩⟩
  rintro ⟨c', hc', rfl⟩
  rw [Option.some.inj (hc.symm.trans hc')]

theorem is_output_iff {f : Facing} :
    h.diagram.Is id (.output f) ↔ g.component? id = some (.output f) := by
  refine ⟨?_, fun hc => ⟨_, hc, rfl⟩⟩
  rintro ⟨c, hc, eq⟩
  cases c <;> simp only [Component.part, Part.output.injEq, reduceCtorEq] at eq
  rw [hc, eq]

theorem is_circuitInput_iff {side : Side} :
    h.diagram.Is id (.circuitInput side) ↔
      ∃ owner, g.component? id = some (.circuitInput side owner) := by
  refine ⟨?_, fun ⟨owner, hc⟩ => ⟨_, hc, rfl⟩⟩
  rintro ⟨c, hc, eq⟩
  cases c <;> simp only [Component.part, Part.circuitInput.injEq, reduceCtorEq] at eq
  rw [hc, eq]
  exact ⟨_, rfl⟩

theorem observed_iff : h.diagram.Observed id ↔ g.Observed id := by
  refine ⟨?_, ?_⟩
  · rintro ⟨o, f, output, path⟩
    exact ⟨o, h.mem_outputs.2 ⟨f, (is_output_iff h).1 output⟩, path⟩
  · rintro ⟨o, mem, path⟩
    obtain ⟨f, output⟩ := h.mem_outputs.1 mem
    exact ⟨o, f, (is_output_iff h).2 output, path⟩

/-- **The check for feedback is a fact of the diagram.** -/
theorem isAcyclic_iff_founded : g.isAcyclic = true ↔ h.diagram.Founded := by
  refine ⟨?_, ?_⟩
  · intro acyclic o f output
    exact acc_of_isAcyclic acyclic ((observed_iff h).1 ⟨o, f, output, .refl⟩)
  · intro founded
    by_contra cyclic
    obtain ⟨id, observed, loop⟩ :=
      exists_onLoop_of_isAcyclic_eq_false (Bool.eq_false_of_not_eq_true cyclic)
    exact not_onLoop_of_acc (founded.acc ((observed_iff h).2 observed)) loop

/-- A run of wires is a path. -/
theorem run_iff_wirePath {k : Nat} : h.diagram.Run a k b ↔ g.WirePath a (k + 1) b := by
  refine ⟨?_, ?_⟩
  · -- a run of the diagram is a path, whose wires are counted from one
    intro run
    induction run with
    | edge edge => exact .edge ((h.mirrored _ _).2 edge)
    | through _ wire edge ih =>
      obtain ⟨c, hc, eq⟩ := wire
      rw [Component.part_eq_wire_iff.1 eq.symm] at hc
      exact .through ih (isWire_iff.2 hc) ((h.mirrored _ _).2 edge)
  · -- and a path of the netlist is a run
    intro path
    generalize length : k + 1 = n at path
    induction path generalizing k with
    | edge edge =>
      obtain rfl : k = 0 := by omega
      exact .edge ((h.mirrored _ _).1 edge)
    | @through n wire target before isWire edge ih =>
      -- The path before the last wire has an edge as well.
      obtain ⟨j, rfl⟩ : ∃ j, n = j + 1 := by
        cases before with
        | edge => exact ⟨0, rfl⟩
        | through => exact ⟨_, rfl⟩
      obtain rfl : k = j + 1 := by omega
      exact .through (ih rfl) ⟨_, isWire_iff.1 isWire, rfl⟩ ((h.mirrored _ _).1 edge)

end Diagram

/-! ### Reduction -/

section Reduction

variable {g : Netlist .wired} {r : Netlist .reduced} {new : Nat → Nat} {a b n : Nat}

theorem exists_run_iff_crosses (h : g.WellFormed) :
    (∃ k ≤ maxWireRun, h.diagram.Run a k b) ↔ g.Crosses a b := by
  refine ⟨?_, ?_⟩
  · rintro ⟨k, few, run⟩
    obtain ⟨ws, length, run⟩ := (wirePath_iff h.toEdgesKept).1 ((run_iff_wirePath h).1 run)
    exact ⟨ws, by omega, run⟩
  · rintro ⟨ws, few, run⟩
    exact ⟨ws.length, few, (run_iff_wirePath h).2 ((wirePath_iff h.toEdgesKept).2 ⟨ws, rfl, run⟩)⟩

theorem kept_iff (h : g.WellFormed) : h.diagram.Kept n ↔ n ∈ g.kept := by
  rw [mem_kept]
  refine ⟨?_, ?_⟩
  · rintro ⟨_, ⟨c, hc, rfl⟩, ne⟩
    exact ⟨c, hc, fun wire => ne (Component.part_eq_wire_iff.2 wire)⟩
  · rintro ⟨c, hc, ne⟩
    exact ⟨_, ⟨c, hc, rfl⟩, fun wire => ne (Component.part_eq_wire_iff.1 wire)⟩

/-- **A reduction is the diagram without wires**, up to numbers. -/
theorem IsReduction.faithful (red : IsReduction g r new) (h : g.WellFormed) (h' : r.WellFormed) :
    h.diagram.reduced.Faithful h'.diagram id new where
  -- A kept node has its component, renumbered, and the part is none the wiser.
  is_iff := by
    rintro n ⟨p₀, is₀, ne₀⟩ q
    have kept := (kept_iff h).1 ⟨p₀, is₀, ne₀⟩
    obtain ⟨c, hc, ne⟩ := mem_kept.1 kept
    have hc' : r.component? (new n) = some (c.renumber new) := by
      rw [red.component n kept, hc, Option.map_some]
    rw [is_iff h' hc', Component.part_renumber]
    simp only [Part.turn_id]
    refine ⟨?_, ?_⟩
    · rintro rfl
      exact ⟨_, ⟨⟨c, hc, rfl⟩, fun wire => ne (Component.part_eq_wire_iff.1 wire)⟩, rfl⟩
    · rintro ⟨p, ⟨is, -⟩, rfl⟩
      exact (is_iff h hc).1 is
  -- What signals cross between kept nodes are the edges that were added.
  drives_iff := by
    rintro n ⟨p₀, is₀, ne₀⟩ k
    have kept := (kept_iff h).1 ⟨p₀, is₀, ne₀⟩
    show r.Drives k (new n) ↔
      ∃ m, ((∃ k ≤ maxWireRun, h.diagram.Run m k n) ∧ h.diagram.Kept m ∧ h.diagram.Kept n) ∧
        k = new m
    simp only [exists_run_iff_crosses h, kept_iff h]
    refine ⟨?_, ?_⟩
    · intro edge
      obtain ⟨m, kept', rfl⟩ := red.nodes.2.2 (h'.lt_of_mem_drivers edge).1
      exact ⟨m, ⟨(red.edges m kept' n kept).1 edge, kept', kept⟩, rfl⟩
    · rintro ⟨m, ⟨cross, kept', -⟩, rfl⟩
      exact (red.edges m kept' n kept).2 cross
  onto := by
    rintro k f ⟨c, hc, -⟩
    obtain ⟨n, d, rfl, kept, -⟩ := red.exists_kept hc
    exact ⟨n, (kept_iff h).2 kept, rfl⟩

end Reduction

/-! ### The truth table -/

section Table

variable {r : Netlist .reduced} {n : Nat} {c : Component} {f : Facing} {signals : Signals}
  {v : NodeId → Bool}

theorem boardSide_eq (hc : r.component? n = some (.input f) ∨ r.component? n = some (.output f)) :
    r.boardSide n = .relative .north f := by
  rcases hc with hc | hc
  · rw [boardSide, northSide, facing, component_eq_ok_iff.2 hc]
    rfl
  · rw [boardSide, northSide, facing, component_eq_ok_iff.2 hc]
    rfl

theorem WellFormed.inputState_idxOf (h : r.WellFormed) (hc : r.component? n = some (.input f)) :
    r.inputState signals (r.inputs.idxOf n) = signals.get (.relative .north f) := by
  have mem : n ∈ r.inputs := h.mem_inputs.2 ⟨f, hc⟩
  rw [inputState, List.getElem?_idxOf mem, Option.any_some,
    h.northSide_eq (List.mem_append_left _ mem), boardSide_eq (.inl hc)]

/-- The states of the input children of a circuit are read off its drivers. -/
theorem WellFormed.get_childSignals_iff (h : r.WellFormed) {owner : Nat} {t : TruthTable}
    (ho : r.component? owner = some (.circuit t)) (side : Side) :
    (r.childSignals owner v).get side = true ↔
      ∃ m, h.diagram.Is m (.circuitInput side) ∧ r.Drives m owner ∧ v m = true := by
  simp only [is_circuitInput_iff]
  by_cases child : ∃ m, r.component? m = some (.circuitInput side owner)
  · -- the side has an input child, which tells its signal
    obtain ⟨m, hm⟩ := child
    rw [h.get_childSignals hm]
    refine ⟨fun on => ⟨m, ⟨owner, hm⟩, (h.circuitInput m side owner hm).1, on⟩, ?_⟩
    rintro ⟨k, ⟨owner', hk⟩, edge, on⟩
    -- A driver of the circuit on this side is the child.
    obtain ⟨side', hk'⟩ := h.circuitInput_of_drives ho edge
    have eq := Component.circuitInput.inj (Option.some.inj (hk.symm.trans hk'))
    rw [eq.2] at hk
    rwa [h.circuitInput_unique hm hk]
  · -- it has none, and is off
    rw [WellFormed.get_childSignals_of_none v fun m hm => child ⟨m, hm⟩]
    refine ⟨(fun no => nomatch no), ?_⟩
    rintro ⟨k, ⟨owner', hk⟩, edge, -⟩
    obtain ⟨side', hk'⟩ := h.circuitInput_of_drives ho edge
    have eq := Component.circuitInput.inj (Option.some.inj (hk.symm.trans hk'))
    rw [eq.2] at hk
    exact absurd ⟨k, hk⟩ child

/-- What is required of a node in a solution is what the diagram demands. -/
theorem required_iff_demands (h : r.WellFormed) (hc : r.component? n = some c)
    (plain : c.isCircuit = false) :
    r.required (r.inputState signals) v n = true ↔
      h.diagram.Demands (fun f => signals.get (.relative .north f) = true)
        (fun k => v k = true ∧ r.isCircuit k = false) n := by
  have is {p : Part} : h.diagram.Is n p ↔ p = c.part := is_iff h hc
  have asked {m : Nat} (mem : m ∈ r.asked n) : r.isCircuit m = false := (h.asked_upstream mem).2
  -- No driver that is asked is a circuit.
  have any (asks : r.asked n = r.drivers n) :
      (r.drivers n).any v = true ↔ ∃ m, r.Drives m n ∧ v m = true ∧ r.isCircuit m = false := by
    rw [List.any_eq_true]
    exact exists_congr fun m => and_congr_right fun edge =>
      (and_iff_left (asked (asks ▸ edge))).symm
  cases c with
  | circuit t => cases plain
  | wire => exact absurd hc (h.no_wire rfl n)
  | input f =>
    simp only [required, hc, h.inputState_idxOf hc]
    rw [Diagram.demands_input_iff fun _ => is]
  | output f =>
    simp only [required, hc, any (by rw [Netlist.asked, hc])]
    exact (Diagram.demands_output_iff fun _ => is).symm
  | circuitInput side owner =>
    simp only [required, hc, any (by rw [Netlist.asked, hc])]
    exact (Diagram.demands_circuitInput_iff fun _ => is).symm
  | torch =>
    have off : (!(r.drivers n).any v) = true ↔
        ∀ m, r.Drives m n → ¬ (v m = true ∧ r.isCircuit m = false) := by
      rw [Bool.not_eq_true', ← Bool.not_eq_true, any (by rw [Netlist.asked, hc]), not_exists]
      simp only [not_and]
    simp only [required, hc]
    exact off.trans (Diagram.demands_torch_iff fun _ => is).symm
  | circuitOutput side owner =>
    -- The circuit applies its table to the signals of its input children.
    obtain ⟨edge, t, i, ho, -⟩ := h.circuitOutput n side owner hc
    have states (s : Side) : (r.childSignals owner v).get s = true ↔
        ∃ m, h.diagram.Is m (.circuitInput s) ∧ r.Drives m owner ∧ v m = true ∧
          r.isCircuit m = false := by
      rw [h.get_childSignals_iff ho]
      exact exists_congr fun m => and_congr_right fun _ => and_congr_right fun edge =>
        (and_iff_left (asked (by rw [asked_circuitOutput hc]; exact edge))).symm
    have driver (m : NodeId) : r.Drives m n ↔ m = owner :=
      ⟨h.eq_owner_of_drives hc, fun eq => eq ▸ edge⟩
    simp only [required, hc, ho]
    exact (Diagram.demands_circuitOutput_iff (fun _ => is) driver (fun _ => is_iff h ho)
      states).symm

/-- **A solution is a steady state**, if nested circuits count as off. -/
theorem Solves.steady (h : r.WellFormed) (solves : r.Solves (r.inputState signals) v) :
    h.diagram.Steady (fun f => signals.get (.relative .north f) = true)
      fun n => v n = true ∧ r.isCircuit n = false := by
  intro n observed
  obtain ⟨_, c, hc, rfl⟩ := observed.stands
  have isCircuit : r.isCircuit n = c.isCircuit := by
    rw [Netlist.isCircuit, hc]
    rfl
  show v n = true ∧ r.isCircuit n = false ↔ _
  rw [isCircuit]
  cases kind : c.isCircuit with
  | false =>
    -- A component that is no circuit is on exactly if that is demanded of it.
    rw [← required_iff_demands h hc kind,
      ← solves n ((observed_iff h).1 observed) (isCircuit.trans kind)]
    exact and_iff_left rfl
  | true =>
    refine ⟨?_, fun demand => ?_⟩
    · rintro ⟨-, no⟩
      cases no
    -- Nothing is demanded of a circuit.
    have none {p : Part} (is : h.diagram.Is n p) : ∃ t, p = .circuit t := by
      rw [is_iff h hc] at is
      cases c <;> first | exact ⟨_, is⟩ | cases kind
    cases demand with
    | input is | output is | circuitInput is | torch is | circuitOutput is =>
      obtain ⟨t, eq⟩ := none is
      cases eq

/-- **A netlist without feedback has a table that computes what its diagram does**, if its board
nodes are on distinct sides. -/
theorem exists_truthTable_computes (h : r.WellFormed) (acyclic : r.isAcyclic = true)
    (distinct : (r.inputs.map r.boardSide ++ r.outputs.map r.boardSide).Nodup) :
    ∃ t, r.truthTable = .ok t ∧ t.inputs = r.inputs.map r.boardSide ∧
      t.outputs = r.outputs.map r.boardSide ∧ h.diagram.Computes t := by
  obtain ⟨t, ok, inputs, outputs, columns⟩ := truthTable_eq_ok h acyclic distinct
  have count := TruthTable.length_le_of_nodup distinct
  rw [List.length_append, List.length_map, List.length_map] at count
  have few : r.inputs.length < 64 := by omega
  refine ⟨t, ok, inputs, outputs, fun signals => ?_⟩
  -- The row that the signals select, as a word, gives each input the state of its side.
  have word : (UInt64.ofNat (t.row signals)).toNat = t.row signals := by
    rw [UInt64.toNat_ofNat', Nat.mod_eq_of_lt]
    refine Nat.lt_of_lt_of_le (TruthTable.rowOf_lt signals t.inputs) ?_
    refine Nat.pow_le_pow_right (by decide) ?_
    rw [inputs, List.length_map]
    exact Nat.le_of_lt few
  have solves := solves_settled h acyclic few (UInt64.ofNat (t.row signals))
  rw [word, TruthTable.row, inputs, ← h.inputState_eq signals] at solves
  refine ⟨_, solves.steady h, fun side => ?_⟩
  have computed {n : Nat} {f : Facing} (hc : r.component? n = some (.output f)) :
      (t.apply signals).get (.relative .north f) =
        r.settled (UInt64.ofNat (TruthTable.rowOf signals (r.inputs.map r.boardSide))) n := by
    have four : r.inputs.length ≤ 4 := by omega
    rw [← boardSide_eq (.inr hc), get_apply_boardSide four inputs outputs columns signals
      (h.mem_outputs.2 ⟨f, hc⟩), TruthTable.row, inputs]
  refine ⟨fun on => ?_, ?_⟩
  · -- a signal on an output side is that of an output of the board
    by_cases mem : side ∈ t.outputs
    · rw [outputs] at mem
      obtain ⟨n, output, rfl⟩ := List.mem_map.1 mem
      obtain ⟨f, hc⟩ := h.mem_outputs.1 output
      rw [boardSide_eq (.inr hc), computed hc] at on
      refine ⟨n, f, (is_output_iff h).2 hc, boardSide_eq (.inr hc), on, ?_⟩
      rw [isCircuit, hc]
      rfl
    · rw [TruthTable.get_apply_of_not_mem signals mem] at on
      cases on
  · -- and the outputs of the board give the signals of the table
    rintro ⟨n, f, output, rfl, on, -⟩
    rw [computed ((is_output_iff h).1 output)]
    exact on

end Table

/-! ### From a netlist to its table -/

section Whole

variable {g : Netlist .wired} {r : Netlist .reduced} {new : Nat → Nat}

/-- The sides of board nodes after reduction. -/
theorem IsReduction.map_boardSide (red : IsReduction g r new) {kind : Facing → Component}
    (socket : kind = .input ∨ kind = .output) {ids : List NodeId} {sides : List Facing}
    (eq : ids.map g.component? = sides.map fun f => some (kind f)) :
    (ids.map new).map r.boardSide = sides.map (.relative .north) := by
  induction ids generalizing sides with
  | nil =>
    obtain rfl : sides = [] := List.map_eq_nil_iff.1 eq.symm
    rfl
  | cons n rest ih =>
    cases sides with
    | nil => cases eq
    | cons f others =>
      rw [List.map_cons, List.map_cons, List.cons.injEq] at eq
      obtain ⟨stands, eq⟩ := eq
      -- A socket is no wire, so it is kept and stays what it is.
      have kept : n ∈ g.kept := by
        refine mem_kept.2 ⟨_, stands, ?_⟩
        rcases socket with rfl | rfl <;> exact Component.noConfusion
      have moved : r.component? (new n) = some ((kind f).renumber new) := by
        rw [red.component n kept, stands, Option.map_some]
      rw [List.map_cons, List.map_cons, List.map_cons, ih eq]
      rcases socket with rfl | rfl
      · rw [boardSide_eq (.inl moved)]
      · rw [boardSide_eq (.inr moved)]

/-- **What is found for a netlist goes by its diagram without wires.** The netlist is reduced, and
either something feeds back, or there is a table that computes what the diagram does. The diagram
may be any that is mapped faithfully to that of the netlist, and the sides of the table are those of
its board nodes, in the order in which they are listed. -/
theorem WellFormed.exists_reduce {N : Type} {d : Diagram N} {node : N → NodeId} (h : g.WellFormed)
    (faithful : d.Faithful h.diagram id node) {ins outs : List Facing}
    (inputs : g.inputs.map g.component? = ins.map fun f => some (.input f))
    (outputs : g.outputs.map g.component? = outs.map fun f => some (.output f))
    (distinct : (ins ++ outs).Nodup) :
    ∃ r, g.reduce = .ok r ∧ ((r.isAcyclic = false ∧ ¬ d.reduced.Founded) ∨
      r.isAcyclic = true ∧ d.reduced.Founded ∧ ∃ t, r.truthTable = .ok t ∧
        t.inputs = ins.map (.relative .north) ∧ t.outputs = outs.map (.relative .north) ∧
        d.reduced.Computes t) := by
  obtain ⟨r, reduced, red⟩ := h.isReduction
  have wf : r.WellFormed := h.reduce reduced
  -- From the diagram to that of the netlist, and on to that of its reduction.
  have whole : d.reduced.Faithful wf.diagram id (g.renumbered ∘ node) :=
    faithful.reduced.comp (red.faithful h wf)
  have founded : r.isAcyclic = true ↔ d.reduced.Founded :=
    (isAcyclic_iff_founded wf).trans whole.founded_iff
  have input_sides : r.inputs.map r.boardSide = ins.map (.relative .north) := by
    rw [red.inputs]
    exact red.map_boardSide (.inl rfl) inputs
  have output_sides : r.outputs.map r.boardSide = outs.map (.relative .north) := by
    rw [red.outputs]
    exact red.map_boardSide (.inr rfl) outputs
  refine ⟨r, reduced, ?_⟩
  by_cases acyclic : r.isAcyclic = true
  · -- without feedback there is a table, with the sides of the diagram
    have sides : (r.inputs.map r.boardSide ++ r.outputs.map r.boardSide).Nodup := by
      rw [input_sides, output_sides, ← List.map_append]
      exact List.Nodup.map (fun _ _ => Side.relative_inj.1) distinct
    obtain ⟨t, ok, ins, outs, computes⟩ := exists_truthTable_computes wf acyclic sides
    exact .inr ⟨acyclic, founded.1 acyclic, t, ok, ins.trans input_sides, outs.trans output_sides,
      whole.computes computes⟩
  · -- with feedback the diagram is not founded either
    exact .inl ⟨Bool.eq_false_of_not_eq_true acyclic, fun yes => acyclic (founded.2 yes)⟩

end Whole

end Netlist

end TorchLogic
