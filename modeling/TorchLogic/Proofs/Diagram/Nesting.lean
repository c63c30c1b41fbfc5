import TorchLogic.Proofs.Diagram.Basic
import TorchLogic.Proofs.TruthTable.Muted

/-!
# A nested circuit and nothing else

The simplest diagram with a nested circuit: on each side of its table a chain of wires leads from a
socket of the board to the circuit or from the circuit to a socket (`Diagram.nesting`). A chain is a
line of stops, its ends and the wires between them, and edges lead along the line, both ways between
wires (`ChainStop.Drives`).

Without wires little is left of it: the ends of a chain are joined if the chain is short enough
(`Diagram.nesting_reduced_drives_iff`), and from end to end signals go one way only
(`Diagram.founded_nesting`). So what the diagram does can be said at once: a side whose chain is too
long is not heard, and the rest is the table of the circuit (`Diagram.computes_nesting`).
-/

namespace TorchLogic

/-- The sides of a table: the inputs, then the outputs. -/
def TruthTable.sides (t : TruthTable) : List Side := t.inputs ++ t.outputs

theorem TruthTable.nodup_sides (t : TruthTable) : t.sides.Nodup := t.sides_nodup

/-- **A place in a chain.** -/
inductive ChainStop
  /-- The end where signals come in. -/
  | head
  /-- One of the wires, counted from the head. -/
  | wire (place : Nat)
  /-- The end where signals go out. -/
  | tail
  deriving DecidableEq

/-- **The edges of a chain** with a number of wires. The ends are not driven back. -/
inductive ChainStop.Drives (wires : Nat) : ChainStop → ChainStop → Prop
  | direct : wires = 0 → Drives wires head tail
  | enter : 0 < wires → Drives wires head (wire 0)
  | ahead {j : Nat} : j + 1 < wires → Drives wires (wire j) (wire (j + 1))
  | back {j : Nat} : j + 1 < wires → Drives wires (wire (j + 1)) (wire j)
  | leave {j : Nat} : j + 1 = wires → Drives wires (wire j) tail

namespace ChainStop

/-- The stop before the tail, in a chain with a number of wires. -/
def last : Nat → ChainStop
  | 0 => head
  | j + 1 => wire j

/-- The edges of a chain: those between the stops before the tail, and one to the tail. -/
theorem drives_iff {wires : Nat} {x y : ChainStop} :
    Drives wires x y ↔ Drives wires x y ∧ y ≠ tail ∨ x = last wires ∧ y = tail := by
  constructor
  · intro edge
    cases edge with
    | direct none =>
      subst none
      exact .inr ⟨rfl, rfl⟩
    | leave last =>
      subst last
      exact .inr ⟨rfl, rfl⟩
    | enter lt => exact .inl ⟨.enter lt, ChainStop.noConfusion⟩
    | ahead lt => exact .inl ⟨.ahead lt, ChainStop.noConfusion⟩
    | back lt => exact .inl ⟨.back lt, ChainStop.noConfusion⟩
  · rintro (⟨edge, -⟩ | ⟨rfl, rfl⟩)
    · exact edge
    · cases wires with
      | zero => exact .direct rfl
      | succ j => exact .leave rfl

/-- One more wire is joined to the last one, or led to from the head. -/
theorem drives_succ_iff {wires : Nat} {x y : ChainStop} : Drives (wires + 1) x y ∧ y ≠ tail ↔
    (Drives wires x y ∧ y ≠ tail) ∨ x = last wires ∧ y = wire wires ∨
      0 < wires ∧ x = wire wires ∧ y = last wires := by
  constructor
  · rintro ⟨edge, inner⟩
    cases edge with
    | direct none => exact absurd none (Nat.succ_ne_zero _)
    | leave _ => exact absurd rfl inner
    | enter _ =>
      -- the first wire, which is the new one if there was none before
      rcases Nat.eq_zero_or_pos wires with rfl | pos
      · exact .inr (.inl ⟨rfl, rfl⟩)
      · exact .inl ⟨.enter pos, inner⟩
    | @ahead j lt =>
      -- an edge between wires is new when one of them is
      rcases Nat.lt_or_eq_of_le (Nat.le_of_lt_succ lt) with before | rfl
      · exact .inl ⟨.ahead before, inner⟩
      · exact .inr (.inl ⟨rfl, rfl⟩)
    | @back j lt =>
      rcases Nat.lt_or_eq_of_le (Nat.le_of_lt_succ lt) with before | rfl
      · exact .inl ⟨.back before, inner⟩
      · exact .inr (.inr ⟨Nat.succ_pos j, rfl, rfl⟩)
  · rintro (⟨edge, inner⟩ | ⟨rfl, rfl⟩ | ⟨pos, rfl, rfl⟩)
    · refine ⟨?_, inner⟩
      cases edge with
      | direct _ | leave _ => exact absurd rfl inner
      | enter lt => exact .enter (Nat.lt_succ_of_lt lt)
      | ahead lt => exact .ahead (Nat.lt_succ_of_lt lt)
      | back lt => exact .back (Nat.lt_succ_of_lt lt)
    · cases wires with
      | zero => exact ⟨.enter Nat.one_pos, ChainStop.noConfusion⟩
      | succ j => exact ⟨.ahead (Nat.lt_succ_self _), ChainStop.noConfusion⟩
    · cases wires with
      | zero => exact absurd pos (Nat.lt_irrefl 0)
      | succ j => exact ⟨.back (Nat.lt_succ_self _), ChainStop.noConfusion⟩

end ChainStop

/-- **A place in the diagram of a nested circuit.** -/
inductive Spot
  | circuit
  /-- A place in the chain on a side. -/
  | chain (side : Side) (stop : ChainStop)
  deriving DecidableEq

namespace Spot

variable (t : TruthTable) (length : Side → Nat)

/-- **What is where**, with chains of the given lengths around the circuit of a table. -/
inductive Is : Spot → Part → Prop
  | circuit : Is circuit (.circuit t)
  | input {s : Side} : s ∈ t.inputs → Is (chain s .head) (.input (s.absolute .north))
  | circuitInput {s : Side} : s ∈ t.inputs → Is (chain s .tail) (.circuitInput s)
  | circuitOutput {s : Side} : s ∈ t.outputs → Is (chain s .head) (.circuitOutput s)
  | output {s : Side} : s ∈ t.outputs → Is (chain s .tail) (.output (s.absolute .north))
  | wire {s : Side} {j : Nat} : s ∈ t.sides → j < length s → Is (chain s (.wire j)) .wire

/-- **What drives what**: the chains lead along, and the circuit stands between the chains. -/
inductive Drives : Spot → Spot → Prop
  | along {s : Side} {x y : ChainStop} : s ∈ t.sides → ChainStop.Drives (length s) x y →
    Drives (chain s x) (chain s y)
  | into {s : Side} : s ∈ t.inputs → Drives (chain s .tail) circuit
  | out {s : Side} : s ∈ t.outputs → Drives circuit (chain s .head)

variable {t length} {a b : Spot} {s : Side} {p q : Part}

/-- The ends of a chain are something. -/
theorem exists_is_head (used : s ∈ t.sides) : ∃ p, Is t length (chain s .head) p :=
  (List.mem_append.1 used).elim (fun input => ⟨_, .input input⟩)
    fun output => ⟨_, .circuitOutput output⟩

theorem exists_is_tail (used : s ∈ t.sides) : ∃ p, Is t length (chain s .tail) p :=
  (List.mem_append.1 used).elim (fun input => ⟨_, .circuitInput input⟩)
    fun output => ⟨_, .output output⟩

theorem exists_is_of_drives (edge : Drives t length a b) :
    (∃ p, Is t length a p) ∧ ∃ p, Is t length b p := by
  cases edge with
  | along used edge =>
    -- The wires of a side that is used all stand.
    have wire {s : Side} {j : Nat} (used : s ∈ t.sides) (lt : j < length s) :
        ∃ p, Is t length (chain s (.wire j)) p := ⟨_, .wire used lt⟩
    cases edge with
    | direct none => exact ⟨exists_is_head used, exists_is_tail used⟩
    | enter some => exact ⟨exists_is_head used, wire used some⟩
    | ahead lt => exact ⟨wire used (Nat.lt_of_succ_lt lt), wire used lt⟩
    | back lt => exact ⟨wire used lt, wire used (Nat.lt_of_succ_lt lt)⟩
    | leave last => exact ⟨wire used (Nat.lt_of_succ_le (Nat.le_of_eq last)), exists_is_tail used⟩
  | into input => exact ⟨⟨_, .circuitInput input⟩, _, .circuit⟩
  | out output => exact ⟨⟨_, .circuit⟩, _, .circuitOutput output⟩

/-- A place is one thing. -/
theorem Is.unique (hp : Is t length a p) (hq : Is t length a q) : p = q := by
  cases hp with
  | circuit | wire =>
    cases hq
    rfl
  | input input =>
    -- no side is an input and an output, so a place is one thing
    cases hq with
    | input => rfl
    | circuitOutput output => exact absurd output (t.not_mem_outputs input)
  | circuitInput input =>
    cases hq with
    | circuitInput => rfl
    | output output => exact absurd output (t.not_mem_outputs input)
  | circuitOutput output =>
    cases hq with
    | input input => exact absurd output (t.not_mem_outputs input)
    | circuitOutput => rfl
  | output output =>
    cases hq with
    | circuitInput input => exact absurd output (t.not_mem_outputs input)
    | output => rfl

/-- The place of what is no wire. -/
def place? : Part → Option Spot
  | .circuit _ => some circuit
  | .input f => some (chain (.relative .north f) .head)
  | .output f => some (chain (.relative .north f) .tail)
  | .circuitInput s => some (chain s .tail)
  | .circuitOutput s => some (chain s .head)
  | .wire | .torch => none

theorem Is.place?_eq (is : Is t length a p) (plain : p ≠ .wire) : place? p = some a := by
  cases is with
  | wire => exact absurd rfl plain
  | circuit | circuitInput | circuitOutput => rfl
  | input | output => rw [place?, Side.relative_absolute]

end Spot

namespace Diagram

open Relation Spot

variable {t : TruthTable} {length : Side → Nat} {a b : Spot} {s : Side} {k : Nat}

/-- **The diagram of a nested circuit** with a chain on each of its sides. -/
def nesting (t : TruthTable) (length : Side → Nat) : Diagram Spot where
  Is := Spot.Is t length
  Drives := Spot.Drives t length
  is_of_drives := exists_is_of_drives

/-! ### Without wires -/

/-- A run leads through all the wires of a chain. -/
theorem run_tail (used : s ∈ t.sides) :
    (nesting t length).Run (chain s .head) (length s) (chain s .tail) := by
  -- Along the wires, one by one,
  have ahead (j : Nat) (lt : j < length s) :
      (nesting t length).Run (chain s .head) j (chain s (.wire j)) := by
    induction j with
    | zero => exact .edge (.along used (.enter lt))
    | succ j ih =>
      have before := Nat.lt_of_succ_lt lt
      exact .through (ih before) (.wire used before) (.along used (.ahead lt))
  -- and over the last one, if there are any.
  rcases Nat.eq_zero_or_eq_succ_pred (length s) with none | some
  · rw [none]
    exact .edge (.along used (.direct none))
  · have last : (length s).pred < length s := by omega
    rw [some]
    exact .through (ahead _ last) (.wire used last) (.along used (.leave some.symm))

/-- **What drives what without the wires**: the ends of a chain that is short enough are joined. -/
inductive NestingCrosses (t : TruthTable) (length : Side → Nat) : Spot → Spot → Prop
  | along {s : Side} : s ∈ t.sides → length s ≤ Netlist.maxWireRun →
    NestingCrosses t length (chain s .head) (chain s .tail)
  | into {s : Side} : s ∈ t.inputs → NestingCrosses t length (chain s .tail) circuit
  | out {s : Side} : s ∈ t.outputs → NestingCrosses t length circuit (chain s .head)

theorem kept_head (used : s ∈ t.sides) : (nesting t length).Kept (chain s .head) := by
  obtain ⟨p, is⟩ := exists_is_head used
  exact ⟨p, is, fun wire => by rw [wire] at is; cases is⟩

theorem kept_tail (used : s ∈ t.sides) : (nesting t length).Kept (chain s .tail) := by
  obtain ⟨p, is⟩ := exists_is_tail used
  exact ⟨p, is, fun wire => by rw [wire] at is; cases is⟩

theorem kept_circuit : (nesting t length).Kept circuit := ⟨_, .circuit, Part.noConfusion⟩

theorem not_kept_wire {j : Nat} : ¬ (nesting t length).Kept (chain s (.wire j)) := by
  rintro ⟨p, is, plain⟩
  cases is
  exact plain rfl

/-- **A run of few wires leads along a chain**, from its head to a wire or to the end, or it is an
edge between the circuit and a chain. -/
theorem crosses_or_wire_of_run (run : (nesting t length).Run a k b) (few : k ≤ Netlist.maxWireRun)
    (kept : (nesting t length).Kept a) :
    NestingCrosses t length a b ∨
      ∃ s ∈ t.sides, ∃ j ≤ k, a = chain s .head ∧ b = chain s (.wire j) := by
  -- A run that has not crossed yet is on the chain of one side, as far along as it has wires.
  induction run with
  | edge edge =>
    cases edge with
    | along used edge =>
      cases edge with
      | direct none => exact .inl (.along used (none ▸ Nat.zero_le _))
      | enter _ => exact .inr ⟨_, used, 0, Nat.le_refl 0, rfl, rfl⟩
      | ahead _ | back _ | leave _ => exact absurd kept not_kept_wire
    | into input => exact .inl (.into input)
    | out output => exact .inl (.out output)
  | through _ wire edge ih =>
    rcases ih (Nat.le_of_succ_le few) with crosses | ⟨s, used, j, le, rfl, rfl⟩
    -- What was reached without the wires is none.
    · cases crosses <;> cases wire
    · -- from a wire, one wire on, one wire back or over to the tail
      cases edge with
      | along _ edge =>
        cases edge with
        | ahead _ => exact .inr ⟨s, used, _, Nat.succ_le_succ le, rfl, rfl⟩
        | back _ => exact .inr ⟨s, used, _, by omega, rfl, rfl⟩
        | leave last => exact .inl (.along used (by omega))

theorem nesting_reduced_drives_iff :
    (nesting t length).reduced.Drives a b ↔ NestingCrosses t length a b := by
  constructor
  · -- a run that ends on a wire ends on nothing that is kept
    rintro ⟨⟨k, few, run⟩, kept, kept'⟩
    refine (crosses_or_wire_of_run run few kept).resolve_right ?_
    rintro ⟨s, -, j, -, -, rfl⟩
    exact not_kept_wire kept'
  · -- each way across is a run
    intro crosses
    cases crosses with
    | along used short => exact ⟨⟨_, short, run_tail used⟩, kept_head used, kept_tail used⟩
    | into input =>
      have used := List.mem_append_left t.outputs input
      exact ⟨⟨0, Nat.zero_le _, .edge (.into input)⟩, kept_tail used, kept_circuit⟩
    | out output =>
      have used := List.mem_append_right t.inputs output
      exact ⟨⟨0, Nat.zero_le _, .edge (.out output)⟩, kept_circuit, kept_head used⟩

/-- A place is one thing. -/
theorem nesting_reduced_is_iff (is : Spot.Is t length a p) (plain : p ≠ .wire) (q : Part) :
    (nesting t length).reduced.Is a q ↔ q = p :=
  ⟨fun other => other.1.unique is, fun eq => eq ▸ ⟨is, plain⟩⟩

theorem nesting_reduced_drives_tail_iff (used : s ∈ t.sides) :
    (nesting t length).reduced.Drives a (chain s .tail) ↔
      a = chain s .head ∧ length s ≤ Netlist.maxWireRun := by
  rw [nesting_reduced_drives_iff]
  constructor
  · intro crosses
    cases crosses with
    | along _ short => exact ⟨rfl, short⟩
  · rintro ⟨rfl, short⟩
    exact .along used short

theorem nesting_reduced_drives_head_iff (output : s ∈ t.outputs) :
    (nesting t length).reduced.Drives a (chain s .head) ↔ a = circuit := by
  rw [nesting_reduced_drives_iff]
  constructor
  · intro crosses
    cases crosses
    rfl
  · rintro rfl
    exact .out output

/-! ### What it does -/

/-- How far along a place is, which grows along every edge. -/
def depth (t : TruthTable) : Spot → Nat
  | circuit => 2
  | chain s stop => (if s ∈ t.inputs then 0 else 3) + if stop = .head then 0 else 1

theorem depth_lt (crosses : NestingCrosses t length a b) : depth t a < depth t b := by
  cases crosses with
  | along _ _ => exact Nat.lt_succ_self _
  | into input =>
    simp only [depth, if_pos input]
    decide
  | out output =>
    simp only [depth, if_neg (t.not_mem_inputs output)]
    decide

/-- **Nothing feeds back.** -/
theorem founded_nesting (t : TruthTable) (length : Side → Nat) :
    (nesting t length).reduced.Founded := by
  intro o f _
  refine Subrelation.accessible (r := InvImage (· < ·) (depth t)) ?_ (InvImage.accessible _ ?_)
  · exact fun edge => depth_lt (nesting_reduced_drives_iff.1 edge)
  · exact Nat.lt_wfRel.wf.apply _

/-- A side is not heard if its chain is too long. -/
def tooLong (length : Side → Nat) (s : Side) : Bool := Netlist.maxWireRun < length s

/-- **The steady state**: the chains of inputs carry what is given as far as they go, and those of
outputs what the table makes of it. -/
def nestingState (t : TruthTable) (length : Side → Nat) (signals : Signals) : Spot → Prop
  | circuit => False
  | chain s stop =>
    if s ∈ t.inputs then signals.get s = true ∧ (stop = .tail → tooLong length s = false)
    else (t.apply (signals.muted (tooLong length))).get s = true

section State

variable {signals : Signals} {stop : ChainStop}

theorem nestingState_input (input : s ∈ t.inputs) : nestingState t length signals (chain s stop) ↔
    signals.get s = true ∧ (stop = .tail → tooLong length s = false) := by
  rw [nestingState, if_pos input]

theorem nestingState_output (output : s ∈ t.outputs) :
    nestingState t length signals (chain s stop) ↔
    (t.apply (signals.muted (tooLong length))).get s = true := by
  rw [nestingState, if_neg (t.not_mem_inputs output)]

/-- What arrives at the circuit: nothing from a chain that is too long, nor where there is no input.
-/
def arriving (t : TruthTable) (length : Side → Nat) (signals : Signals) : Signals :=
  .ofFn fun side => decide (side ∈ t.inputs) && (signals.muted (tooLong length)).get side

theorem get_arriving_iff {side : Side} : (arriving t length signals).get side = true ↔
    ∃ m, (nesting t length).reduced.Is m (.circuitInput side) ∧
      (nesting t length).reduced.Drives m circuit ∧ nestingState t length signals m := by
  simp only [arriving, Signals.get_ofFn, Signals.get_muted, Bool.and_eq_true, decide_eq_true_eq,
    Bool.not_eq_true']
  constructor
  · -- what arrives on a side is on the tail of its chain
    rintro ⟨input, given, heard⟩
    exact ⟨chain side .tail, ⟨.circuitInput input, Part.noConfusion⟩,
      nesting_reduced_drives_iff.2 (.into input),
      (nestingState_input input).2 ⟨given, fun _ => heard⟩⟩
  · rintro ⟨m, ⟨is, -⟩, -, on⟩
    cases is with
    | circuitInput input =>
      obtain ⟨given, heard⟩ := (nestingState_input input).1 on
      exact ⟨input, given, heard rfl⟩

theorem apply_arriving (t : TruthTable) (length : Side → Nat) (signals : Signals) :
    t.apply (arriving t length signals) = t.apply (signals.muted (tooLong length)) := by
  refine TruthTable.apply_congr fun side input => ?_
  rw [arriving, Signals.get_ofFn, decide_eq_true input, Bool.true_and]

theorem steady_nestingState (short : ∀ s ∈ t.outputs, length s ≤ Netlist.maxWireRun) :
    (nesting t length).reduced.Steady (fun f => signals.get (.relative .north f) = true)
      (nestingState t length signals) := by
  intro n observed
  obtain ⟨p, is, plain⟩ := observed.stands
  have only := nesting_reduced_is_iff is plain
  cases is with
  | wire => exact absurd rfl plain
  | circuit => exact iff_of_false id (not_demands_circuit only)
  | @input s input =>
    rw [demands_input_iff only, nestingState_input input, Side.relative_absolute]
    exact and_iff_left ChainStop.noConfusion
  | @circuitInput s input =>
    have driver {m : Spot} : (nesting t length).reduced.Drives m (chain s .tail) ↔
        m = chain s .head ∧ length s ≤ Netlist.maxWireRun :=
      nesting_reduced_drives_tail_iff (List.mem_append_left t.outputs input)
    rw [demands_circuitInput_iff only, nestingState_input input]
    constructor
    · -- the chain is not too long, so its head drives the side
      rintro ⟨given, heard⟩
      have few : length s ≤ Netlist.maxWireRun := Nat.le_of_not_lt (of_decide_eq_false (heard rfl))
      exact ⟨_, driver.2 ⟨rfl, few⟩, (nestingState_input input).2 ⟨given, ChainStop.noConfusion⟩⟩
    · rintro ⟨m, edge, on⟩
      obtain ⟨rfl, few⟩ := driver.1 edge
      exact ⟨((nestingState_input input).1 on).1, fun _ => decide_eq_false (Nat.not_lt.2 few)⟩
  | @circuitOutput s output =>
    -- The diagram leaves no choice of what arrives.
    rw [nestingState_output output, ← apply_arriving]
    exact (demands_circuitOutput_iff only (fun _ => nesting_reduced_drives_head_iff output)
      (nesting_reduced_is_iff .circuit Part.noConfusion) fun _ => get_arriving_iff).symm
  | @output s output =>
    have driver {m : Spot} : (nesting t length).reduced.Drives m (chain s .tail) ↔
        m = chain s .head ∧ length s ≤ Netlist.maxWireRun :=
      nesting_reduced_drives_tail_iff (List.mem_append_right t.inputs output)
    rw [demands_output_iff only, nestingState_output output]
    constructor
    · -- an output chain is never too long
      intro on
      exact ⟨_, driver.2 ⟨rfl, short s output⟩, (nestingState_output output).2 on⟩
    · rintro ⟨m, edge, on⟩
      obtain ⟨rfl, -⟩ := driver.1 edge
      exact (nestingState_output output).1 on

/-- **The diagram does what the table does**, but for the inputs whose chains are too long, if the
chains of the outputs are not. -/
theorem computes_nesting (short : ∀ s ∈ t.outputs, length s ≤ Netlist.maxWireRun) :
    (nesting t length).reduced.Computes (t.muted (tooLong length)) := by
  intro signals
  refine ⟨_, steady_nestingState short, fun side => ?_⟩
  rw [TruthTable.apply_muted]
  constructor
  · -- a side that gives something is an output
    intro on
    have output : side ∈ t.outputs := by
      by_contra other
      rw [TruthTable.get_apply_of_not_mem _ other] at on
      cases on
    exact ⟨chain side .tail, _, ⟨.output output, Part.noConfusion⟩,
      (Side.relative_absolute _ _).symm, (nestingState_output output).2 on⟩
  · rintro ⟨n, f, ⟨is, -⟩, rfl, on⟩
    cases is with
    | output output =>
      rw [Side.relative_absolute]
      exact (nestingState_output output).1 on

end State

end Diagram

end TorchLogic
