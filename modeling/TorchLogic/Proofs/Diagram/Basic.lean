import Mathlib.Logic.Relation
import TorchLogic.Netlist.Reduce

/-!
# Circuit diagrams

A diagram says what the nodes of a circuit are and which of them drive which, and nothing else: no
numbers, no order, and any type of nodes. A netlist is drawn by one diagram and the circuit on a
board by another, and what the circuit does is said of the diagram.

In a steady state of a diagram, every node on which an output depends is on exactly if its drivers
demand it (`Diagram.Demands`, `Diagram.Steady`). If nothing feeds back to an output
(`Diagram.Founded`), there is at most one steady state for given inputs (`Diagram.Steady.on_iff`),
so a table that goes by steady states (`Diagram.Computes`) is determined by what it computes
(`Diagram.Computes.apply_eq`).

A steady state is one of the diagram without wires (`Diagram.reduced`), in which a node drives
another if a run of few enough wires leads there.
-/

namespace TorchLogic

open Relation

/-- **What a node of a circuit is.** Which nested circuit a side belongs to is told by the edges. -/
inductive Part
  | input (f : Facing)
  | output (f : Facing)
  | wire
  | torch
  | circuit (t : TruthTable)
  | circuitInput (side : Side)
  | circuitOutput (side : Side)

/-- **A circuit diagram.** -/
structure Diagram (N : Type) where
  /-- What a node is. -/
  Is : N → Part → Prop
  /-- Whether a node drives another. -/
  Drives : N → N → Prop
  /-- Edges lead between nodes that are something. -/
  is_of_drives : ∀ {a b : N}, Drives a b → (∃ p, Is a p) ∧ ∃ p, Is b p

namespace Diagram

variable {N : Type} {d : Diagram N} {given : Facing → Prop} {on on' : N → Prop} {a b m n : N}

/-- Whether a node is anything. -/
def Stands (d : Diagram N) (n : N) : Prop := ∃ p, d.Is n p

/-- **Whether an output depends on a node.** -/
def Observed (d : Diagram N) (n : N) : Prop :=
  ∃ o f, d.Is o (.output f) ∧ ReflTransGen d.Drives n o

/-- **Whether nothing feeds back to an output**, nor leads to it without end. -/
def Founded (d : Diagram N) : Prop := ∀ o f, d.Is o (.output f) → Acc d.Drives o

theorem Observed.of_drives (h : d.Observed n) (edge : d.Drives m n) : d.Observed m := by
  obtain ⟨o, f, output, path⟩ := h
  exact ⟨o, f, output, .head edge path⟩

theorem Observed.of_transGen (h : d.Observed n) (path : TransGen d.Drives m n) : d.Observed m := by
  induction path using TransGen.head_induction_on with
  | single edge => exact h.of_drives edge
  | head edge _ ih => exact ih.of_drives edge

theorem Observed.stands (h : d.Observed n) : d.Stands n := by
  obtain ⟨o, f, output, path⟩ := h
  rcases path.cases_head with rfl | ⟨next, edge, -⟩
  · exact ⟨_, output⟩
  · exact (d.is_of_drives edge).1

theorem Founded.acc (h : d.Founded) (observed : d.Observed n) : Acc d.Drives n := by
  obtain ⟨o, f, output, path⟩ := observed
  induction path using ReflTransGen.head_induction_on with
  | refl => exact h o f output
  | head edge _ ih => exact ih.inv edge

/-! ### Steady states -/

/-- **Whether a node must be on**, for given inputs and with its drivers in a given state. An input
follows what is given, an output and an input of a nested circuit are on with any of their drivers,
a torch is on with none of them, and an output of a nested circuit follows the table. -/
inductive Demands (d : Diagram N) (given : Facing → Prop) (on : N → Prop) (n : N) : Prop
  | input {f : Facing} : d.Is n (.input f) → given f → Demands d given on n
  | output {f : Facing} {m : N} : d.Is n (.output f) → d.Drives m n → on m → Demands d given on n
  | circuitInput {side : Side} {m : N} : d.Is n (.circuitInput side) → d.Drives m n → on m →
    Demands d given on n
  | torch : d.Is n .torch → (∀ m, d.Drives m n → ¬ on m) → Demands d given on n
  | circuitOutput {c : N} {t : TruthTable} {side : Side} {signals : Signals} :
    d.Is n (.circuitOutput side) → d.Drives c n → d.Is c (.circuit t) →
    (∀ s, signals.get s = true ↔ ∃ m, d.Is m (.circuitInput s) ∧ d.Drives m c ∧ on m) →
    (t.apply signals).get side = true → Demands d given on n

section Parts

variable {f : Facing} {side : Side} {c : N} {t : TruthTable} {signals : Signals}

theorem demands_input_iff (is : ∀ p, d.Is n p ↔ p = .input f) :
    d.Demands given on n ↔ given f := by
  constructor
  · intro demand
    cases demand with
    | input is' yes =>
      obtain rfl := Part.input.inj ((is _).1 is')
      exact yes
    | output is' | circuitInput is' | torch is' | circuitOutput is' => cases (is _).1 is'
  · exact .input ((is _).2 rfl)

theorem demands_output_iff (is : ∀ p, d.Is n p ↔ p = .output f) :
    d.Demands given on n ↔ ∃ m, d.Drives m n ∧ on m := by
  constructor
  · intro demand
    cases demand with
    | output _ edge yes => exact ⟨_, edge, yes⟩
    | input is' | circuitInput is' | torch is' | circuitOutput is' => cases (is _).1 is'
  · rintro ⟨m, edge, yes⟩
    exact .output ((is _).2 rfl) edge yes

theorem demands_circuitInput_iff (is : ∀ p, d.Is n p ↔ p = .circuitInput side) :
    d.Demands given on n ↔ ∃ m, d.Drives m n ∧ on m := by
  constructor
  · intro demand
    cases demand with
    | circuitInput _ edge yes => exact ⟨_, edge, yes⟩
    | input is' | output is' | torch is' | circuitOutput is' => cases (is _).1 is'
  · rintro ⟨m, edge, yes⟩
    exact .circuitInput ((is _).2 rfl) edge yes

theorem demands_torch_iff (is : ∀ p, d.Is n p ↔ p = .torch) :
    d.Demands given on n ↔ ∀ m, d.Drives m n → ¬ on m := by
  constructor
  · intro demand
    cases demand with
    | torch _ no => exact no
    | input is' | output is' | circuitInput is' | circuitOutput is' => cases (is _).1 is'
  · exact .torch ((is _).2 rfl)

/-- The circuit and the signals that it gets are known, so its output is. -/
theorem demands_circuitOutput_iff (is : ∀ p, d.Is n p ↔ p = .circuitOutput side)
    (driver : ∀ m, d.Drives m n ↔ m = c) (circuit : ∀ p, d.Is c p ↔ p = .circuit t)
    (states : ∀ s, signals.get s = true ↔ ∃ m, d.Is m (.circuitInput s) ∧ d.Drives m c ∧ on m) :
    d.Demands given on n ↔ (t.apply signals).get side = true := by
  constructor
  · intro demand
    cases demand with
    | circuitOutput is' edge circuit' states' yes =>
      obtain rfl := Part.circuitOutput.inj ((is _).1 is')
      obtain rfl := (driver _).1 edge
      obtain rfl := Part.circuit.inj ((circuit _).1 circuit')
      rwa [Signals.ext_get fun s => Bool.eq_iff_iff.2 ((states s).trans (states' s).symm)]
    | input is' | output is' | circuitInput is' | torch is' => cases (is _).1 is'
  · exact .circuitOutput ((is _).2 rfl) ((driver _).2 rfl) ((circuit _).2 rfl) states

/-- Nothing is demanded of a nested circuit itself. -/
theorem not_demands_circuit (is : ∀ p, d.Is n p ↔ p = .circuit t) : ¬ d.Demands given on n := by
  intro demand
  cases demand with
  | input is' | output is' | circuitInput is' | torch is' | circuitOutput is' =>
    cases (is _).1 is'

end Parts

/-- **A steady state**: every node on which an output depends is on exactly if it must be. -/
def Steady (d : Diagram N) (given : Facing → Prop) (on : N → Prop) : Prop :=
  ∀ n, d.Observed n → (on n ↔ d.Demands given on n)

/-- **Whether a table computes what a diagram does**: for all signals there is a steady state in
which exactly those outputs are on that the table turns on. -/
def Computes (d : Diagram N) (t : TruthTable) : Prop :=
  ∀ signals : Signals, ∃ on : N → Prop,
    d.Steady (fun f => signals.get (.relative .north f) = true) on ∧
    ∀ side, (t.apply signals).get side = true ↔
      ∃ n f, d.Is n (.output f) ∧ side = .relative .north f ∧ on n

/-- What is demanded of a node depends on nothing but what leads to it. -/
theorem Demands.congr (h : d.Demands given on n)
    (same : ∀ m, TransGen d.Drives m n → (on m ↔ on' m)) : d.Demands given on' n := by
  cases h with
  | input is yes => exact .input is yes
  | output is edge yes => exact .output is edge ((same _ (.single edge)).1 yes)
  | circuitInput is edge yes => exact .circuitInput is edge ((same _ (.single edge)).1 yes)
  -- a torch reads what drives it, as any other part does
  | torch is no => exact .torch is fun m edge yes => no m edge ((same m (.single edge)).2 yes)
  | circuitOutput is edge circuit states yes =>
    -- The input sides lead to the output through the circuit.
    refine .circuitOutput is edge circuit (fun s => ?_) yes
    rw [states]
    refine exists_congr fun m => and_congr_right fun _ => and_congr_right fun edge' => ?_
    exact same m (.tail (.single edge') edge)

/-- **There is at most one steady state** where nothing feeds back. -/
theorem Steady.on_iff (founded : d.Founded) (h : d.Steady given on) (h' : d.Steady given on')
    (observed : d.Observed n) : on n ↔ on' n := by
  -- Not only drivers are asked, so the induction is along all that leads to a node.
  have acc : Acc (TransGen d.Drives) n := (founded.acc observed).transGen
  induction acc with
  | intro n _ ih =>
    have same (m : N) (path : TransGen d.Drives m n) : on m ↔ on' m :=
      ih m path (observed.of_transGen path)
    rw [h n observed, h' n observed]
    exact ⟨fun demand => demand.congr same,
      fun demand => demand.congr fun m path => (same m path).symm⟩

/-- More is not needed to be steady than that the inputs are given alike. -/
theorem Steady.congr {given' : Facing → Prop} (h : d.Steady given on)
    (same : ∀ f, given f ↔ given' f) : d.Steady given' on := by
  have eq : given = given' := funext fun f => propext (same f)
  rwa [← eq]

/-- **Tables that compute what one diagram does** do the same. -/
theorem Computes.apply_eq (founded : d.Founded) {t u : TruthTable} (ht : d.Computes t)
    (hu : d.Computes u) (signals : Signals) : t.apply signals = u.apply signals := by
  obtain ⟨on, steady, outputs⟩ := ht signals
  obtain ⟨on', steady', outputs'⟩ := hu signals
  refine Signals.ext_get fun side => ?_
  rw [Bool.eq_iff_iff, outputs, outputs']
  refine exists_congr fun n => exists_congr fun f => and_congr_right fun output =>
    and_congr_right fun _ => ?_
  exact steady.on_iff founded steady' ⟨n, f, output, .refl⟩

/-! ### Runs of wires -/

/-- **A run of wires** from a node to another, with the number of wires in between. -/
inductive Run (d : Diagram N) (a : N) : Nat → N → Prop
  | edge {b : N} : d.Drives a b → Run d a 0 b
  | through {k : Nat} {m b : N} : Run d a k m → d.Is m .wire → d.Drives m b → Run d a (k + 1) b

theorem Run.stands {k : Nat} (h : d.Run a k b) : d.Stands a ∧ d.Stands b := by
  induction h with
  | edge edge => exact d.is_of_drives edge
  | through _ _ edge ih => exact ⟨ih.1, (d.is_of_drives edge).2⟩

/-- Whether a node stays when the wires go. -/
def Kept (d : Diagram N) (n : N) : Prop := ∃ p, d.Is n p ∧ p ≠ .wire

/-- **The diagram without wires**: a node drives another if it did, or if a run of few enough wires
leads from one to the other. -/
def reduced (d : Diagram N) : Diagram N where
  Is n p := d.Is n p ∧ p ≠ .wire
  Drives a b := (∃ k ≤ Netlist.maxWireRun, d.Run a k b) ∧ d.Kept a ∧ d.Kept b
  is_of_drives h := h.2

end Diagram

end TorchLogic
