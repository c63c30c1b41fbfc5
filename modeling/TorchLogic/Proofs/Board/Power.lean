import Mathlib.Logic.Relation
import TorchLogic.Board.Trace

/-!
# What powers what

The rules by which the components on a board power one another, said of the world alone and without
regard to the order in which a circuit is traced.

A terminal is what can power or be powered: a socket, a wire, a torch, a nested circuit, or a side
of a nested circuit. `Board.Powers` is the relation between the terminals on a board. A component
powers its neighbours directly, and it powers full blocks, which pass the power on. A full block is
powered strongly by a torch below it and by a nested circuit beside it (`Board.StrongPower`); a wire
on top of it or pointing at it powers it too, but too weakly for a wire to take the power up again
(`Board.AnyPower`). Nothing outside the area of the board powers anything on it.

A terminal matters to a board if an output socket depends on it (`Board.Traced`). The circuit on the
board consists of these, of all input sockets, and of every output side of a nested circuit that
matters (`Board.Present`).
-/

namespace TorchLogic

/-- **What can power or be powered.** -/
inductive Terminal
  /-- The input socket of a side. -/
  | input (f : Facing)
  /-- The output socket of a side. -/
  | output (f : Facing)
  | wire (p : Position)
  | torch (p : Position)
  /-- A nested circuit. -/
  | circuit (p : Position)
  /-- An input side of a nested circuit. -/
  | circuitInput (p : Position) (side : Side)
  /-- An output side of a nested circuit. -/
  | circuitOutput (p : Position) (side : Side)
  deriving DecidableEq

/-- Whether a terminal powers what is near it: a wire, a torch and an output side of a nested
circuit do. -/
def Terminal.isSource : Terminal → Bool
  | wire _ | torch _ | circuitOutput _ _ => true
  | _ => false

theorem Terminal.ne_input_of_isSource {t : Terminal} {f : Facing} (h : t.isSource = true) :
    t ≠ .input f := by
  rintro rfl
  cases h

/-- **How two wires join**: side by side on one level, or one of them a step up and across, where
the block above the lower one does not conduct. -/
inductive World.Joined (w : World) : Position → Position → Prop
  | level (p : Position) (f : Facing) : w.Joined p (p.toward f)
  | up (p : Position) (f : Facing) : (w.block p.above).conducts = false →
    w.Joined p (p.above.toward f)
  | down (p : Position) (f : Facing) : (w.block p.above).conducts = false →
    w.Joined (p.above.toward f) p

namespace Board

section Components

variable (b : Board) (w : World)

/-- **Whether a wire stands at a position** of the area. -/
def WireAt (p : Position) : Prop := b.covers p = true ∧ w.block p = .wire

/-- **Whether a torch stands or hangs at a position** of the area. -/
def TorchAt (p : Position) : Prop := b.covers p = true ∧ (w.block p).isTorch = true

/-- **Whether a nested circuit stands at a position** of the area, with its facing and its table. -/
def CircuitAt (p : Position) (facing : Facing) (t : TruthTable) : Prop :=
  b.covers p = true ∧ w.block p = .circuit facing ∧ w.table? p = some t

/-- **Whether a full block stands at a position** of the area. -/
def FullAt (q : Position) : Prop := b.covers q = true ∧ (w.block q).conducts = true

/-- Whether a nested circuit has an output on the side that looks a given way. -/
def OutputAt (p : Position) (looking : Facing) (side : Side) : Prop :=
  ∃ facing t, b.CircuitAt w p facing t ∧ side ∈ t.outputs ∧ side.absolute facing = looking

end Components

section Power

variable (b : Board) (w : World)

/-- **What powers the full block at a position strongly.** -/
inductive StrongPower (q : Position) : Terminal → Prop
  /-- A torch below it. -/
  | torch : b.TorchAt w q.below → StrongPower q (.torch q.below)
  /-- A nested circuit beside it, by an output that looks at it. -/
  | circuit {f : Facing} {side : Side} : b.OutputAt w (q.toward f) f.opposite side →
    StrongPower q (.circuitOutput (q.toward f) side)

/-- **What powers the full block at a position**, strongly or weakly. -/
inductive AnyPower (q : Position) : Terminal → Prop
  | strong {s : Terminal} : b.StrongPower w q s → AnyPower q s
  /-- A wire on top of it. -/
  | wireOnTop : b.WireAt w q.above → AnyPower q (.wire q.above)
  /-- A wire beside it that points at it. -/
  | wireBeside {f : Facing} : b.WireAt w (q.toward f) →
    w.wirePoints (q.toward f) f.opposite = true → AnyPower q (.wire (q.toward f))

/-- **What powers the neighbour that a way leads to**, from a position, other than a wire. -/
inductive Emits (q : Position) (looking : Facing) : Terminal → Prop
  | torch : b.TorchAt w q → Emits q looking (.torch q)
  | circuit {side : Side} : b.OutputAt w q looking side → Emits q looking (.circuitOutput q side)

/-- **What powers what** on a board. -/
inductive Powers : Terminal → Terminal → Prop
  /-- A wire on a block of an output socket powers the socket. -/
  | output {f : Facing} {p : Position} : b.role f = .output → p.below ∈ socketBlocks b.corner f →
    b.WireAt w p → Powers (.wire p) (.output f)
  /-- An input socket powers the wires on its blocks. -/
  | input {f : Facing} {p : Position} : b.role f = .input → p.below ∈ socketBlocks b.corner f →
    b.WireAt w p → Powers (.input f) (.wire p)
  /-- Wires that join power each other. -/
  | wires {p q : Position} : b.WireAt w p → b.WireAt w q → w.Joined p q →
    Powers (.wire p) (.wire q)
  /-- A torch powers a wire below it. -/
  | torchAbove {p : Position} : b.WireAt w p → b.TorchAt w p.above →
    Powers (.torch p.above) (.wire p)
  /-- A torch or a nested circuit powers a wire beside it. -/
  | wireBeside {p : Position} {f : Facing} {s : Terminal} : b.WireAt w p →
    b.Emits w (p.toward f) f.opposite s → Powers s (.wire p)
  /-- A full block on any side of a wire passes strong power on to it. -/
  | wireThrough {p : Position} {d : Direction} {s : Terminal} : b.WireAt w p →
    b.FullAt w (p.step d) → b.StrongPower w (p.step d) s → Powers s (.wire p)
  /-- A torch takes the power of its full block, to be off. -/
  | torch {p : Position} {s : Terminal} : b.TorchAt w p → b.FullAt w (torchSupport w p) →
    b.AnyPower w (torchSupport w p) s → Powers s (.torch p)
  /-- An input side of a nested circuit takes the power of a full block that it looks at. -/
  | circuitThrough {p : Position} {facing : Facing} {t : TruthTable} {side : Side} {s : Terminal} :
    b.CircuitAt w p facing t → side ∈ t.inputs → b.FullAt w (p.toward (side.absolute facing)) →
    b.AnyPower w (p.toward (side.absolute facing)) s → Powers s (.circuitInput p side)
  /-- A wire powers an input side of a nested circuit that looks at it. -/
  | circuitWire {p : Position} {facing : Facing} {t : TruthTable} {side : Side} :
    b.CircuitAt w p facing t → side ∈ t.inputs → b.WireAt w (p.toward (side.absolute facing)) →
    Powers (.wire (p.toward (side.absolute facing))) (.circuitInput p side)
  /-- So does a torch or another nested circuit. -/
  | circuitBeside {p : Position} {facing : Facing} {t : TruthTable} {side : Side} {s : Terminal} :
    b.CircuitAt w p facing t → side ∈ t.inputs →
    b.Emits w (p.toward (side.absolute facing)) (side.absolute facing).opposite s →
    Powers s (.circuitInput p side)
  /-- The input sides of a nested circuit power it. -/
  | circuitIn {p : Position} {facing : Facing} {t : TruthTable} {side : Side} :
    b.CircuitAt w p facing t → side ∈ t.inputs → Powers (.circuitInput p side) (.circuit p)
  /-- A nested circuit powers its output sides. -/
  | circuitOut {p : Position} {facing : Facing} {t : TruthTable} {side : Side} :
    b.CircuitAt w p facing t → side ∈ t.outputs → Powers (.circuit p) (.circuitOutput p side)

/-- **Whether a terminal is there**: a socket in its role, or a component in the area. -/
def Stands : Terminal → Prop
  | .input f => b.role f = .input
  | .output f => b.role f = .output
  | .wire p => b.WireAt w p
  | .torch p => b.TorchAt w p
  | .circuit p => ∃ facing t, b.CircuitAt w p facing t
  | .circuitInput p side => ∃ facing t, b.CircuitAt w p facing t ∧ side ∈ t.inputs
  | .circuitOutput p side => ∃ facing t, b.CircuitAt w p facing t ∧ side ∈ t.outputs

/-- **Whether an output socket depends on a terminal.** -/
def Traced (t : Terminal) : Prop :=
  ∃ f, b.role f = .output ∧ Relation.ReflTransGen (b.Powers w) t (.output f)

/-- **Whether a terminal belongs to the circuit on a board.** -/
inductive Present : Terminal → Prop
  | traced {t : Terminal} : b.Traced w t → Present t
  /-- Input sockets belong to it in any case. -/
  | input {f : Facing} : b.role f = .input → Present (.input f)
  /-- So do all output sides of a nested circuit that does. -/
  | circuitOutput {p : Position} {facing : Facing} {t : TruthTable} {side : Side} :
    b.Traced w (.circuit p) → b.CircuitAt w p facing t → side ∈ t.outputs →
    Present (.circuitOutput p side)

end Power

section Rules

variable {b : Board} {w : World} {p q : Position} {f : Facing} {s t : Terminal}

theorem OutputAt.stands {side : Side} (h : b.OutputAt w p f side) :
    b.Stands w (.circuitOutput p side) := by
  obtain ⟨facing, t, stands, output, -⟩ := h
  exact ⟨facing, t, stands, output⟩

theorem StrongPower.stands (h : b.StrongPower w q s) : b.Stands w s := by
  cases h with
  | torch stands => exact stands
  | circuit output => exact output.stands

theorem AnyPower.stands (h : b.AnyPower w q s) : b.Stands w s := by
  cases h with
  | strong power => exact power.stands
  | wireOnTop stands => exact stands
  | wireBeside stands => exact stands

theorem Emits.stands (h : b.Emits w q f s) : b.Stands w s := by
  cases h with
  | torch stands => exact stands
  | circuit output => exact output.stands

theorem StrongPower.isSource (h : b.StrongPower w q s) : s.isSource = true := by
  cases h <;> rfl

theorem AnyPower.isSource (h : b.AnyPower w q s) : s.isSource = true := by
  cases h with
  | strong power => exact power.isSource
  | wireOnTop | wireBeside => rfl

theorem Emits.isSource (h : b.Emits w q f s) : s.isSource = true := by
  cases h <;> rfl

/-- **Only what is there powers or is powered.** -/
theorem Powers.stands (h : b.Powers w s t) : b.Stands w s ∧ b.Stands w t := by
  cases h with
  | output role _ wire => exact ⟨wire, role⟩
  | input role _ wire => exact ⟨role, wire⟩
  | wires wire other => exact ⟨wire, other⟩
  | torchAbove wire torch => exact ⟨torch, wire⟩
  | wireBeside wire emits => exact ⟨emits.stands, wire⟩
  | wireThrough wire _ power => exact ⟨power.stands, wire⟩
  | torch torch _ power => exact ⟨power.stands, torch⟩
  | circuitThrough circuit input _ power => exact ⟨power.stands, _, _, circuit, input⟩
  | circuitWire circuit input wire => exact ⟨wire, _, _, circuit, input⟩
  | circuitBeside circuit input emits => exact ⟨emits.stands, _, _, circuit, input⟩
  | circuitIn circuit input => exact ⟨⟨_, _, circuit, input⟩, _, _, circuit⟩
  | circuitOut circuit output => exact ⟨⟨_, _, circuit⟩, _, _, circuit, output⟩

theorem toward_opposite (p : Position) (f : Facing) : (p.toward f).toward f.opposite = p := by
  rw [Position.toward, Position.toward, ← Direction.opposite_ofFacing, Position.step_step_opposite]

theorem joined_symm (h : w.Joined p q) : w.Joined q p := by
  cases h with
  | level p f =>
    have back := World.Joined.level (w := w) (p.toward f) f.opposite
    rwa [toward_opposite] at back
  | up p f uncovered => exact .down p f uncovered
  -- Seen from the other end, a step down is a step up over the same lower wire.
  | down _ f uncovered => exact .up q f uncovered

/-- Wires power each other exactly when they join. -/
theorem powers_wire_wire_iff :
    b.Powers w (.wire p) (.wire q) ↔ b.WireAt w p ∧ b.WireAt w q ∧ w.Joined p q := by
  refine ⟨?_, ?_⟩
  -- Nothing else that powers a wire is a wire: weak power does not go through blocks to wires.
  · intro h
    cases h with
    | wires wire other joined => exact ⟨wire, other, joined⟩
    | wireBeside _ emits => cases emits
    | wireThrough _ _ power => cases power
  · rintro ⟨wire, other, joined⟩
    exact .wires wire other joined

/-- **Wires power each other or not at all.** -/
theorem powers_wire_comm : b.Powers w (.wire p) (.wire q) ↔ b.Powers w (.wire q) (.wire p) := by
  rw [powers_wire_wire_iff, powers_wire_wire_iff]
  refine ⟨?_, ?_⟩
  · rintro ⟨wire, other, joined⟩
    exact ⟨other, wire, joined_symm joined⟩
  · rintro ⟨wire, other, joined⟩
    exact ⟨other, wire, joined_symm joined⟩

theorem not_powers_input : ¬ b.Powers w s (.input f) := by
  intro h
  cases h

/-- An input socket powers the wires on its blocks, and nothing else. -/
theorem powers_input_iff : b.Powers w (.input f) t ↔
    ∃ p, t = .wire p ∧ b.role f = .input ∧ p.below ∈ socketBlocks b.corner f ∧ b.WireAt w p := by
  refine ⟨fun h => ?_, ?_⟩
  · cases h with
    -- the rule for input sockets
    | input role mem wire => exact ⟨_, rfl, role, mem, wire⟩
    -- What else powers something is a source, and an input socket is none.
    | wireBeside _ power => cases power.isSource
    | wireThrough _ _ power => cases power.isSource
    | torch _ _ power => cases power.isSource
    | circuitThrough _ _ _ power => cases power.isSource
    | circuitBeside _ _ power => cases power.isSource
  · rintro ⟨p, rfl, role, mem, wire⟩
    exact .input role mem wire

/-- An output socket powers nothing. -/
theorem not_powers_of_output : ¬ b.Powers w (.output f) t := by
  intro h
  cases h with
  -- What passes power on or emits it is a source, and an output socket is none.
  | wireBeside _ emits => cases emits.isSource
  | wireThrough _ _ power => cases power.isSource
  | torch _ _ power => cases power.isSource
  | circuitThrough _ _ _ power => cases power.isSource
  | circuitBeside _ _ emits => cases emits.isSource

theorem powers_circuit_iff : b.Powers w s (.circuit p) ↔
    ∃ facing t side, b.CircuitAt w p facing t ∧ side ∈ t.inputs ∧ s = .circuitInput p side := by
  refine ⟨?_, ?_⟩
  · intro h
    cases h with
    | circuitIn circuit input => exact ⟨_, _, _, circuit, input, rfl⟩
  · rintro ⟨facing, t, side, circuit, input, rfl⟩
    exact .circuitIn circuit input

theorem powers_circuitOutput_iff {side : Side} : b.Powers w s (.circuitOutput p side) ↔
    s = .circuit p ∧ ∃ facing t, b.CircuitAt w p facing t ∧ side ∈ t.outputs := by
  refine ⟨?_, ?_⟩
  · intro h
    cases h with
    | circuitOut circuit output => exact ⟨rfl, _, _, circuit, output⟩
  · rintro ⟨rfl, facing, t, circuit, output⟩
    exact .circuitOut circuit output

theorem CircuitAt.unique {facing facing' : Facing} {t t' : TruthTable}
    (h : b.CircuitAt w p facing t) (h' : b.CircuitAt w p facing' t') :
    facing = facing' ∧ t = t' := by
  obtain ⟨-, block, table⟩ := h
  obtain ⟨-, block', table'⟩ := h'
  rw [block, Block.circuit.injEq] at block'
  rw [table, Option.some.injEq] at table'
  exact ⟨block', table'⟩

/-- What powers something traced is traced. -/
theorem Traced.of_powers (h : b.Traced w t) (power : b.Powers w s t) : b.Traced w s := by
  obtain ⟨f, role, path⟩ := h
  exact ⟨f, role, .head power path⟩

theorem Traced.stands (h : b.Traced w t) : b.Stands w t := by
  obtain ⟨f, role, path⟩ := h
  -- It is the socket itself, or it powers the next one on the way.
  rcases path.cases_head with rfl | ⟨next, power, -⟩
  · exact role
  · exact power.stands.1

/-- **Only what is there belongs to the circuit.** -/
theorem Present.stands (h : b.Present w t) : b.Stands w t := by
  cases h with
  | traced traced => exact traced.stands
  | input role => exact role
  | circuitOutput _ circuit output => exact ⟨_, _, circuit, output⟩

/-- What powers something that belongs to the circuit belongs to it. -/
theorem Present.of_powers (h : b.Present w t) (power : b.Powers w s t) : b.Present w s := by
  cases h with
  | traced traced => exact .traced (traced.of_powers power)
  | input => exact absurd power not_powers_input
  -- An output side that no output socket depends on has no driver but its circuit.
  | circuitOutput whole =>
    obtain ⟨rfl, -⟩ := powers_circuitOutput_iff.1 power
    exact .traced whole

end Rules

end Board

end TorchLogic
