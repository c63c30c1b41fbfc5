import Mathlib.Logic.Equiv.Defs
import TorchLogic.Proofs.Board.Diagram
import TorchLogic.Proofs.Board.Square
import TorchLogic.Proofs.TruthTable.Signature
import TorchLogic.Proofs.World.Turn

/-!
# Boards that look alike

A motion moves positions and turns facings so that neighbours stay neighbours (`Motion`). It carries
a board in a world to another board in another world if what is on the one board is, moved, on the
other (`Motion.Carries`). Besides the roles of the sides and what stands in the area, that is what
wires at the full blocks in the area point at, for which a wire looks around itself.

What powers what is carried along (`Motion.Carries.powers_iff`), rule by rule. That is shown in one
direction only, as a motion can be undone. So the diagram of the one circuit is the diagram of the
other, with the sockets turned (`Motion.Carries.faithful`), and the tables of the two boards do the
same (`Motion.Carries.tables`).
-/

namespace TorchLogic

/-- **A motion** of positions, with what it does to facings. -/
structure Motion where
  move : Position ≃ Position
  turn : Facing ≃ Facing
  move_above : ∀ p, move p.above = (move p).above
  move_toward : ∀ p f, move (p.toward f) = (move p).toward (turn f)
  /-- Sides stay where they are on what is turned. -/
  turn_absolute : ∀ f s, turn (Side.absolute f s) = Side.absolute (turn f) s

namespace Motion

variable (m : Motion)

/-- **The way back.** -/
def symm : Motion where
  move := m.move.symm
  turn := m.turn.symm
  move_above := by
    intro p
    rw [Equiv.symm_apply_eq, m.move_above, Equiv.apply_symm_apply]
  move_toward := by
    intro p f
    rw [Equiv.symm_apply_eq, m.move_toward, Equiv.apply_symm_apply, Equiv.apply_symm_apply]
  turn_absolute := by
    intro f s
    rw [Equiv.symm_apply_eq, m.turn_absolute, Equiv.apply_symm_apply]

/-- The motion that leaves everything in place. -/
def rest : Motion where
  move := Equiv.refl Position
  turn := Equiv.refl Facing
  move_above _ := rfl
  move_toward _ _ := rfl
  turn_absolute _ _ := rfl

/-- **A quarter turn** about the vertical axis. -/
def quarter : Motion where
  move := ⟨Position.turn, Position.turnBack, Position.turnBack_turn, Position.turn_turnBack⟩
  turn := ⟨Facing.clockwise, Facing.counterclockwise, Facing.clockwise_counterclockwise,
    Facing.counterclockwise_clockwise⟩
  move_above := Position.turn_above
  move_toward := Position.turn_toward
  turn_absolute f s := (Side.absolute_clockwise f s).symm

theorem move_below (p : Position) : m.move p.below = (m.move p).below := by
  have up : m.move p = (m.move p.below).above := by rw [← m.move_above, Position.below_above]
  rw [up, Position.above_below]

theorem turn_opposite (f : Facing) : m.turn f.opposite = (m.turn f).opposite :=
  m.turn_absolute f .back

/-- Neighbours stay neighbours. -/
theorem exists_move_step (p : Position) (d : Direction) :
    ∃ d', m.move (p.step d) = (m.move p).step d' := by
  cases d with
  | down => exact ⟨.down, m.move_below p⟩
  | up => exact ⟨.up, m.move_above p⟩
  | north => exact ⟨_, m.move_toward p .north⟩
  | south => exact ⟨_, m.move_toward p .south⟩
  | west => exact ⟨_, m.move_toward p .west⟩
  | east => exact ⟨_, m.move_toward p .east⟩

/-- **A terminal moved.** -/
def terminal : Terminal → Terminal
  | .input f => .input (m.turn f)
  | .output f => .output (m.turn f)
  | .wire p => .wire (m.move p)
  | .torch p => .torch (m.move p)
  | .circuit p => .circuit (m.move p)
  | .circuitInput p side => .circuitInput (m.move p) side
  | .circuitOutput p side => .circuitOutput (m.move p) side

@[simp] theorem symm_terminal (t : Terminal) : m.symm.terminal (m.terminal t) = t := by
  cases t <;> simp [terminal, symm]

@[simp] theorem terminal_symm (t : Terminal) : m.terminal (m.symm.terminal t) = t := by
  cases t <;> simp [terminal, symm]

/-- **Whether what is on a board in a world is, moved, on another board in another world.** -/
structure Carries (b b' : Board) (w w' : World) : Prop where
  role : ∀ f, b'.role (m.turn f) = b.role f
  socket : ∀ p f, m.move p ∈ Board.socketBlocks b'.corner (m.turn f) ↔
    p ∈ Board.socketBlocks b.corner f
  covers : ∀ p, b'.covers (m.move p) = b.covers p
  block : ∀ p, b.covers p = true → w'.block (m.move p) = (w.block p).mapFacing m.turn
  table : ∀ p, b.covers p = true → w'.table? (m.move p) = w.table? p
  /-- What a wire points at matters where a full block could pass its power on. -/
  points : ∀ p f, b.WireAt w p → b.FullAt w (p.toward f) →
    w'.wirePoints (m.move p) (m.turn f) = w.wirePoints p f

namespace Carries

open Board

variable {m} {b b' : Board} {w w' : World} (h : m.Carries b b' w w') {p q : Position} {f : Facing}
  {side : Side} {s t : Terminal}

include h

/-! ### Components -/

theorem wireAt (wire : b.WireAt w p) : b'.WireAt w' (m.move p) := by
  refine ⟨by rw [h.covers, wire.1], ?_⟩
  rw [h.block p wire.1, wire.2]
  rfl

theorem torchAt (torch : b.TorchAt w p) : b'.TorchAt w' (m.move p) :=
  ⟨by rw [h.covers, torch.1], by rw [h.block p torch.1, Block.isTorch_mapFacing, torch.2]⟩

theorem fullAt (full : b.FullAt w p) : b'.FullAt w' (m.move p) :=
  ⟨by rw [h.covers, full.1], by rw [h.block p full.1, Block.conducts_mapFacing, full.2]⟩

theorem circuitAt {facing : Facing} {table : TruthTable} (circuit : b.CircuitAt w p facing table) :
    b'.CircuitAt w' (m.move p) (m.turn facing) table := by
  obtain ⟨covered, block, kept⟩ := circuit
  refine ⟨by rw [h.covers, covered], ?_, by rw [h.table p covered, kept]⟩
  rw [h.block p covered, block]
  rfl

theorem outputAt (output : b.OutputAt w p f side) : b'.OutputAt w' (m.move p) (m.turn f) side := by
  obtain ⟨facing, table, circuit, output, rfl⟩ := output
  exact ⟨_, table, h.circuitAt circuit, output, (m.turn_absolute facing side).symm⟩

/-- **The way back** carries the boards back. -/
theorem symm : m.symm.Carries b' b w' w := by
  -- The block of the one world is that of the other, turned back.
  have block {p : Position} (covered : b.covers p = true) :
      w.block p = (w'.block (m.move p)).mapFacing m.turn.symm := by
    rw [h.block p covered, Block.mapFacing_mapFacing, Equiv.symm_comp_self, Block.mapFacing_id]
  refine ⟨fun f => ?_, fun p f => ?_, fun p => ?_, fun p covered => ?_, fun p covered => ?_,
    fun p f wire full => ?_⟩
  · obtain ⟨f, rfl⟩ := m.turn.surjective f
    rw [h.role]
    exact congrArg b.role (m.turn.symm_apply_apply f)
  -- The rest is about a position, and every position is another one moved.
  all_goals obtain ⟨p, rfl⟩ := m.move.surjective p
  · obtain ⟨f, rfl⟩ := m.turn.surjective f
    simp only [Motion.symm, Equiv.symm_apply_apply, h.socket]
  · simp only [Motion.symm, Equiv.symm_apply_apply, h.covers]
  · rw [h.covers] at covered
    simp only [Motion.symm, Equiv.symm_apply_apply, block covered]
  · rw [h.covers] at covered
    simp only [Motion.symm, Equiv.symm_apply_apply, h.table p covered]
  · -- a wire points the same way where it and what it points at are both on the board
    obtain ⟨f, rfl⟩ := m.turn.surjective f
    rw [← m.move_toward] at full
    have covered : b.covers p = true := by rw [← h.covers, wire.1]
    have covered' : b.covers (p.toward f) = true := by rw [← h.covers, full.1]
    simp only [Motion.symm, Equiv.symm_apply_apply]
    refine (h.points p f ⟨covered, ?_⟩ ⟨covered', ?_⟩).symm
    · rw [block covered, wire.2]
      rfl
    · rw [block covered', Block.conducts_mapFacing, full.2]

/-! ### Power -/

theorem joined (wire : b.WireAt w p) (other : b.WireAt w q) (joined : w.Joined p q) :
    w'.Joined (m.move p) (m.move q) := by
  -- What is above a wire of the board is on the board, so it moves along.
  have uncovered {p : Position} (wire : b.WireAt w p) (free : (w.block p.above).conducts = false) :
      (w'.block (m.move p).above).conducts = false := by
    rw [← m.move_above, h.block _ (covers_above wire.1), Block.conducts_mapFacing, free]
  cases joined with
  | level p f =>
    rw [m.move_toward]
    exact .level _ _
  | up p f free =>
    rw [m.move_toward, m.move_above]
    exact .up _ _ (uncovered wire free)
  | down p f free =>
    rw [m.move_toward, m.move_above]
    exact .down _ _ (uncovered other free)

theorem strongPower (power : b.StrongPower w q s) :
    b'.StrongPower w' (m.move q) (m.terminal s) := by
  cases power with
  | torch torch =>
    have torch := h.torchAt torch
    rw [terminal, m.move_below] at *
    exact .torch torch
  | circuit output =>
    have output := h.outputAt output
    rw [terminal, m.move_toward, m.turn_opposite] at *
    exact .circuit output

theorem anyPower (full : b.FullAt w q) (power : b.AnyPower w q s) :
    b'.AnyPower w' (m.move q) (m.terminal s) := by
  cases power with
  | strong power => exact .strong (h.strongPower power)
  | wireOnTop wire =>
    have wire := h.wireAt wire
    rw [terminal, m.move_above] at *
    exact .wireOnTop wire
  | @wireBeside f wire points =>
    -- the wire points back at the block, and does so after the motion
    have back : (q.toward f).toward f.opposite = q := toward_opposite q f
    have same := h.points (q.toward f) f.opposite wire (by rwa [back])
    have wire := h.wireAt wire
    rw [points] at same
    rw [terminal, m.move_toward, m.turn_opposite] at *
    exact .wireBeside wire same

theorem emits (emits : b.Emits w q f s) : b'.Emits w' (m.move q) (m.turn f) (m.terminal s) := by
  cases emits with
  | torch torch => exact .torch (h.torchAt torch)
  | circuit output => exact .circuit (h.outputAt output)

theorem torchSupport_move (covered : b.covers p = true) :
    torchSupport w' (m.move p) = m.move (torchSupport w p) := by
  unfold torchSupport
  rw [h.block p covered]
  cases w.block p with
  | wallTorch f =>
    rw [m.move_toward, m.turn_opposite]
    rfl
  | _ => exact (m.move_below p).symm

/-- **Power is carried along.** -/
theorem powers (power : b.Powers w s t) : b'.Powers w' (m.terminal s) (m.terminal t) := by
  cases power with
  | output role mem wire =>
    -- the sockets
    refine .output (by rw [h.role, role]) ?_ (h.wireAt wire)
    rwa [← m.move_below, h.socket]
  | input role mem wire =>
    refine .input (by rw [h.role, role]) ?_ (h.wireAt wire)
    rwa [← m.move_below, h.socket]
  | wires wire other joined =>
    -- the wires
    exact .wires (h.wireAt wire) (h.wireAt other) (h.joined wire other joined)
  | torchAbove wire torch =>
    have torch := h.torchAt torch
    show b'.Powers w' (.torch (m.move _)) _
    rw [m.move_above] at *
    exact .torchAbove (h.wireAt wire) torch
  | wireBeside wire emits =>
    have emits := h.emits emits
    rw [m.move_toward, m.turn_opposite] at emits
    exact .wireBeside (h.wireAt wire) emits
  | @wireThrough p d s wire full power =>
    obtain ⟨d', step⟩ := m.exists_move_step p d
    have full := h.fullAt full
    have power := h.strongPower power
    rw [step] at full power
    exact .wireThrough (h.wireAt wire) full power
  | torch torch full power =>
    -- torches, by their supports
    have power := h.anyPower full power
    have full := h.fullAt full
    rw [← h.torchSupport_move torch.1] at full power
    exact .torch (h.torchAt torch) full power
  | circuitThrough circuit input full power =>
    -- nested circuits, by the blocks that their sides look at
    have power := h.anyPower full power
    have full := h.fullAt full
    rw [m.move_toward, m.turn_absolute] at full power
    exact .circuitThrough (h.circuitAt circuit) input full power
  | circuitWire circuit input wire =>
    have wire := h.wireAt wire
    rw [terminal, m.move_toward, m.turn_absolute] at *
    exact .circuitWire (h.circuitAt circuit) input wire
  | circuitBeside circuit input emits =>
    have emits := h.emits emits
    rw [m.move_toward, m.turn_opposite, m.turn_absolute] at emits
    exact .circuitBeside (h.circuitAt circuit) input emits
  | circuitIn circuit input => exact .circuitIn (h.circuitAt circuit) input
  | circuitOut circuit output => exact .circuitOut (h.circuitAt circuit) output

theorem traced (traced : b.Traced w t) : b'.Traced w' (m.terminal t) := by
  obtain ⟨f, role, path⟩ := traced
  exact ⟨m.turn f, by rw [h.role, role], path.lift m.terminal fun _ _ => h.powers⟩

theorem present (present : b.Present w t) : b'.Present w' (m.terminal t) := by
  cases present with
  | traced traced => exact .traced (h.traced traced)
  | input role => exact .input (by rw [h.role, role])
  | circuitOutput whole circuit output =>
    exact .circuitOutput (h.traced whole) (h.circuitAt circuit) output

/-! ### The diagram -/

theorem powers_iff : b'.Powers w' (m.terminal s) (m.terminal t) ↔ b.Powers w s t := by
  refine ⟨fun power => ?_, h.powers⟩
  have back := h.symm.powers power
  rwa [symm_terminal, symm_terminal] at back

theorem present_iff : b'.Present w' (m.terminal t) ↔ b.Present w t := by
  refine ⟨fun present => ?_, h.present⟩
  have back := h.symm.present present
  rwa [symm_terminal] at back

theorem part?_terminal (present : b.Present w t) :
    (m.terminal t).part? w' = (t.part? w).map (Part.turn m.turn) := by
  cases t with
  | circuit p =>
    obtain ⟨facing, table, covered, -⟩ := present.stands
    rw [terminal, Terminal.part?, Terminal.part?, h.table p covered, Option.map_map]
    rfl
  | _ => rfl

/-- **The one diagram is the other**, with the sockets turned. -/
theorem faithful : (b.diagram w).Faithful (b'.diagram w') m.turn m.terminal where
  is_iff := by
    -- The part of a terminal turns with it.
    rintro t ⟨p₀, present, -⟩ q
    show b'.Present w' (m.terminal t) ∧ (m.terminal t).part? w' = some q ↔
      ∃ p, (b.Present w t ∧ t.part? w = some p) ∧ q = p.turn m.turn
    rw [h.present_iff, h.part?_terminal present, Option.map_eq_some_iff]
    refine ⟨?_, ?_⟩
    · rintro ⟨-, p, known, rfl⟩
      exact ⟨p, ⟨present, known⟩, rfl⟩
    · rintro ⟨p, ⟨-, known⟩, rfl⟩
      exact ⟨present, p, known, rfl⟩
  drives_iff := by
    intro t _ a
    show b'.Present w' a ∧ b'.Present w' (m.terminal t) ∧ b'.Powers w' a (m.terminal t) ↔
      ∃ s, (b.Present w s ∧ b.Present w t ∧ b.Powers w s t) ∧ a = m.terminal s
    refine ⟨?_, ?_⟩
    -- Every terminal is another one moved.
    · rw [← m.terminal_symm a]
      rintro ⟨source, target, power⟩
      exact ⟨_, ⟨h.present_iff.1 source, h.present_iff.1 target, h.powers_iff.1 power⟩, rfl⟩
    · rintro ⟨s, ⟨source, target, power⟩, rfl⟩
      exact ⟨h.present source, h.present target, h.powers power⟩
  onto := by
    -- Every terminal is another one moved.
    rintro a f ⟨present, -⟩
    rw [← m.terminal_symm a] at present ⊢
    have present := h.present_iff.1 present
    obtain ⟨p, known⟩ := present.exists_part
    exact ⟨_, ⟨p, present, known⟩, rfl⟩

/-- **Boards that look alike have tables that do the same**, or both have none. -/
theorem tables : (b.table? w = .ok none ∧ b'.table? w' = .ok none) ∨
    ∃ t t', b.table? w = .ok (some t) ∧ b'.table? w' = .ok (some t') ∧
      (t.inputs = b.inputs.map (Side.relative .north) ∧
        t.outputs = b.outputs.map (Side.relative .north)) ∧
      (t'.inputs = b'.inputs.map (Side.relative .north) ∧
        t'.outputs = b'.outputs.map (Side.relative .north)) ∧
      ∀ signals signals' : Signals,
        (∀ f, signals'.get (.relative .north (m.turn f)) = signals.get (.relative .north f)) → ∀ f,
        (t'.apply signals').get (.relative .north (m.turn f)) =
          (t.apply signals).get (.relative .north f) := by
  have faithful := h.faithful.reduced
  rcases table?_cases b w with ⟨ok, loop⟩ | ⟨t, ok, founded, ins, outs, computes⟩
  · -- a loop in the one diagram is a loop in the other
    rcases table?_cases b' w' with ⟨ok', -⟩ | ⟨t', -, founded', -⟩
    · exact .inl ⟨ok, ok'⟩
    · exact absurd (faithful.founded_iff.1 founded') loop
  · -- two founded diagrams that correspond give the same signals
    rcases table?_cases b' w' with ⟨-, loop'⟩ | ⟨t', ok', -, ins', outs', computes'⟩
    · exact absurd (faithful.founded_iff.2 founded) loop'
    · exact .inr ⟨t, t', ok, ok', ⟨ins, outs⟩, ⟨ins', outs'⟩, fun signals signals' given =>
        faithful.get_apply_eq (fun _ _ eq => m.turn.injective eq) founded computes computes' given⟩

/-- **Boards that look alike and face alike have the same table**, or both have none. -/
theorem table?_eq (faces : ∀ f, m.turn f = f) : b'.table? w' = b.table? w := by
  have sides (r : SocketRole) : b'.sidesWith r = b.sidesWith r := by
    refine List.filter_congr fun f _ => ?_
    rw [← h.role f, faces]
  rcases h.tables with ⟨ok, ok'⟩ | ⟨t, t', ok, ok', ⟨ins, outs⟩, ⟨ins', outs'⟩, same⟩
  · rw [ok, ok']
  · -- a table is known by its lists of sides and by what it gives
    have apply (signals : Signals) : t'.apply signals = t.apply signals := by
      refine Signals.ext_get fun side => ?_
      obtain ⟨f, rfl⟩ : ∃ f, .relative .north f = side := ⟨_, Side.relative_absolute .north side⟩
      have agree := same signals signals (fun f => by rw [faces]) f
      rwa [faces] at agree
    have equal : t' = t := TruthTable.ext_apply (by rw [ins, ins', inputs, inputs, sides])
      (by rw [outs, outs', outputs, outputs, sides]) apply
    rw [ok, ok', equal]

end Carries

end Motion

end TorchLogic
