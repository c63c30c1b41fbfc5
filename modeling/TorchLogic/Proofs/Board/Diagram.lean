import Mathlib.Algebra.Module.Submodule.Lattice
import Mathlib.Computability.Primrec.List
import Mathlib.Data.List.Permutation
import TorchLogic.Board.Synthesis
import TorchLogic.Proofs.Board.Lay
import TorchLogic.Proofs.Board.Trace
import TorchLogic.Proofs.Netlist.Diagram

/-!
# The table of a board

The circuit on a board is drawn by the diagram of the terminals that belong to it, with power for
edges (`Board.diagram`). The table of a board goes by that diagram and by nothing else: there is
none exactly if something feeds back in the diagram without wires, and otherwise it computes what
that diagram does (`Board.table?_cases`). How the terminals are numbered, and in which order they
were reached, does not show.

No step from the world to the table can fail, so a request for the table of the board at a block
ends in a table, in a fault of the board, or in feedback (`Board.table?_eq_ok`).
-/

namespace TorchLogic

/-- **What a terminal is**, if it stands. -/
def Terminal.part? (w : World) : Terminal → Option Part
  | input f => some (.input f)
  | output f => some (.output f)
  | wire _ => some .wire
  | torch _ => some .torch
  | circuit p => (w.table? p).map .circuit
  | circuitInput _ side => some (.circuitInput side)
  | circuitOutput _ side => some (.circuitOutput side)

theorem Terminal.map_part_component? (w : World) (node : Terminal → NodeId) (t : Terminal) :
    (t.component? w node).map Component.part = t.part? w := by
  cases t with
  | circuit p =>
    rw [component?, part?, Option.map_map]
    rfl
  | _ => rfl

theorem Terminal.part?_eq_input_iff {w : World} {t : Terminal} {f : Facing} :
    t.part? w = some (.input f) ↔ t = .input f := by
  cases t <;> simp [part?]

theorem Terminal.part?_eq_output_iff {w : World} {t : Terminal} {f : Facing} :
    t.part? w = some (.output f) ↔ t = .output f := by
  cases t <;> simp [part?]

namespace Board

variable {b : Board} {w : World} {g : Netlist .wired} {node : Terminal → NodeId} {t : Terminal}
  {f : Facing}

theorem Present.exists_part (h : b.Present w t) : ∃ p, t.part? w = some p := by
  cases t with
  | circuit p =>
    obtain ⟨facing, table, circuit⟩ := h.stands
    exact ⟨.circuit table, by rw [Terminal.part?, circuit.2.2, Option.map_some]⟩
  | _ => exact ⟨_, rfl⟩

/-- **The diagram of the circuit on a board.** -/
def diagram (b : Board) (w : World) : Diagram Terminal where
  Is t p := b.Present w t ∧ t.part? w = some p
  Drives s t := b.Present w s ∧ b.Present w t ∧ b.Powers w s t
  is_of_drives h := by
    obtain ⟨p, hp⟩ := h.1.exists_part
    obtain ⟨q, hq⟩ := h.2.1.exists_part
    exact ⟨⟨p, h.1, hp⟩, q, h.2.1, hq⟩

theorem diagram_is_input_iff :
    (b.diagram w).Is t (.input f) ↔ t = .input f ∧ b.role f = .input := by
  show b.Present w t ∧ t.part? w = some (.input f) ↔ _
  rw [Terminal.part?_eq_input_iff, and_comm]
  refine and_congr_right ?_
  rintro rfl
  exact ⟨fun present => present.stands, fun role => .input role⟩

theorem diagram_is_output_iff :
    (b.diagram w).Is t (.output f) ↔ t = .output f ∧ b.role f = .output := by
  show b.Present w t ∧ t.part? w = some (.output f) ↔ _
  rw [Terminal.part?_eq_output_iff, and_comm]
  refine and_congr_right ?_
  rintro rfl
  exact ⟨fun present => present.stands, fun role => .traced ⟨f, role, .refl⟩⟩

/-- **The circuit on a board has its diagram**, up to numbers. -/
theorem IsCircuitOn.faithful (h : b.IsCircuitOn w g node) :
    (b.diagram w).Faithful h.wf.diagram id node where
  is_iff := by
    -- The node of a terminal has the component of the terminal, and so its part.
    rintro t ⟨p₀, present, -⟩ q
    have stands := h.component t present
    have part := Terminal.map_part_component? w node t
    rw [← stands] at part
    show (∃ c, g.component? (node t) = some c ∧ q = c.part) ↔
      ∃ p, (b.Present w t ∧ t.part? w = some p) ∧ q = p.turn id
    rw [← part]
    refine ⟨?_, ?_⟩
    · rintro ⟨c, hc, rfl⟩
      exact ⟨_, ⟨present, by rw [hc, Option.map_some]⟩, c.part.turn_id.symm⟩
    · rintro ⟨p, ⟨-, known⟩, rfl⟩
      obtain ⟨c, hc, rfl⟩ := Option.map_eq_some_iff.1 known
      exact ⟨c, hc, c.part.turn_id⟩
  drives_iff := by
    rintro t ⟨p₀, present, -⟩ k
    show g.Drives k (node t) ↔ ∃ s, (b.Present w s ∧ b.Present w t ∧ b.Powers w s t) ∧ k = node s
    refine ⟨?_, ?_⟩
    · intro edge
      obtain ⟨s, present', rfl⟩ := h.nodes.2.2 (h.wf.lt_of_mem_drivers edge).1
      exact ⟨s, ⟨present', present, (h.drives s t present' present).1 edge⟩, rfl⟩
    · rintro ⟨s, ⟨present', -, power⟩, rfl⟩
      exact (h.drives s t present' present).2 power
  onto := by
    -- There is a terminal for every node.
    rintro k f ⟨c, hc, -⟩
    obtain ⟨t, present, rfl⟩ := h.nodes.2.2 (Netlist.lt_size_of_component? hc)
    obtain ⟨p, hp⟩ := Present.exists_part present
    exact ⟨t, ⟨p, present, hp⟩, rfl⟩

/-- Input sides and output sides are different sides. -/
theorem nodup_sides (b : Board) : (b.inputs ++ b.outputs).Nodup := by
  refine List.nodup_append.2 ⟨nodup_sidesWith .input, nodup_sidesWith .output, ?_⟩
  rintro f input f' output rfl
  -- A side has one role.
  have role := (mem_sidesWith.1 input).symm.trans (mem_sidesWith.1 output)
  cases role

/-- **The table of a board goes by its diagram**: there is none if something feeds back, and
otherwise it computes what the diagram does. -/
theorem table?_cases (b : Board) (w : World) :
    (b.table? w = .ok none ∧ ¬ (b.diagram w).reduced.Founded) ∨
    ∃ t, b.table? w = .ok (some t) ∧ (b.diagram w).reduced.Founded ∧
      t.inputs = b.inputs.map (Side.relative .north) ∧
      t.outputs = b.outputs.map (Side.relative .north) ∧ (b.diagram w).reduced.Computes t := by
  obtain ⟨g, inputs, outputs, visited, traced, progress, ins, outs⟩ := exists_trace_inOrder b w
  obtain ⟨node, circuit⟩ := progress.exists_isCircuitOn
    (fun f role => (ins.exists_lookup_iff f).2 (mem_sidesWith.2 role))
    fun f role => (outs.exists_lookup_iff f).2 (mem_sidesWith.2 role)
  obtain ⟨r, reduced, goes⟩ := circuit.wf.exists_reduce circuit.faithful (progress.inputs_eq ins)
    (progress.outputs_eq outs) (nodup_sides b)
  -- Neither tracing nor reducing fails, so what is left is the test for loops and the tabulation.
  have steps : b.table? w = if r.isAcyclic then do
      let t ← r.truthTable.mapError .netlist
      .ok (some t)
    else .ok none := by
    rw [table?, traced]
    simp only [reduced, mapError_ok, ok_bind]
  rw [steps]
  rcases goes with ⟨cyclic, unfounded⟩ | ⟨acyclic, founded, t, ok, ins, outs, computes⟩
  · exact .inl ⟨by rw [cyclic]; rfl, unfounded⟩
  · refine .inr ⟨t, ?_, founded, ins, outs, computes⟩
    rw [if_pos acyclic, ok]
    rfl

/-- Where there is a table, its sides are those of the board. -/
theorem exists_table?_of_ne_none (h : b.table? w ≠ .ok none) : ∃ t, b.table? w = .ok (some t) ∧
    t.inputs = b.inputs.map (Side.relative .north) ∧
      t.outputs = b.outputs.map (Side.relative .north) := by
  rcases table?_cases b w with ⟨none, -⟩ | ⟨t, ok, -, ins, outs, -⟩
  · exact absurd none h
  · exact ⟨t, ok, ins, outs⟩

/-- Where there is a table, nothing feeds back, and it computes what the diagram does. -/
theorem computes_of_table? {t : TruthTable} (ok : b.table? w = .ok (some t)) :
    (b.diagram w).reduced.Founded ∧ (b.diagram w).reduced.Computes t := by
  rcases table?_cases b w with ⟨none, -⟩ | ⟨u, ok', founded, -, -, computes⟩
  · cases none.symm.trans ok
  · cases ok'.symm.trans ok
    exact ⟨founded, computes⟩

/-- **The answer for a block of a board** is what the board has for a table. -/
theorem synthesize_eq_of_table? {p : Position} (h : resolve w p = .ok b) {o : Option TruthTable}
    (ok : b.table? w = .ok o) : synthesize w p = match o with
      | some t => .ok t
      | none => .error .cyclic := by
  unfold synthesize
  simp only [h, ok, mapError_ok, ok_bind]
  cases o <;> rfl

/-- **The sides of a board in a role**, clockwise from the front, which is north. -/
def listed (b : Board) (r : SocketRole) : List Side :=
  Side.all.filter fun side => b.role (side.absolute .north) = r

/-- The names of sides make no difference to their order. -/
theorem map_sidesWith (b : Board) (r : SocketRole) :
    (b.sidesWith r).map (Side.relative .north) = b.listed r := by
  have all : Side.all = Facing.all.map (Side.relative .north) := rfl
  rw [listed, all, List.filter_map, sidesWith]
  refine congrArg _ (List.filter_congr fun f _ => ?_)
  rw [Function.comp_apply, Side.absolute_relative]

/-- **Synthesis never fails to build**: there is always a table of a board or feedback, and the
sides of a table are those that the board has in their roles, in the order front, right, back, left.
So the answer for a block is a table, a fault of its board, or feedback. -/
theorem table?_eq_ok (b : Board) (w : World) :
    (∃ o, b.table? w = .ok o ∧ ∀ t, o = some t →
      t.inputs = b.listed .input ∧ t.outputs = b.listed .output) ∧
    ∀ p, (∃ t, synthesize w p = .ok t) ∨ (∃ e, synthesize w p = .error (.board e)) ∨
      synthesize w p = .error .cyclic := by
  refine ⟨?_, fun p => ?_⟩
  · rcases table?_cases b w with ⟨ok, -⟩ | ⟨t, ok, -, ins, outs, -⟩
    · exact ⟨none, ok, fun t no => nomatch no⟩
    · refine ⟨some t, ok, fun t' eq => ?_⟩
      -- the sides come in the order of the sockets
      obtain rfl := Option.some.inj eq
      exact ⟨ins.trans (b.map_sidesWith .input), outs.trans (b.map_sidesWith .output)⟩
  · cases resolved : resolve w p with
    | error e =>
      -- what resolving does not accept
      refine .inr (.inl ⟨e, ?_⟩)
      rw [synthesize, resolved]
      rfl
    | ok c =>
      rcases table?_cases c w with ⟨none, -⟩ | ⟨t, some, -⟩
      · exact .inr (.inr (synthesize_eq_of_table? resolved none))
      · exact .inl ⟨t, synthesize_eq_of_table? resolved some⟩

end Board

/-- A table for a block comes from the board of the block. -/
theorem exists_resolve_of_synthesize {w : World} {p : Position} {t : TruthTable}
    (h : synthesize w p = .ok t) : ∃ b, Board.resolve w p = .ok b := by
  unfold synthesize at h
  cases resolved : Board.resolve w p with
  | error e =>
    rw [resolved] at h
    cases h
  | ok b => exact ⟨b, rfl⟩

/-! ### An inverter at the edge of a board -/

namespace EdgeInverter

/-- The sides of the board. -/
def role : Facing → SocketRole
  | .east | .west => .input
  | .north => .output
  | .south => .empty

def board : Board := ⟨⟨0, 0, 0⟩, role⟩

/-- **An inverter at the edge of a board**: a wire on the east socket points north at a block that
has a torch on it, and the torch powers a wire on the north socket. Nothing stands on the west
socket. -/
def world : World :=
  [((⟨7, 1, 2⟩ : Position), Block.wire), (⟨7, 1, 1⟩, .solid), (⟨6, 1, 1⟩, .wallTorch .west),
    (⟨6, 1, 0⟩, .wire)].foldl (fun w e => w.setBlock e.1 e.2) (World.empty.layBoard ⟨0, 0, 0⟩ role)

/-- Its table: north is on when east, the first input, is off. -/
def table : TruthTable :=
  ⟨[.right, .left], [.front], [⟨0b0101⟩], by decide, rfl, by decide⟩

theorem resolve_eq : Board.resolve world ⟨3, 0, 4⟩ = .ok board := by
  -- The components stand above the level of the board.
  have same (p : Position) (level : p.y = 0) :
      world.block p = (World.empty.layBoard ⟨0, 0, 0⟩ role).block p := by
    have below {x z : Int} : (⟨x, 1, z⟩ : Position) ≠ p := by
      rintro rfl
      cases level
    simp only [world, List.foldl_cons, List.foldl_nil, World.block_setBlock, below, if_false]
  rw [((World.laid_layBoard_empty ⟨0, 0, 0⟩ role).of_level same).resolve_eq (by decide)]
  simp only [Style.role_ofSocket, board]

theorem table?_eq : board.table? world = .ok (some table) := by
  -- The equations by which `≤` and `List.lookup` are unfolded here are those that `Primrec.List`
  -- and `Submodule.Lattice` have, which are imported for them.
  cbv

theorem synthesize_eq : synthesize world ⟨3, 0, 4⟩ = .ok table :=
  Board.synthesize_eq_of_table? resolve_eq table?_eq

end EdgeInverter

end TorchLogic
