import TorchLogic.Proofs.Board.Diagram
import TorchLogic.Proofs.Diagram.Cut

/-!
# Boards without some sides

A board with nothing on some of its sides (`Board.without`) has the same components, and what powers
what is what it was between terminals that still stand (`Board.powers_without_iff`): only the
sockets themselves know the role of a side. A socket that is gone was the end of every path through
it, since nothing powers an input and an output powers nothing. So the diagram of the smaller board
is cut from the diagram of the board (`Board.cutFrom_without`): the inputs among the sides are
unplugged, and what only the outputs among them depended on is gone.

What feeds back is told for each output by itself (`Board.table?_without_eq_none_iff`), and an
output that was kept does what it did with the unplugged inputs off (`Board.get_apply_without`).
-/

namespace TorchLogic

open Relation

namespace Board

variable {b : Board} {w : World} {q : Position} {f o : Facing} {s t : Terminal} {r : SocketRole}
  {role : Facing → SocketRole} {sides : List Facing}

/-! ### Power with other roles -/

theorem StrongPower.withRole (h : b.StrongPower w q s) :
    StrongPower { b with role := role } w q s := by
  cases h with
  | torch torch => exact .torch torch
  | circuit output => exact .circuit output

theorem AnyPower.withRole (h : b.AnyPower w q s) : AnyPower { b with role := role } w q s := by
  cases h with
  | strong power => exact .strong power.withRole
  | wireOnTop wire => exact .wireOnTop wire
  | wireBeside wire points => exact .wireBeside wire points

theorem Emits.withRole (h : b.Emits w q f s) : Emits { b with role := role } w q f s := by
  cases h with
  | torch torch => exact .torch torch
  | circuit output => exact .circuit output

/-- **What powers what does not depend on roles**, as long as the sockets stand. -/
theorem Powers.withRole (h : b.Powers w s t) (source : Stands { b with role := role } w s)
    (target : Stands { b with role := role } w t) : Powers { b with role := role } w s t := by
  cases h with
  -- Only the rules for sockets ask for a role, and it is the one in which the socket stands.
  | output _ mem wire => exact .output target mem wire
  | input _ mem wire => exact .input source mem wire
  | wires wire other joined => exact .wires wire other joined
  | torchAbove wire torch => exact .torchAbove wire torch
  | wireBeside wire emits => exact .wireBeside wire emits.withRole
  | wireThrough wire full power => exact .wireThrough wire full power.withRole
  | torch torch full power => exact .torch torch full power.withRole
  | circuitThrough circuit input full power =>
    exact .circuitThrough circuit input full power.withRole
  | circuitWire circuit input wire => exact .circuitWire circuit input wire
  | circuitBeside circuit input emits => exact .circuitBeside circuit input emits.withRole
  | circuitIn circuit input => exact .circuitIn circuit input
  | circuitOut circuit output => exact .circuitOut circuit output

/-! ### Boards without some sides -/

/-- **A board with nothing on some sides.** -/
def without (b : Board) (sides : List Facing) : Board :=
  { b with role := fun f => if f ∈ sides then .empty else b.role f }

theorem role_without_iff (used : r ≠ .empty) :
    (b.without sides).role f = r ↔ b.role f = r ∧ f ∉ sides := by
  show (if f ∈ sides then .empty else b.role f) = r ↔ _
  by_cases gone : f ∈ sides
  · rw [if_pos gone]
    exact iff_of_false used.symm fun h => h.2 gone
  · rw [if_neg gone, and_iff_left gone]

theorem input_without_iff : (b.without sides).role f = .input ↔ b.role f = .input ∧ f ∉ sides :=
  role_without_iff nofun

theorem output_without_iff : (b.without sides).role f = .output ↔ b.role f = .output ∧ f ∉ sides :=
  role_without_iff nofun

theorem sidesWith_without (used : r ≠ .empty) :
    (b.without sides).sidesWith r = (b.sidesWith r).filter (· ∉ sides) := by
  unfold sidesWith
  rw [List.filter_filter]
  refine List.filter_congr fun f _ => ?_
  rw [Bool.eq_iff_iff, decide_eq_true_iff, Bool.and_eq_true, decide_eq_true_iff, decide_eq_true_iff,
    role_without_iff used, and_comm]

/-- Sides in another role stay. -/
theorem sidesWith_without_eq (used : r ≠ .empty) (others : ∀ f ∈ sides, b.role f ≠ r) :
    (b.without sides).sidesWith r = b.sidesWith r := by
  rw [sidesWith_without used, List.filter_eq_self]
  intro f mem
  exact decide_eq_true fun gone => others f gone (mem_sidesWith.1 mem)

/-- **What stands without some sides** is what stood, but for the sockets of these sides. -/
theorem stands_without_iff : (b.without sides).Stands w t ↔
    b.Stands w t ∧ ∀ f ∈ sides, t ≠ .input f ∧ t ≠ .output f := by
  cases t with
  | input g =>
    -- a socket stands if its side was not emptied
    show (b.without sides).role g = .input ↔ b.role g = .input ∧ _
    rw [input_without_iff]
    refine and_congr_right fun _ =>
      ⟨fun kept f gone => ⟨?_, nofun⟩, fun none gone => (none g gone).1 rfl⟩
    rintro ⟨⟩
    exact kept gone
  | output g =>
    show (b.without sides).role g = .output ↔ b.role g = .output ∧ _
    rw [output_without_iff]
    refine and_congr_right fun _ =>
      ⟨fun kept f gone => ⟨nofun, ?_⟩, fun none gone => (none g gone).2 rfl⟩
    rintro ⟨⟩
    exact kept gone
  -- nothing else is a socket
  | _ => exact (and_iff_left fun f _ => ⟨nofun, nofun⟩).symm

/-- **Power without some sides** is power between what still stands. -/
theorem powers_without_iff : (b.without sides).Powers w s t ↔
    b.Powers w s t ∧ (b.without sides).Stands w s ∧ (b.without sides).Stands w t := by
  constructor
  · intro power
    obtain ⟨source, target⟩ := power.stands
    refine ⟨?_, source, target⟩
    -- The roles of the board are other roles for the board without the sides.
    have back : Powers { b.without sides with role := b.role } w s t :=
      power.withRole (stands_without_iff.1 source).1 (stands_without_iff.1 target).1
    exact back
  · rintro ⟨power, source, target⟩
    exact power.withRole source target

theorem Traced.of_without (h : (b.without sides).Traced w t) : b.Traced w t := by
  obtain ⟨f, output, path⟩ := h
  have role : b.role f = .output := (output_without_iff.1 output).1
  exact ⟨f, role, ReflTransGen.mono (fun _ _ power => (powers_without_iff.1 power).1) _ _ path⟩

theorem Present.of_without (h : (b.without sides).Present w t) : b.Present w t := by
  cases h with
  | traced traced => exact .traced traced.of_without
  | input role => exact .input (input_without_iff.1 role).1
  | circuitOutput whole circuit output => exact .circuitOutput whole.of_without circuit output

/-- No socket is left on the sides. -/
theorem not_present_input_without (gone : f ∈ sides) :
    ¬ (b.without sides).Present w (.input f) := by
  intro present
  have stays : f ∉ sides := (input_without_iff.1 present.stands).2
  exact stays gone

/-! ### The diagram -/

/-- **The diagram without some sides** is cut from the diagram, with the inputs among them
unplugged. -/
theorem cutFrom_without (b : Board) (w : World) (sides : List Facing) :
    ((b.without sides).diagram w).CutFrom (b.diagram w) fun f => f ∈ sides ∧ b.role f = .input where
  is_iff := by
    -- What is left of the diagram shows the parts that it showed.
    rintro t ⟨p, present, -⟩ q
    exact and_congr_left fun _ => iff_of_true present present.of_without
  drives_iff := by
    rintro t ⟨p, present, -⟩ s
    constructor
    · -- an edge that is left is an edge, and not from an input that was unplugged
      rintro ⟨source, target, power⟩
      refine ⟨⟨source.of_without, target.of_without, (powers_without_iff.1 power).1⟩, ?_⟩
      rintro ⟨f, ⟨gone, -⟩, input⟩
      obtain ⟨rfl, -⟩ := diagram_is_input_iff.1 input
      exact not_present_input_without gone source
    · rintro ⟨⟨source, target, power⟩, plugged⟩
      -- The driver still stands: it is no input that was unplugged, and outputs drive nothing.
      have standing : (b.without sides).Stands w s := by
        refine stands_without_iff.2 ⟨source.stands, fun f gone => ⟨?_, ?_⟩⟩
        · rintro rfl
          have role : b.role f = .input := source.stands
          exact plugged ⟨f, ⟨gone, role⟩, diagram_is_input_iff.2 ⟨rfl, role⟩⟩
        · rintro rfl
          exact not_powers_of_output power
      have power' := powers_without_iff.2 ⟨power, standing, present.stands⟩
      exact ⟨present.of_powers power', present, power'⟩
  not_stands := by
    rintro t ⟨f, ⟨gone, -⟩, input⟩ ⟨p, present, -⟩
    obtain ⟨rfl, -⟩ := diagram_is_input_iff.1 input
    exact not_present_input_without gone present
  input_only := by
    rintro t f - ⟨-, input⟩ p ⟨-, part⟩
    exact Option.some.inj (part.symm.trans input)
  undriven := by
    -- Nothing drives an input.
    rintro t ⟨f, -, input⟩ s ⟨-, -, power⟩
    obtain ⟨rfl, -⟩ := diagram_is_input_iff.1 input
    exact not_powers_input power

/-! ### Tables -/

/-- **Whether something feeds back to an output** in the circuit without wires, or leads to it
without end. -/
def FeedsBack (b : Board) (w : World) (o : Facing) : Prop :=
  ¬ Acc (b.diagram w).reduced.Drives (.output o)

theorem reduced_is_output_iff :
    (b.diagram w).reduced.Is t (.output o) ↔ t = .output o ∧ b.role o = .output := by
  have other : Part.output o ≠ .wire := nofun
  show (b.diagram w).Is t (.output o) ∧ _ ↔ _
  rw [diagram_is_output_iff, and_iff_left other]

/-- **There is no table** exactly if something feeds back to an output. -/
theorem table?_eq_none_iff : b.table? w = .ok none ↔ ∃ o, b.role o = .output ∧ b.FeedsBack w o := by
  -- Every output is founded exactly when none feeds back.
  have founded : (b.diagram w).reduced.Founded ↔ ¬ ∃ o, b.role o = .output ∧ b.FeedsBack w o := by
    constructor
    · rintro founded ⟨o, role, feeds⟩
      exact feeds (founded _ o (reduced_is_output_iff.2 ⟨rfl, role⟩))
    · intro none t o output
      obtain ⟨rfl, role⟩ := reduced_is_output_iff.1 output
      by_contra feeds
      exact none ⟨o, role, feeds⟩
  rcases table?_cases b w with ⟨ok, loop⟩ | ⟨t, ok, well, -⟩
  · refine iff_of_true ok ?_
    rwa [founded, not_not] at loop
  · refine iff_of_false ?_ (founded.1 well)
    rw [ok]
    exact nofun

/-- **What feeds back without some sides** is what feeds back to the other outputs. -/
theorem table?_without_eq_none_iff : (b.without sides).table? w = .ok none ↔
    ∃ o, (b.role o = .output ∧ o ∉ sides) ∧ b.FeedsBack w o := by
  rw [table?_eq_none_iff]
  refine exists_congr fun o => ?_
  rw [output_without_iff]
  refine and_congr_right fun kept => not_congr ?_
  -- An output that was kept has all behind it that it had, but for unplugged inputs.
  have stands : ((b.without sides).diagram w).reduced.Stands (.output o) :=
    ⟨.output o, reduced_is_output_iff.2 ⟨rfl, output_without_iff.2 kept⟩⟩
  exact (cutFrom_without b w sides).reduced.acc_iff stands

/-- **A table of a board without some sides** does what the table of the board does when the inputs
among the sides are off, on every side that is no output that is gone. -/
theorem get_apply_without {t t' : TruthTable} (ok : b.table? w = .ok (some t))
    (ok' : (b.without sides).table? w = .ok (some t')) {signals signals' : Signals}
    (off : ∀ f ∈ sides, b.role f = .input → signals'.get (.relative .north f) = false)
    (same : ∀ f, ¬ (f ∈ sides ∧ b.role f = .input) →
      signals.get (.relative .north f) = signals'.get (.relative .north f))
    (kept : b.role o = .output → o ∉ sides) :
    (t'.apply signals).get (.relative .north o) = (t.apply signals').get (.relative .north o) := by
  obtain ⟨-, computes⟩ := computes_of_table? ok
  obtain ⟨founded, computes'⟩ := computes_of_table? ok'
  refine (cutFrom_without b w sides).reduced.get_apply_eq founded computes' computes
    (fun f gone => off f gone.1 gone.2) same fun n output => ?_
  obtain ⟨rfl, role⟩ := reduced_is_output_iff.1 output
  exact ⟨.output o, reduced_is_output_iff.2 ⟨rfl, output_without_iff.2 ⟨role, kept role⟩⟩⟩

end Board

end TorchLogic
