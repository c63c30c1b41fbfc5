import TorchLogic.Proofs.Diagram.Basic

/-!
# Cutting diagrams down

A diagram is cut from another (`Diagram.CutFrom`) if it has some of the nodes of the other, and each
of them has the drivers that it had, but for inputs that were unplugged. What drives a node that was
kept was kept as well, so all that a node depends on is there, and nodes that drive nothing that was
kept may be gone.

An unplugged input drives nothing any more, which is the same as if it were off. So a steady state
of the whole in which the unplugged inputs are off is one of the part (`CutFrom.steady`). It does
not matter to a node whether feedback is looked for in the part or in the whole (`CutFrom.acc_iff`),
for an input has no drivers to feed back through. A part stays a part when the wires go
(`CutFrom.reduced`): no run of wires begins anew when an input is unplugged, and none that begins
elsewhere ends.

On an output that was kept, a table of the part therefore does what a table of the whole does with
the unplugged inputs off (`CutFrom.get_apply_eq`), and other outputs do not come into it.
-/

namespace TorchLogic.Diagram

open Relation

variable {N : Type} {c d : Diagram N} {unplugged : Facing → Prop} {given given' : Facing → Prop}
  {on : N → Prop} {m n : N}

/-- Whether a node is an input on one of some sides. -/
def InputOn (d : Diagram N) (sides : Facing → Prop) (n : N) : Prop :=
  ∃ f, sides f ∧ d.Is n (.input f)

/-- **Whether a diagram is cut from another**, with the inputs on some sides unplugged. -/
structure CutFrom (c d : Diagram N) (unplugged : Facing → Prop) : Prop where
  /-- A node that was kept is what it was. -/
  is_iff : ∀ n, c.Stands n → ∀ p, c.Is n p ↔ d.Is n p
  /-- It has the drivers that it had, without unplugged inputs. -/
  drives_iff : ∀ n, c.Stands n → ∀ m, c.Drives m n ↔ d.Drives m n ∧ ¬ d.InputOn unplugged m
  /-- No unplugged input was kept. -/
  not_stands : ∀ m, d.InputOn unplugged m → ¬ c.Stands m
  /-- An unplugged input is nothing else. -/
  input_only : ∀ m f, unplugged f → d.Is m (.input f) → ∀ p, d.Is m p → p = .input f
  /-- Nothing drives an unplugged input. -/
  undriven : ∀ m, d.InputOn unplugged m → ∀ a, ¬ d.Drives a m

namespace CutFrom

variable (h : c.CutFrom d unplugged)

include h

theorem is {p : Part} (is : c.Is n p) : d.Is n p :=
  (h.is_iff n ⟨p, is⟩ p).1 is

theorem drives (edge : c.Drives m n) : d.Drives m n :=
  ((h.drives_iff n (c.is_of_drives edge).2 m).1 edge).1

theorem observed (observed : c.Observed n) : d.Observed n := by
  obtain ⟨o, f, output, path⟩ := observed
  exact ⟨o, f, h.is output, ReflTransGen.mono (fun _ _ => h.drives) _ _ path⟩

/-- What is no input was not unplugged. -/
theorem not_inputOn {p : Part} (is : d.Is m p) (other : ∀ f, p ≠ .input f) :
    ¬ d.InputOn unplugged m := by
  rintro ⟨f, gone, input⟩
  exact other f (h.input_only m f gone input p is)

/-! ### Feedback -/

/-- **A node is founded in the part if it is in the whole.** -/
theorem acc_iff (stands : c.Stands n) : Acc c.Drives n ↔ Acc d.Drives n := by
  constructor
  · intro acc
    induction acc with
    | intro n _ ih =>
      refine .intro n fun m edge => ?_
      by_cases input : d.InputOn unplugged m
      -- An unplugged input is missed as a driver, but nothing is behind it.
      · exact .intro m fun a edge' => absurd edge' (h.undriven m input a)
      · have kept : c.Drives m n := (h.drives_iff n stands m).2 ⟨edge, input⟩
        exact ih m kept (c.is_of_drives kept).1
  · -- the fewer edges, the easier to be well-founded
    intro acc
    exact Subrelation.accessible h.drives acc

/-! ### Steady states -/

/-- An unplugged input that counts as off is off in a steady state of the whole. -/
theorem not_on_of_inputOn (steady : d.Steady given on) (off : ∀ f, unplugged f → ¬ given f)
    (observed : d.Observed m) (input : d.InputOn unplugged m) : ¬ on m := by
  obtain ⟨f, gone, input⟩ := input
  intro yes
  have only {p : Part} (is : d.Is m p) : p = .input f := h.input_only m f gone input p is
  cases (steady m observed).1 yes with
  | input is state =>
    obtain rfl := Part.input.inj (only is)
    exact off _ gone state
  | output is | circuitInput is | torch is | circuitOutput is => cases only is

/-- The input sides of a nested circuit that are on are the same ones. -/
theorem exists_circuitInput_iff {k : N} (stands : c.Stands k) (s : Side) :
    (∃ m, c.Is m (.circuitInput s) ∧ c.Drives m k ∧ on m) ↔
      ∃ m, d.Is m (.circuitInput s) ∧ d.Drives m k ∧ on m := by
  constructor
  · rintro ⟨m, is, edge, yes⟩
    exact ⟨m, h.is is, h.drives edge, yes⟩
  · rintro ⟨m, is, edge, yes⟩
    have edge' : c.Drives m k := (h.drives_iff k stands m).2 ⟨edge, h.not_inputOn is fun _ => nofun⟩
    exact ⟨m, (h.is_iff m (c.is_of_drives edge').1 _).2 is, edge', yes⟩

/-- What is demanded of a node in the part is demanded in the whole, if no unplugged input is on. -/
theorem demands_iff (stands : c.Stands n) (same : ∀ f, ¬ unplugged f → (given' f ↔ given f))
    (dark : ∀ m, d.Drives m n → on m → ¬ d.InputOn unplugged m) :
    c.Demands given' on n ↔ d.Demands given on n := by
  constructor
  · intro demand
    cases demand with
    | input is yes =>
      -- the input that is read is still there, so it is not an unplugged one
      have plugged : ¬ unplugged _ := fun gone => h.not_stands n ⟨_, gone, h.is is⟩ stands
      exact .input (h.is is) ((same _ plugged).1 yes)
    | output is edge yes => exact .output (h.is is) (h.drives edge) yes
    | circuitInput is edge yes => exact .circuitInput (h.is is) (h.drives edge) yes
    | torch is no =>
      -- a driver that is on has been kept
      refine .torch (h.is is) fun m edge yes => ?_
      exact no m ((h.drives_iff n stands m).2 ⟨edge, dark m edge yes⟩) yes
    | circuitOutput is edge circuit states yes =>
      refine .circuitOutput (h.is is) (h.drives edge) (h.is circuit) (fun s => ?_) yes
      exact (states s).trans (h.exists_circuitInput_iff ⟨_, circuit⟩ s)
  · intro demand
    -- What is left is the same part that it was.
    have kept {p : Part} (is : d.Is n p) : c.Is n p := (h.is_iff n stands p).2 is
    cases demand with
    | input is yes =>
      have plugged : ¬ unplugged _ := fun gone => h.not_stands n ⟨_, gone, is⟩ stands
      exact .input (kept is) ((same _ plugged).2 yes)
    | output is edge yes =>
      exact .output (kept is) ((h.drives_iff n stands _).2 ⟨edge, dark _ edge yes⟩) yes
    | circuitInput is edge yes =>
      exact .circuitInput (kept is) ((h.drives_iff n stands _).2 ⟨edge, dark _ edge yes⟩) yes
    | torch is no => exact .torch (kept is) fun m edge => no m (h.drives edge)
    | circuitOutput is edge circuit states yes =>
      have edge' := (h.drives_iff n stands _).2 ⟨edge, h.not_inputOn circuit fun _ => nofun⟩
      have standing := (c.is_of_drives edge').1
      refine .circuitOutput (kept is) edge' ((h.is_iff _ standing _).2 circuit) (fun s => ?_) yes
      exact (states s).trans (h.exists_circuitInput_iff standing s).symm

/-- **A steady state of the whole is one of the part**, if the unplugged inputs are off in it. -/
theorem steady (steady : d.Steady given on) (off : ∀ f, unplugged f → ¬ given f)
    (same : ∀ f, ¬ unplugged f → (given' f ↔ given f)) : c.Steady given' on := by
  intro n observed
  have whole : d.Observed n := h.observed observed
  have dark (m : N) (edge : d.Drives m n) (yes : on m) : ¬ d.InputOn unplugged m :=
    fun input => h.not_on_of_inputOn steady off (whole.of_drives edge) input yes
  rw [steady n whole, h.demands_iff observed.stands same dark]

/-- **A table of the part does what a table of the whole does** with the unplugged inputs off, on an
output that was kept. -/
theorem get_apply_eq (founded : c.Founded) {t u : TruthTable} (computes : c.Computes t)
    (computes' : d.Computes u) {signals signals' : Signals} {f : Facing}
    (off : ∀ f, unplugged f → signals'.get (.relative .north f) = false)
    (same : ∀ f, ¬ unplugged f →
      signals.get (.relative .north f) = signals'.get (.relative .north f))
    (kept : ∀ n, d.Is n (.output f) → c.Stands n) :
    (t.apply signals).get (.relative .north f) = (u.apply signals').get (.relative .north f) := by
  obtain ⟨on, steady, outputs⟩ := computes signals
  obtain ⟨on', steady', outputs'⟩ := computes' signals'
  -- The states of the whole are states of what is left of it, with the unplugged inputs off.
  have part : c.Steady (fun f => signals.get (.relative .north f) = true) on' := by
    refine h.steady steady' (fun f gone => ?_) fun f plugged => ?_
    · rw [off f gone]
      exact Bool.false_ne_true
    · rw [same f plugged]
  -- On an output both agree, for there is one state of what is left.
  have agree {n : N} {f : Facing} (output : c.Is n (.output f)) : on n ↔ on' n :=
    steady.on_iff founded part ⟨n, f, output, .refl⟩
  rw [Bool.eq_iff_iff, outputs, outputs']
  constructor
  · rintro ⟨n, f', output, eq, yes⟩
    exact ⟨n, f', h.is output, eq, (agree output).1 yes⟩
  · rintro ⟨n, f', output, eq, yes⟩
    obtain rfl := Side.relative_inj.1 eq
    have output' : c.Is n (.output f) := (h.is_iff n (kept n output) _).2 output
    exact ⟨n, f, output', rfl, (agree output').2 yes⟩

/-! ### Without wires -/

/-- The runs of wires to a node that was kept are those that there were, but for the ones that an
unplugged input began. -/
theorem run_iff {k : Nat} (stands : c.Stands n) :
    c.Run m k n ↔ d.Run m k n ∧ ¬ d.InputOn unplugged m := by
  constructor
  · -- a run over what is left is a run
    intro run
    induction run with
    | edge edge =>
      obtain ⟨edge, plugged⟩ := (h.drives_iff _ stands m).1 edge
      exact ⟨.edge edge, plugged⟩
    | through _ wire edge ih =>
      obtain ⟨run, plugged⟩ := ih (c.is_of_drives edge).1
      exact ⟨.through run (h.is wire) (h.drives edge), plugged⟩
  · rintro ⟨run, plugged⟩
    induction run with
    | edge edge => exact .edge ((h.drives_iff _ stands m).2 ⟨edge, plugged⟩)
    | through _ wire edge ih =>
      -- The last wire was kept because it is no input.
      have edge' := (h.drives_iff _ stands _).2 ⟨edge, h.not_inputOn wire fun _ => nofun⟩
      have standing := (c.is_of_drives edge').1
      exact .through (ih standing) ((h.is_iff _ standing _).2 wire) edge'

theorem kept_iff (stands : c.Stands n) : c.Kept n ↔ d.Kept n :=
  exists_congr fun p => and_congr_left fun _ => h.is_iff n stands p

/-- **A part stays a part when the wires go.** -/
theorem reduced : c.reduced.CutFrom d.reduced unplugged where
  is_iff := by
    rintro n ⟨p₀, is₀, -⟩ p
    exact and_congr_left fun _ => h.is_iff n ⟨p₀, is₀⟩ p
  drives_iff := by
    rintro n ⟨p₀, is₀, -⟩ m
    have stands : c.Stands n := ⟨p₀, is₀⟩
    have input : d.reduced.InputOn unplugged m ↔ d.InputOn unplugged m :=
      exists_congr fun f => and_congr_right fun _ => and_iff_left Part.noConfusion
    rw [input]
    constructor
    · rintro ⟨⟨k, few, run⟩, source, target⟩
      obtain ⟨run', plugged⟩ := (h.run_iff stands).1 run
      exact ⟨⟨⟨k, few, run'⟩, (h.kept_iff run.stands.1).1 source,
        (h.kept_iff stands).1 target⟩, plugged⟩
    · rintro ⟨⟨⟨k, few, run⟩, source, target⟩, plugged⟩
      have run' : c.Run m k n := (h.run_iff stands).2 ⟨run, plugged⟩
      exact ⟨⟨k, few, run'⟩, (h.kept_iff run'.stands.1).2 source, (h.kept_iff stands).2 target⟩
  not_stands := by
    rintro m ⟨f, gone, is, -⟩ ⟨p, kept, -⟩
    exact h.not_stands m ⟨f, gone, is⟩ ⟨p, kept⟩
  input_only := by
    rintro m f gone ⟨is, -⟩ p ⟨is', -⟩
    exact h.input_only m f gone is p is'
  undriven := by
    rintro m ⟨f, gone, is, -⟩ a ⟨⟨k, -, run⟩, -⟩
    -- A run ends with an edge.
    cases run with
    | edge edge => exact h.undriven m ⟨f, gone, is⟩ _ edge
    | through _ _ edge => exact h.undriven m ⟨f, gone, is⟩ _ edge

end CutFrom

end TorchLogic.Diagram
