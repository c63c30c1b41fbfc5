import TorchLogic.Proofs.Diagram.Basic

/-!
# Faithful maps of diagrams

A map from the nodes of one diagram to those of another is faithful (`Diagram.Faithful`) if a node
and its image are the same but for the facing of a socket, the drivers of the image are the images
of the drivers, and every output is an image. It need not reach any other node, nor tell two nodes
apart: what a node does depends on its drivers alone.

A faithful map reads steady states back (`Faithful.steady`), it agrees about feedback
(`Faithful.founded_iff`), and it stays faithful when the wires go (`Faithful.reduced`). So if tables
compute what the two diagrams do, the one table does what the other does
(`Faithful.get_apply_eq`).
-/

namespace TorchLogic

open Relation

/-- The part with the facing of a socket changed. -/
def Part.turn (turn : Facing → Facing) : Part → Part
  | input f => input (turn f)
  | output f => output (turn f)
  | p => p

/-- Whether the part is a socket, which has a facing. -/
def Part.isSocket : Part → Bool
  | input _ | output _ => true
  | _ => false

@[simp] theorem Part.turn_id (p : Part) : p.turn id = p := by cases p <;> rfl

theorem Part.turn_turn (g h : Facing → Facing) (p : Part) : (p.turn g).turn h = p.turn (h ∘ g) := by
  cases p <;> rfl

theorem Part.eq_turn_iff {turn : Facing → Facing} {p q : Part} (inner : q.isSocket = false) :
    q = p.turn turn ↔ p = q := by
  cases q <;> cases p <;> simp_all [Part.turn, Part.isSocket, eq_comm]

theorem Part.input_eq_turn_iff {turn : Facing → Facing} {p : Part} {f : Facing} :
    .input f = p.turn turn ↔ ∃ f', p = .input f' ∧ f = turn f' := by
  cases p <;> simp [Part.turn]

theorem Part.output_eq_turn_iff {turn : Facing → Facing} {p : Part} {f : Facing} :
    .output f = p.turn turn ↔ ∃ f', p = .output f' ∧ f = turn f' := by
  cases p <;> simp [Part.turn]

namespace Diagram

variable {N N' N'' : Type} {d : Diagram N} {d' : Diagram N'} {d'' : Diagram N''}
  {turn turn' : Facing → Facing} {φ : N → N'} {ψ : N' → N''} {given : Facing → Prop}
  {on : N' → Prop} {n : N}

/-- **Faithful maps.** -/
structure Faithful (d : Diagram N) (d' : Diagram N') (turn : Facing → Facing) (φ : N → N') : Prop
    where
  /-- The image of a node is what the node is, turned. -/
  is_iff : ∀ n, d.Stands n → ∀ q, d'.Is (φ n) q ↔ ∃ p, d.Is n p ∧ q = p.turn turn
  /-- The drivers of an image are the images of the drivers. -/
  drives_iff : ∀ n, d.Stands n → ∀ a, d'.Drives a (φ n) ↔ ∃ m, d.Drives m n ∧ a = φ m
  /-- Every output is an image. -/
  onto : ∀ a f, d'.Is a (.output f) → ∃ n, d.Stands n ∧ a = φ n

namespace Faithful

/-- Every diagram is mapped faithfully to itself. -/
theorem refl (d : Diagram N) : Faithful d d id id where
  is_iff n _ q := by simp only [id, Part.turn_id, exists_eq_right']
  drives_iff n _ a := by simp only [id, exists_eq_right']
  onto a f output := ⟨a, ⟨_, output⟩, rfl⟩

section Nodes

variable (h : Faithful d d' turn φ)

include h

theorem is {p : Part} (is : d.Is n p) : d'.Is (φ n) (p.turn turn) :=
  (h.is_iff n ⟨p, is⟩ _).2 ⟨p, is, rfl⟩

theorem stands (stands : d.Stands n) : d'.Stands (φ n) := by
  obtain ⟨p, is⟩ := stands
  exact ⟨_, h.is is⟩

theorem is_inner_iff (stands : d.Stands n) {q : Part} (inner : q.isSocket = false) :
    d'.Is (φ n) q ↔ d.Is n q := by
  simp only [h.is_iff n stands, Part.eq_turn_iff inner, exists_eq_right]

theorem is_input_iff (stands : d.Stands n) {f : Facing} :
    d'.Is (φ n) (.input f) ↔ ∃ f', d.Is n (.input f') ∧ f = turn f' := by
  simp only [h.is_iff n stands, Part.input_eq_turn_iff]
  refine ⟨?_, ?_⟩
  · rintro ⟨_, is, f', rfl, eq⟩
    exact ⟨f', is, eq⟩
  · rintro ⟨f', is, eq⟩
    exact ⟨_, is, f', rfl, eq⟩

theorem is_output_iff (stands : d.Stands n) {f : Facing} :
    d'.Is (φ n) (.output f) ↔ ∃ f', d.Is n (.output f') ∧ f = turn f' := by
  simp only [h.is_iff n stands, Part.output_eq_turn_iff]
  refine ⟨?_, ?_⟩
  · rintro ⟨_, is, f', rfl, eq⟩
    exact ⟨f', is, eq⟩
  · rintro ⟨f', is, eq⟩
    exact ⟨_, is, f', rfl, eq⟩

/-- An output is the image of an output. -/
theorem exists_output {a : N'} {f : Facing} (output : d'.Is a (.output f)) :
    ∃ n f', d.Is n (.output f') ∧ a = φ n ∧ f = turn f' := by
  obtain ⟨n, stands, rfl⟩ := h.onto a f output
  obtain ⟨f', is, eq⟩ := (h.is_output_iff stands).1 output
  exact ⟨n, f', is, rfl, eq⟩

theorem drives {m : N} (edge : d.Drives m n) : d'.Drives (φ m) (φ n) :=
  (h.drives_iff n (d.is_of_drives edge).2 _).2 ⟨m, edge, rfl⟩

theorem observed (observed : d.Observed n) : d'.Observed (φ n) := by
  obtain ⟨o, f, output, path⟩ := observed
  refine ⟨φ o, turn f, h.is output, ?_⟩
  induction path using ReflTransGen.head_induction_on with
  | refl => exact .refl
  | head edge _ ih => exact .head (h.drives edge) ih

/-- Two faithful maps one after the other are faithful. -/
theorem comp (h' : Faithful d' d'' turn' ψ) : Faithful d d'' (turn' ∘ turn) (ψ ∘ φ) where
  is_iff := by
    intro n stands q
    rw [Function.comp_apply, h'.is_iff _ (h.stands stands)]
    simp only [h.is_iff n stands]
    refine ⟨?_, ?_⟩
    · rintro ⟨_, ⟨p, is, rfl⟩, rfl⟩
      exact ⟨p, is, p.turn_turn turn turn'⟩
    · rintro ⟨p, is, rfl⟩
      exact ⟨_, ⟨p, is, rfl⟩, (p.turn_turn turn turn').symm⟩
  drives_iff := by
    intro n stands a
    rw [Function.comp_apply, h'.drives_iff _ (h.stands stands)]
    simp only [h.drives_iff n stands]
    refine ⟨?_, ?_⟩
    · rintro ⟨_, ⟨m, edge, rfl⟩, rfl⟩
      exact ⟨m, edge, rfl⟩
    · rintro ⟨m, edge, rfl⟩
      exact ⟨_, ⟨m, edge, rfl⟩, rfl⟩
  onto := by
    -- Outputs are followed back through both maps.
    intro a f output
    obtain ⟨n', f', output', rfl, -⟩ := h'.exists_output output
    obtain ⟨n, f'', output'', rfl, -⟩ := h.exists_output output'
    exact ⟨n, ⟨_, output''⟩, rfl⟩

/-! ### Feedback -/

theorem acc_iff (stands : d.Stands n) : Acc d'.Drives (φ n) ↔ Acc d.Drives n := by
  refine ⟨?_, ?_⟩
  · intro acc
    -- The induction is on the image, whose drivers are all images.
    generalize image : φ n = a at acc
    induction acc generalizing n with
    | intro a _ ih =>
      refine .intro n fun m edge => ?_
      refine ih (φ m) ?_ (d.is_of_drives edge).1 rfl
      rw [← image]
      exact h.drives edge
  · intro acc
    induction acc with
    | intro n _ ih =>
      -- a driver of the image is the image of a driver
      refine .intro _ fun a edge => ?_
      obtain ⟨m, driver, rfl⟩ := (h.drives_iff n stands a).1 edge
      exact ih m driver (d.is_of_drives driver).1

/-- **The two diagrams agree about feedback.** -/
theorem founded_iff : d'.Founded ↔ d.Founded := by
  refine ⟨?_, ?_⟩
  · intro founded o f output
    exact (h.acc_iff ⟨_, output⟩).1 (founded (φ o) (turn f) (h.is output))
  · intro founded a f output
    obtain ⟨n, f', output', rfl, -⟩ := h.exists_output output
    exact (h.acc_iff ⟨_, output'⟩).2 (founded n f' output')

/-! ### Steady states -/

/-- What is demanded of an image is demanded of the node. -/
theorem demands_iff (stands : d.Stands n) :
    d'.Demands given on (φ n) ↔ d.Demands (given ∘ turn) (on ∘ φ) n := by
  -- The states that the input sides of a nested circuit have are read through the map.
  have states {c : N} (circuit : d.Stands c) (s : Side) :
      (∃ m', d'.Is m' (.circuitInput s) ∧ d'.Drives m' (φ c) ∧ on m') ↔
        ∃ m, d.Is m (.circuitInput s) ∧ d.Drives m c ∧ on (φ m) := by
    refine ⟨?_, ?_⟩
    · rintro ⟨m', is, edge, yes⟩
      obtain ⟨m, driver, rfl⟩ := (h.drives_iff c circuit m').1 edge
      exact ⟨m, (h.is_inner_iff (d.is_of_drives driver).1 rfl).1 is, driver, yes⟩
    · rintro ⟨m, is, edge, yes⟩
      exact ⟨φ m, h.is is, h.drives edge, yes⟩
  refine ⟨?_, ?_⟩
  · -- every driver of the image is the image of a driver
    intro demand
    cases demand with
    | input is yes =>
      obtain ⟨f', socket, rfl⟩ := (h.is_input_iff stands).1 is
      exact .input socket yes
    | output is edge yes =>
      obtain ⟨f', socket, -⟩ := (h.is_output_iff stands).1 is
      obtain ⟨m, driver, rfl⟩ := (h.drives_iff n stands _).1 edge
      exact .output socket driver yes
    | circuitInput is edge yes =>
      obtain ⟨m, driver, rfl⟩ := (h.drives_iff n stands _).1 edge
      exact .circuitInput ((h.is_inner_iff stands rfl).1 is) driver yes
    | torch is no =>
      exact .torch ((h.is_inner_iff stands rfl).1 is) fun m edge => no (φ m) (h.drives edge)
    | circuitOutput is edge circuit known yes =>
      obtain ⟨c, driver, rfl⟩ := (h.drives_iff n stands _).1 edge
      have standing := (d.is_of_drives driver).1
      exact .circuitOutput ((h.is_inner_iff stands rfl).1 is) driver
        ((h.is_inner_iff standing rfl).1 circuit) (fun s => (known s).trans (states standing s)) yes
  · -- and every driver has its image among those
    intro demand
    cases demand with
    | input is yes => exact .input (h.is is) yes
    | output is edge yes => exact .output (h.is is) (h.drives edge) yes
    | circuitInput is edge yes => exact .circuitInput (h.is is) (h.drives edge) yes
    | torch is no =>
      refine .torch (h.is is) fun a edge => ?_
      obtain ⟨m, driver, rfl⟩ := (h.drives_iff n stands a).1 edge
      exact no m driver
    | circuitOutput is edge circuit known yes =>
      exact .circuitOutput (h.is is) (h.drives edge) (h.is circuit)
        (fun s => (known s).trans (states (d.is_of_drives edge).1 s).symm) yes

/-- **Steady states are read back.** -/
theorem steady (steady : d'.Steady given on) : d.Steady (given ∘ turn) (on ∘ φ) := by
  intro n observed
  rw [Function.comp_apply, steady (φ n) (h.observed observed), h.demands_iff observed.stands]

/-- **Tables for the two diagrams do the same**, from signals that are the same but for the turning
of the sockets. -/
theorem get_apply_eq (inj : ∀ f f', turn f = turn f' → f = f')
    (founded : d.Founded) {t t' : TruthTable}
    (computes : d.Computes t) (computes' : d'.Computes t') {signals signals' : Signals}
    (same : ∀ f, signals'.get (.relative .north (turn f)) = signals.get (.relative .north f))
    (f : Facing) :
    (t'.apply signals').get (.relative .north (turn f)) =
      (t.apply signals).get (.relative .north f) := by
  obtain ⟨on, steady, outputs⟩ := computes signals
  obtain ⟨on', steady', outputs'⟩ := computes' signals'
  -- Read through the map, the states of the one diagram are states of the other.
  have back : d.Steady (fun f => signals.get (.relative .north f) = true) (on' ∘ φ) := by
    refine (h.steady steady').congr fun f => ?_
    rw [Function.comp_apply, same]
  -- There is one way for an output to be, so the two agree.
  have agree {n : N} {f : Facing} (output : d.Is n (.output f)) : on' (φ n) ↔ on n :=
    back.on_iff founded steady ⟨n, f, output, .refl⟩
  rw [Bool.eq_iff_iff, outputs, outputs']
  refine ⟨?_, ?_⟩
  · rintro ⟨a, f', output, eq, yes⟩
    obtain ⟨n, f'', output', rfl, rfl⟩ := h.exists_output output
    rw [inj _ _ (Side.relative_inj.1 eq)]
    exact ⟨n, f'', output', rfl, (agree output').1 yes⟩
  · rintro ⟨n, f', output, eq, yes⟩
    rw [Side.relative_inj.1 eq]
    exact ⟨φ n, turn f', h.is output, rfl, (agree output).2 yes⟩

/-! ### Without wires -/

/-- A run of wires to an image comes from the image of a node. -/
theorem run_iff {k : Nat} {a : N'} (stands : d.Stands n) :
    d'.Run a k (φ n) ↔ ∃ m, d.Run m k n ∧ a = φ m := by
  refine ⟨?_, ?_⟩
  · intro run
    -- The run is followed from its end, where each driver is an image.
    generalize image : φ n = b at run
    induction run generalizing n with
    | edge edge =>
      rw [← image] at edge
      obtain ⟨m, driver, rfl⟩ := (h.drives_iff n stands _).1 edge
      exact ⟨m, .edge driver, rfl⟩
    | through _ wire edge ih =>
      rw [← image] at edge
      obtain ⟨w, driver, rfl⟩ := (h.drives_iff n stands _).1 edge
      have standing := (d.is_of_drives driver).1
      obtain ⟨m, run, rfl⟩ := ih standing rfl
      exact ⟨m, .through run ((h.is_inner_iff standing rfl).1 wire) driver, rfl⟩
  · rintro ⟨m, run, rfl⟩
    induction run with
    | edge edge => exact .edge (h.drives edge)
    | through _ wire edge ih =>
      exact .through (ih (d.is_of_drives edge).1) (h.is wire) (h.drives edge)

/-- An image stays when the wires go, if the node does. -/
theorem kept_iff (stands : d.Stands n) : d'.Kept (φ n) ↔ d.Kept n := by
  have plain {p : Part} : p.turn turn ≠ .wire ↔ p ≠ .wire := by
    rw [ne_eq, eq_comm, Part.eq_turn_iff rfl]
  refine ⟨?_, ?_⟩
  · rintro ⟨q, is, ne⟩
    obtain ⟨p, part, rfl⟩ := (h.is_iff n stands q).1 is
    exact ⟨p, part, plain.1 ne⟩
  · rintro ⟨p, is, ne⟩
    exact ⟨_, h.is is, plain.2 ne⟩

/-- **A faithful map stays faithful when the wires go.** -/
theorem reduced : Faithful d.reduced d'.reduced turn φ where
  is_iff := by
    rintro n ⟨p₀, is₀, -⟩ q
    show d'.Is (φ n) q ∧ q ≠ .wire ↔ ∃ p, (d.Is n p ∧ p ≠ .wire) ∧ q = p.turn turn
    rw [h.is_iff n ⟨p₀, is₀⟩]
    refine ⟨?_, ?_⟩
    · rintro ⟨⟨p, is, rfl⟩, ne⟩
      exact ⟨p, ⟨is, fun wire => ne (by rw [wire]; rfl)⟩, rfl⟩
    · rintro ⟨p, ⟨is, ne⟩, rfl⟩
      exact ⟨⟨p, is, rfl⟩, fun wire => ne ((Part.eq_turn_iff rfl).1 wire.symm)⟩
  drives_iff := by
    rintro n ⟨p₀, is₀, -⟩ a
    have stands : d.Stands n := ⟨p₀, is₀⟩
    show ((∃ k ≤ Netlist.maxWireRun, d'.Run a k (φ n)) ∧ d'.Kept a ∧ d'.Kept (φ n)) ↔
      ∃ m, ((∃ k ≤ Netlist.maxWireRun, d.Run m k n) ∧ d.Kept m ∧ d.Kept n) ∧ a = φ m
    simp only [h.run_iff stands, h.kept_iff stands]
    refine ⟨?_, ?_⟩
    · rintro ⟨⟨k, few, m, run, rfl⟩, kept, kept'⟩
      exact ⟨m, ⟨⟨k, few, run⟩, (h.kept_iff run.stands.1).1 kept, kept'⟩, rfl⟩
    · rintro ⟨m, ⟨⟨k, few, run⟩, kept, kept'⟩, rfl⟩
      exact ⟨⟨k, few, m, run, rfl⟩, (h.kept_iff run.stands.1).2 kept, kept'⟩
  onto := by
    rintro a f ⟨output, -⟩
    obtain ⟨n, f', output', rfl, -⟩ := h.exists_output output
    exact ⟨n, ⟨_, output', Part.noConfusion⟩, rfl⟩

end Nodes

/-- **A table that computes what a diagram does** computes what any diagram mapped to it does. -/
theorem computes {φ : N → N'} (h : Faithful d d' id φ) {t : TruthTable} (computes : d'.Computes t) :
    d.Computes t := by
  intro signals
  obtain ⟨on, steady, outputs⟩ := computes signals
  refine ⟨on ∘ φ, h.steady steady, fun side => ?_⟩
  rw [outputs]
  refine ⟨?_, ?_⟩
  · rintro ⟨a, f, output, rfl, yes⟩
    obtain ⟨n, _, output', rfl, rfl⟩ := h.exists_output output
    exact ⟨n, _, output', rfl, yes⟩
  · rintro ⟨n, f, output, rfl, yes⟩
    exact ⟨φ n, f, h.is output, rfl, yes⟩

end Faithful

end Diagram

end TorchLogic
