import Mathlib.Tactic.Choose
import TorchLogic.Proofs.Board.Power
import TorchLogic.Proofs.Fallible

/-!
# The feeds are what powers

Tracing asks the world for lists of feeds. It is always given one, and the list holds exactly what
powers the component it is asked for (`Board.finds_wireFeeds`, `Board.finds_torchFeeds`,
`Board.finds_circuitFeeds`).

A list of feeds may also hold components outside the area, which are passed over when they are
visited, so `Board.Lists` asks for soundness inside the area only. `Board.Finds` says that there is
such a list at all: a full block and a nested circuit are asked about only where they stand. Both
are closed under the ways in which the lists are put together, so that each function of the tracer
takes one lemma.

A full block relays power to whoever asks, but not from the component that asks. That makes no
difference: no component powers the block from which it takes power itself.
-/

namespace TorchLogic

/-- **The terminal by which a feed powers.** -/
def Feed.terminal : Feed → Terminal
  | wire p => .wire p
  | torch p => .torch p
  | circuit p _ side => .circuitOutput p side

/-- **Whether the component of a feed is in the world.** -/
def Feed.Genuine (w : World) : Feed → Prop
  | wire p => w.block p = .wire
  | torch p => (w.block p).isTorch = true
  | circuit p table side =>
    (∃ facing, w.block p = .circuit facing) ∧ w.table? p = some table ∧ side ∈ table.outputs

/-- Where a terminal is. -/
def Terminal.position? : Terminal → Option Position
  | input _ | output _ => none
  | wire p | torch p | circuit p | circuitInput p _ | circuitOutput p _ => some p

theorem Direction.ofFacing_inj {f f' : Facing} : ofFacing f = ofFacing f' ↔ f = f' := by
  cases f <;> cases f' <;> simp [ofFacing]

namespace Position

@[simp] theorem above_below (p : Position) : p.above.below = p :=
  step_step_opposite p .up

@[simp] theorem below_above (p : Position) : p.below.above = p :=
  step_step_opposite p .down

theorem below_y (p : Position) : p.below.y = p.y - 1 := rfl

theorem toward_inj (p : Position) {f f' : Facing} (h : p.toward f = p.toward f') : f = f' := by
  simp only [toward, step, offset, Direction.ofFacing] at h
  cases f <;> cases f' <;> first | rfl | (simp only [mk.injEq] at h; omega)

end Position

namespace Board

variable {b : Board} {w : World} {p q : Position} {f looking : Facing} {s : Terminal}

/-! ### Lists of feeds -/

/-- **Whether a list of feeds holds what powers something.** -/
structure Lists (b : Board) (w : World) (feeds : List Feed) (powers : Terminal → Prop) : Prop where
  /-- The components are in the world. -/
  genuine : ∀ feed ∈ feeds, feed.Genuine w
  /-- Those in the area power it. -/
  sound : ∀ feed ∈ feeds, b.covers feed.position = true → powers feed.terminal
  /-- What powers it is listed. -/
  complete : ∀ s, powers s → ∃ feed ∈ feeds, feed.terminal = s

namespace Lists

variable {l l' : List Feed} {P Q : Terminal → Prop}

theorem congr (h : b.Lists w l P) (same : ∀ s, P s ↔ Q s) : b.Lists w l Q where
  genuine := h.genuine
  sound := fun feed mem covered => (same _).1 (h.sound feed mem covered)
  complete := fun s power => h.complete s ((same s).2 power)

theorem nil : b.Lists w [] fun _ => False where
  genuine := fun feed mem => by cases mem
  sound := fun feed mem => by cases mem
  complete := fun s power => power.elim

theorem single {feed : Feed} (genuine : feed.Genuine w) :
    b.Lists w [feed] fun s => b.covers feed.position = true ∧ s = feed.terminal where
  genuine := by
    intro other mem
    rw [List.mem_singleton.1 mem]
    exact genuine
  sound := by
    intro other mem covered
    rw [List.mem_singleton.1 mem] at covered ⊢
    exact ⟨covered, rfl⟩
  complete := fun s power => ⟨feed, List.mem_singleton_self _, power.2.symm⟩

theorem append (h : b.Lists w l P) (h' : b.Lists w l' Q) :
    b.Lists w (l ++ l') fun s => P s ∨ Q s where
  genuine := by
    intro feed mem
    rcases List.mem_append.1 mem with first | second
    · exact h.genuine feed first
    · exact h'.genuine feed second
  sound := by
    intro feed mem covered
    rcases List.mem_append.1 mem with first | second
    · exact .inl (h.sound feed first covered)
    · exact .inr (h'.sound feed second covered)
  complete := by
    intro s power
    rcases power with first | second
    · obtain ⟨feed, mem, eq⟩ := h.complete s first
      exact ⟨feed, List.mem_append_left _ mem, eq⟩
    · obtain ⟨feed, mem, eq⟩ := h'.complete s second
      exact ⟨feed, List.mem_append_right _ mem, eq⟩

theorem flatMap {α : Type} {xs : List α} {feeds : α → List Feed} {P : α → Terminal → Prop}
    (h : ∀ x, b.Lists w (feeds x) (P x)) :
    b.Lists w (xs.flatMap feeds) fun s => ∃ x ∈ xs, P x s where
  genuine := by
    intro feed mem
    obtain ⟨x, -, mem⟩ := List.mem_flatMap.1 mem
    exact (h x).genuine feed mem
  sound := by
    intro feed mem covered
    obtain ⟨x, hx, mem⟩ := List.mem_flatMap.1 mem
    exact ⟨x, hx, (h x).sound feed mem covered⟩
  complete := fun s ⟨x, hx, power⟩ => by
    obtain ⟨feed, mem, eq⟩ := (h x).complete s power
    exact ⟨feed, List.mem_flatMap.2 ⟨x, hx, mem⟩, eq⟩

theorem ite {c : Prop} [Decidable c] (h : c → b.Lists w l P) (h' : ¬ c → b.Lists w l' Q) :
    b.Lists w (if c then l else l') fun s => c ∧ P s ∨ ¬ c ∧ Q s := by
  by_cases yes : c
  · rw [if_pos yes]
    exact (h yes).congr fun s => by simp [yes]
  · rw [if_neg yes]
    exact (h' yes).congr fun s => by simp [yes]

end Lists

/-- **Whether feeds are found**, and the list holds what powers something. -/
def Finds (b : Board) (w : World) (found : Except BuildError (List Feed))
    (powers : Terminal → Prop) : Prop :=
  ∃ feeds, found = .ok feeds ∧ b.Lists w feeds powers

theorem Lists.finds {l : List Feed} {P : Terminal → Prop} (h : b.Lists w l P) :
    b.Finds w (.ok l) P :=
  ⟨l, rfl, h⟩

namespace Finds

variable {x y : Except BuildError (List Feed)} {P Q : Terminal → Prop}

theorem congr (h : b.Finds w x P) (same : ∀ s, P s ↔ Q s) : b.Finds w x Q := by
  obtain ⟨feeds, found, lists⟩ := h
  exact ⟨feeds, found, lists.congr same⟩

theorem append (h : b.Finds w x P) (h' : b.Finds w y Q) :
    b.Finds w (do let l ← x; let l' ← y; .ok (l ++ l')) fun s => P s ∨ Q s := by
  obtain ⟨l, rfl, lists⟩ := h
  obtain ⟨l', rfl, lists'⟩ := h'
  exact (lists.append lists').finds

theorem flatMap {α : Type} {xs : List α} {find : α → Except BuildError (List Feed)}
    {P : α → Terminal → Prop} (h : ∀ x, b.Finds w (find x) (P x)) :
    b.Finds w (xs.flatMapM find) fun s => ∃ x ∈ xs, P x s := by
  choose feeds found lists using h
  rw [flatMapM_eq_ok fun x _ => found x]
  exact (Lists.flatMap lists).finds

theorem ite {c : Prop} [Decidable c] (h : c → b.Finds w x P) (h' : ¬ c → b.Finds w y Q) :
    b.Finds w (if c then x else y) fun s => c ∧ P s ∨ ¬ c ∧ Q s := by
  by_cases yes : c
  · rw [if_pos yes]
    exact (h yes).congr fun s => by simp [yes]
  · rw [if_neg yes]
    exact (h' yes).congr fun s => by simp [yes]

end Finds

/-! ### Single components -/

theorem lists_wireFeed : b.Lists w (wireFeed w p) fun s => b.WireAt w p ∧ s = .wire p := by
  have genuine (wire : (w.block p).isWire = true) : (Feed.wire p).Genuine w :=
    Block.isWire_iff.1 wire
  refine (Lists.ite (fun wire => .single (genuine wire)) fun _ => .nil).congr fun s => ?_
  simp only [WireAt, Block.isWire_iff, Feed.position, Feed.terminal, and_false, or_false]
  refine ⟨?_, ?_⟩
  · rintro ⟨block, covered, rfl⟩
    exact ⟨⟨covered, block⟩, rfl⟩
  · rintro ⟨⟨covered, block⟩, rfl⟩
    exact ⟨block, covered, rfl⟩

theorem lists_torch : b.Lists w (if (w.block p).isTorch then [.torch p] else []) fun s =>
    b.TorchAt w p ∧ s = .torch p := by
  have genuine (torch : (w.block p).isTorch = true) : (Feed.torch p).Genuine w := torch
  refine (Lists.ite (fun torch => .single (genuine torch)) fun _ => .nil).congr fun s => ?_
  simp only [TorchAt, Feed.position, Feed.terminal, and_false, or_false]
  refine ⟨?_, ?_⟩
  · rintro ⟨block, covered, rfl⟩
    exact ⟨⟨covered, block⟩, rfl⟩
  · rintro ⟨⟨covered, block⟩, rfl⟩
    exact ⟨block, covered, rfl⟩

theorem Emits.not_conducts (h : b.Emits w q looking s) : (w.block q).conducts = false := by
  cases h with
  | torch torch => exact Block.not_conducts_of_isTorch torch.2
  | circuit output =>
    obtain ⟨facing, t, ⟨-, block, -⟩, -⟩ := output
    rw [block]
    rfl

theorem Emits.covers (h : b.Emits w q looking s) : b.covers q = true := by
  cases h with
  | torch torch => exact torch.1
  | circuit output =>
    obtain ⟨facing, t, circuit, -⟩ := output
    exact circuit.1

/-- The side that looks a way is one. -/
theorem side_eq_relative_iff {facing : Facing} {side : Side} :
    side = Side.relative facing looking ↔ side.absolute facing = looking := by
  refine ⟨?_, ?_⟩
  · rintro rfl
    exact Side.absolute_relative facing looking
  · rintro rfl
    exact (Side.relative_absolute facing side).symm

theorem finds_circuitFeed (circuit : (w.block p).isCircuit = true) :
    b.Finds w (b.circuitFeed w p looking) fun s =>
      ∃ side, b.OutputAt w p looking side ∧ s = .circuitOutput p side := by
  obtain ⟨facing, block⟩ := Block.isCircuit_iff.1 circuit
  unfold circuitFeed
  rw [block]
  cases table : w.table? p with
  | none =>
    -- without a table the circuit puts out nothing
    refine (Finds.ite (fun _ => Lists.nil.finds) fun _ => Lists.nil.finds).congr fun s => ?_
    simp only [and_false, or_false, false_iff]
    rintro ⟨side, ⟨facing', t, ⟨-, -, table'⟩, -⟩, -⟩
    rw [table] at table'
    cases table'
  | some t =>
    -- The table is asked for the side that looks the way.
    refine (Finds.ite (fun _ => (Lists.ite (fun output => .single ?_) fun _ => .nil).finds)
      fun _ => Lists.nil.finds).congr fun s => ?_
    · exact ⟨⟨facing, block⟩, table, List.contains_iff_mem.1 output⟩
    · simp only [Feed.position, Feed.terminal, and_false, or_false]
      refine ⟨?_, ?_⟩
      · rintro ⟨covered, output, -, rfl⟩
        exact ⟨_, ⟨facing, t, ⟨covered, block, table⟩, List.contains_iff_mem.1 output,
          side_eq_relative_iff.1 rfl⟩, rfl⟩
      · rintro ⟨side, ⟨facing', t', ⟨covered, block', table'⟩, output, looks⟩, rfl⟩
        rw [block, Block.circuit.injEq] at block'
        rw [table, Option.some.injEq] at table'
        subst block' table'
        obtain rfl := side_eq_relative_iff.2 looks
        exact ⟨covered, List.contains_iff_mem.2 output, covered, rfl⟩

theorem OutputAt.isCircuit {side : Side} (h : b.OutputAt w p looking side) :
    (w.block p).isCircuit = true := by
  obtain ⟨facing, t, ⟨-, block, -⟩, -⟩ := h
  exact Block.isCircuit_iff.2 ⟨facing, block⟩

theorem directFeed_eq (covered : b.covers p = true) : b.directFeed w p (.ofFacing f) =
    if (w.block p).isCircuit then b.circuitFeed w p f.opposite
    else .ok (wireFeed w p ++ if (w.block p).isTorch then [.torch p] else []) := by
  unfold directFeed wireFeed
  rw [if_pos covered]
  cases w.block p <;>
    simp [Block.isWire, Block.isTorch, Block.isCircuit, Direction.opposite_ofFacing]

/-- The component beside something. -/
theorem finds_directFeed : b.Finds w (b.directFeed w p (.ofFacing f)) fun s =>
    b.WireAt w p ∧ s = .wire p ∨ b.Emits w p f.opposite s := by
  by_cases covered : b.covers p = true
  · rw [directFeed_eq covered]
    refine (Finds.ite finds_circuitFeed
      fun _ => (lists_wireFeed.append lists_torch).finds).congr fun s => ?_
    refine ⟨?_, ?_⟩
    · -- what is found is an output, a wire or a torch, by the block
      rintro (⟨-, side, output, rfl⟩ | ⟨-, wire | ⟨torch, rfl⟩⟩)
      · exact .inr (.circuit output)
      · exact .inl wire
      · exact .inr (.torch torch)
    -- The three kinds exclude each other.
    · rintro (wire | emits)
      · exact .inr ⟨by simp [wire.1.2, Block.isCircuit], .inl wire⟩
      · cases emits with
        | torch torch => exact .inr ⟨Block.not_isCircuit_of_isTorch torch.2, .inr ⟨torch, rfl⟩⟩
        | circuit output => exact .inl ⟨output.isCircuit, _, output, rfl⟩
  · -- nothing outside of the board is a component of it
    rw [directFeed, if_neg covered]
    refine Lists.nil.finds.congr fun s => ?_
    rw [false_iff]
    rintro (wire | emits)
    · exact covered wire.1.1
    · exact covered emits.covers

/-! ### Full blocks -/

/-- **What powers a full block from the neighbour in a direction**, weak power counting or not. -/
inductive PowerFrom (b : Board) (w : World) (q : Position) (strong : Bool) (d : Direction) :
    Terminal → Prop
  | torch : d = .down → b.TorchAt w q.below → PowerFrom b w q strong d (.torch q.below)
  | wireOnTop : d = .up → strong = false → b.WireAt w q.above →
    PowerFrom b w q strong d (.wire q.above)
  | wireBeside {f : Facing} : d = .ofFacing f → strong = false → b.WireAt w (q.toward f) →
    w.wirePoints (q.toward f) f.opposite = true → PowerFrom b w q strong d (.wire (q.toward f))
  | circuit {f : Facing} {side : Side} : d = .ofFacing f →
    b.OutputAt w (q.toward f) f.opposite side →
    PowerFrom b w q strong d (.circuitOutput (q.toward f) side)

/-- **What powers a full block**, weak power counting or not. -/
def PowerOf (b : Board) (w : World) (q : Position) (strong : Bool) (s : Terminal) : Prop :=
  if strong then b.StrongPower w q s else b.AnyPower w q s

theorem powerOf_iff {strong : Bool} :
    b.PowerOf w q strong s ↔ ∃ d, b.PowerFrom w q strong d s := by
  -- Strong power comes from below or from a side, and the direction is that of the source.
  have of_strong (power : b.StrongPower w q s) : ∃ d, b.PowerFrom w q strong d s := by
    cases power with
    | torch torch => exact ⟨_, .torch rfl torch⟩
    | circuit output => exact ⟨_, .circuit rfl output⟩
  refine ⟨?_, ?_⟩
  · intro power
    cases strong with
    | true => exact of_strong power
    | false =>
      cases power with
      | strong power => exact of_strong power
      | wireOnTop wire => exact ⟨_, .wireOnTop rfl rfl wire⟩
      | wireBeside wire points => exact ⟨_, .wireBeside rfl rfl wire points⟩
  · -- strong power is power of either kind
    have of_strong (power : b.StrongPower w q s) : b.PowerOf w q strong s := by
      cases strong with
      | true => exact power
      | false => exact .strong power
    rintro ⟨d, power⟩
    cases power with
    | torch _ torch => exact of_strong (.torch torch)
    | circuit _ output => exact of_strong (.circuit output)
    | wireOnTop _ weak wire =>
      subst weak
      exact .wireOnTop wire
    | wireBeside _ weak wire points =>
      subst weak
      exact .wireBeside wire points

/-- What powers a full block from a direction is the neighbour there. -/
theorem PowerFrom.position? {strong : Bool} {d : Direction} (h : b.PowerFrom w q strong d s) :
    s.position? = some (q.step d) := by
  cases h with
  | torch down => rw [down]; rfl
  | wireOnTop up => rw [up]; rfl
  | wireBeside side => rw [side]; rfl
  | circuit side => rw [side]; rfl

theorem direction_cases (d : Direction) : d = .down ∨ d = .up ∨ ∃ f, d = .ofFacing f := by
  cases d with
  | down => exact .inl rfl
  | up => exact .inr (.inl rfl)
  | north => exact .inr (.inr ⟨.north, rfl⟩)
  | south => exact .inr (.inr ⟨.south, rfl⟩)
  | west => exact .inr (.inr ⟨.west, rfl⟩)
  | east => exact .inr (.inr ⟨.east, rfl⟩)

theorem relayedFrom_down {strong : Bool} : b.relayedFrom w q strong .down =
    .ok (if (w.block q.below).isTorch then [.torch q.below] else []) := rfl

theorem relayedFrom_up {strong : Bool} : b.relayedFrom w q strong .up =
    .ok (if strong = false ∧ (w.block q.above).isWire = true then [.wire q.above] else []) := by
  have unfolded : b.relayedFrom w q strong .up =
      .ok ((if !strong && (w.block q.above).isWire && true then [.wire q.above] else []) ++ []) :=
    rfl
  rw [unfolded]
  cases strong <;> simp

theorem relayedFrom_ofFacing {strong : Bool} : b.relayedFrom w q strong (.ofFacing f) = (do
    let wires ← .ok (if strong = false ∧ (w.block (q.toward f)).isWire = true ∧
      w.wirePoints (q.toward f) f.opposite = true then [.wire (q.toward f)] else [])
    let circuits ← (if (w.block (q.toward f)).isCircuit
      then b.circuitFeed w (q.toward f) f.opposite else .ok [])
    .ok (wires ++ circuits)) := by
  have unfolded : b.relayedFrom w q strong (.ofFacing f) = (do
      let wires ← .ok (if !strong && (w.block (q.toward f)).isWire &&
        w.wirePoints (q.toward f) f.opposite then [.wire (q.toward f)] else [])
      let circuits ← (if (w.block (q.toward f)).isCircuit
        then b.circuitFeed w (q.toward f) f.opposite else .ok [])
      .ok (wires ++ circuits)) := by
    cases f <;> rfl
  rw [unfolded]
  cases strong <;> simp

/-- From below only a torch powers a block. -/
theorem powerFrom_down_iff {strong : Bool} : b.PowerFrom w q strong .down s ↔
    b.TorchAt w q.below ∧ s = .torch q.below := by
  constructor
  · intro power
    cases power with
    | torch _ torch => exact ⟨torch, rfl⟩
    | wireOnTop up => cases up
    | @wireBeside f side => cases f <;> cases side
    | @circuit f _ side => cases f <;> cases side
  · rintro ⟨torch, rfl⟩
    exact .torch rfl torch

/-- From above only a wire powers a block. -/
theorem powerFrom_up_iff {strong : Bool} : b.PowerFrom w q strong .up s ↔
    strong = false ∧ b.WireAt w q.above ∧ s = .wire q.above := by
  constructor
  · intro power
    cases power with
    | torch down => cases down
    | wireOnTop _ weak wire => exact ⟨weak, wire, rfl⟩
    | @wireBeside f side => cases f <;> cases side
    | @circuit f _ side => cases f <;> cases side
  · rintro ⟨weak, wire, rfl⟩
    exact .wireOnTop rfl weak wire

/-- From a side a wire that points at the block powers it, or a circuit. -/
theorem powerFrom_ofFacing_iff {strong : Bool} : b.PowerFrom w q strong (.ofFacing f) s ↔
    (strong = false ∧ b.WireAt w (q.toward f) ∧ w.wirePoints (q.toward f) f.opposite = true ∧
      s = .wire (q.toward f)) ∨
    ∃ side, b.OutputAt w (q.toward f) f.opposite side ∧
      s = .circuitOutput (q.toward f) side := by
  constructor
  · intro power
    cases power with
    | torch down => cases f <;> cases down
    | wireOnTop up => cases f <;> cases up
    | wireBeside side weak wire points =>
      rw [Direction.ofFacing_inj] at side
      subst side
      exact .inl ⟨weak, wire, points, rfl⟩
    | circuit side output =>
      rw [Direction.ofFacing_inj] at side
      subst side
      exact .inr ⟨_, output, rfl⟩
  · rintro (⟨weak, wire, points, rfl⟩ | ⟨side, output, rfl⟩)
    · exact .wireBeside rfl weak wire points
    · exact .circuit rfl output

theorem finds_relayedFrom {strong : Bool} {d : Direction} :
    b.Finds w (b.relayedFrom w q strong d) (b.PowerFrom w q strong d) := by
  rcases direction_cases d with rfl | rfl | ⟨f, rfl⟩
  · -- from below
    rw [relayedFrom_down]
    exact lists_torch.finds.congr fun s => powerFrom_down_iff.symm
  · -- from above
    rw [relayedFrom_up]
    have genuine (wire : strong = false ∧ (w.block q.above).isWire = true) :
        (Feed.wire q.above).Genuine w := Block.isWire_iff.1 wire.2
    refine (Lists.ite (fun wire => .single (genuine wire)) fun _ => .nil).finds.congr fun s => ?_
    rw [powerFrom_up_iff, WireAt, ← Block.isWire_iff]
    simp only [Feed.position, Feed.terminal, and_false, or_false, and_assoc, and_left_comm]
  · -- from a side
    rw [relayedFrom_ofFacing]
    have genuine (wire : strong = false ∧ (w.block (q.toward f)).isWire = true ∧
        w.wirePoints (q.toward f) f.opposite = true) : (Feed.wire (q.toward f)).Genuine w :=
      Block.isWire_iff.1 wire.2.1
    refine ((Lists.ite (fun wire => .single (genuine wire)) fun _ => .nil).finds.append
      (Finds.ite finds_circuitFeed fun _ => Lists.nil.finds)).congr fun s => ?_
    rw [powerFrom_ofFacing_iff, WireAt, ← Block.isWire_iff]
    simp only [Feed.position, Feed.terminal, and_false, or_false, and_assoc, and_left_comm]
    -- Where there is no circuit there is no output of one.
    refine or_congr_right (and_iff_right_of_imp ?_)
    rintro ⟨side, output, -⟩
    exact output.isCircuit

/-- **What powers a full block is relayed**, if none of it stands where the power is asked for. -/
theorem finds_relayed {strong : Bool} {asking : Position} (full : (w.block q).conducts = true)
    (apart : ∀ s, b.PowerOf w q strong s → s.position? ≠ some asking) :
    b.Finds w (b.relayed w q strong asking) fun s =>
      b.covers q = true ∧ b.PowerOf w q strong s := by
  unfold relayed
  rw [if_pos full]
  refine (Finds.ite (fun _ => .flatMap fun d => finds_relayedFrom)
    fun _ => Lists.nil.finds).congr fun s => ?_
  rw [and_false, or_false]
  refine and_congr_right fun _ => ?_
  rw [powerOf_iff]
  refine ⟨?_, ?_⟩
  · -- what one direction finds is power of the block
    rintro ⟨d, -, power⟩
    exact ⟨d, power⟩
  · -- the direction that is left out would only find the component that asks
    rintro ⟨d, power⟩
    refine ⟨d, List.mem_filter.2 ⟨?_, ?_⟩, power⟩
    -- Every direction is asked but the one of the component that asks.
    · cases d <;> simp [Direction.all]
    · rw [bne_iff_ne]
      intro eq
      refine apart s (powerOf_iff.2 ⟨d, power⟩) ?_
      rw [power.position?, eq]

/-! ### Wires -/

/-- The wires that join a wire, as seen from it. -/
theorem joined_iff : w.Joined p q ↔ (∃ f, q = p.toward f) ∨
    (w.block p.above).conducts = false ∧ (∃ f, q = p.above.toward f) ∨
    ∃ f, (w.block (p.toward f)).conducts = false ∧ q = (p.toward f).below := by
  refine ⟨?_, ?_⟩
  · -- each way to be joined is one of the three places
    intro joined
    cases joined with
    | level _ f => exact .inl ⟨f, rfl⟩
    | up _ f uncovered => exact .inr (.inl ⟨uncovered, f, rfl⟩)
    -- The other wire is a step down, below the block beside this one.
    | down _ f uncovered =>
      refine .inr (.inr ⟨f.opposite, ?_, ?_⟩)
      · rwa [toward_opposite]
      · rw [toward_opposite, Position.above_below]
  · rintro (⟨f, rfl⟩ | ⟨uncovered, f, rfl⟩ | ⟨f, uncovered, rfl⟩)
    · exact .level p f
    · exact .up p f uncovered
    -- The lower wire is the other one, and this one stands a step up and across from it.
    · rw [← Position.below_above (p.toward f)] at uncovered
      have down := World.Joined.down (p.toward f).below f.opposite uncovered
      rwa [Position.below_above, toward_opposite] at down

theorem WireAt.not_conducts (h : b.WireAt w q) : (w.block q).conducts = false := by
  rw [h.2]
  rfl

/-- Nothing that powers a full block strongly is a wire. -/
theorem apart_of_wire (wire : b.WireAt w p) (power : b.PowerOf w q true s) :
    s.position? ≠ some p := by
  intro here
  have strong : b.StrongPower w q s := power
  -- A source of strong power is a torch or a circuit, and no wire is either.
  cases strong with
  | torch torch =>
    rw [Terminal.position?, Option.some.injEq] at here
    rw [here, TorchAt, wire.2] at torch
    cases torch.2
  | circuit output =>
    rw [Terminal.position?, Option.some.injEq] at here
    obtain ⟨facing, t, ⟨-, block, -⟩, -⟩ := output
    rw [here, wire.2] at block
    cases block

section Wire

variable (wire : b.WireAt w p)

include wire

theorem finds_relayed_wire {q : Position} (full : (w.block q).conducts = true) :
    b.Finds w (b.relayed w q true p) fun s => b.covers q = true ∧ b.StrongPower w q s :=
  finds_relayed full fun _ => apart_of_wire wire

theorem finds_belowFeeds : b.Finds w (b.belowFeeds w p) fun s =>
    b.FullAt w p.below ∧ b.StrongPower w p.below s := by
  refine (Finds.ite (finds_relayed_wire wire) fun _ => Lists.nil.finds).congr fun s => ?_
  rw [and_false, or_false, FullAt]
  refine ⟨?_, ?_⟩
  · rintro ⟨full, covered, power⟩
    exact ⟨⟨covered, full⟩, power⟩
  · rintro ⟨⟨covered, full⟩, power⟩
    exact ⟨full, covered, power⟩

theorem finds_aboveFeeds : b.Finds w (b.aboveFeeds w p) fun s =>
    b.FullAt w p.above ∧ b.StrongPower w p.above s ∨
      b.TorchAt w p.above ∧ s = .torch p.above ∨
      (w.block p.above).conducts = false ∧ ∃ f, b.WireAt w (p.above.toward f) ∧
        s = .wire (p.above.toward f) := by
  unfold aboveFeeds
  refine (Finds.ite (finds_relayed_wire wire)
    fun _ => (lists_torch.append (.flatMap fun f => lists_wireFeed)).finds).congr fun s => ?_
  rw [FullAt, Bool.not_eq_true]
  refine ⟨?_, ?_⟩
  · -- a full block above relays, any other lets a torch and the wires a step up through
    rintro (⟨full, covered, power⟩ | ⟨uncovered, torch | ⟨f, -, up⟩⟩)
    · exact .inl ⟨⟨covered, full⟩, power⟩
    · exact .inr (.inl torch)
    · exact .inr (.inr ⟨uncovered, f, up⟩)
  · rintro (⟨⟨covered, full⟩, power⟩ | ⟨torch, rfl⟩ | ⟨uncovered, f, up⟩)
    · exact .inl ⟨full, covered, power⟩
    -- A torch is no full block, so the second case of the list applies.
    · exact .inr ⟨Block.not_conducts_of_isTorch torch.2, .inl ⟨torch, rfl⟩⟩
    · exact .inr ⟨uncovered, .inr ⟨f, Facing.mem_all f, up⟩⟩

theorem finds_sideFeeds (f : Facing) : b.Finds w (b.sideFeeds w p f) fun s =>
    b.FullAt w (p.toward f) ∧ b.StrongPower w (p.toward f) s ∨
      b.Emits w (p.toward f) f.opposite s ∨
      b.WireAt w (p.toward f) ∧ s = .wire (p.toward f) ∨
      (w.block (p.toward f)).conducts = false ∧ b.WireAt w (p.toward f).below ∧
        s = .wire (p.toward f).below := by
  unfold sideFeeds
  refine (Finds.ite (finds_relayed_wire wire)
    fun _ => finds_directFeed.append lists_wireFeed.finds).congr fun s => ?_
  rw [FullAt, Bool.not_eq_true]
  refine ⟨?_, ?_⟩
  · -- a full block beside relays, and otherwise there is a component or a wire below
    rintro (⟨full, covered, power⟩ | ⟨uncovered, (level | emits) | down⟩)
    · exact .inl ⟨⟨covered, full⟩, power⟩
    · exact .inr (.inr (.inl level))
    · exact .inr (.inl emits)
    · exact .inr (.inr (.inr ⟨uncovered, down⟩))
  · rintro (⟨⟨covered, full⟩, power⟩ | emits | ⟨level, rfl⟩ | ⟨uncovered, down⟩)
    · exact .inl ⟨full, covered, power⟩
    -- Neither is a torch, a nested circuit or a wire beside it.
    · exact .inr ⟨emits.not_conducts, .inl (.inr emits)⟩
    · exact .inr ⟨level.not_conducts, .inl (.inl ⟨level, rfl⟩)⟩
    · exact .inr ⟨uncovered, .inr down⟩

/-- **The feeds of a wire** are what powers it, but for the input socket that it stands on. -/
theorem finds_wireFeeds : b.Finds w (b.wireFeeds w p) fun s =>
    b.Powers w s (.wire p) ∧ ∀ f, s ≠ .input f := by
  obtain ⟨below, belowFound, belowLists⟩ := finds_belowFeeds wire
  obtain ⟨above, aboveFound, aboveLists⟩ := finds_aboveFeeds wire
  have sides : b.Finds w (Facing.all.flatMapM (b.sideFeeds w p)) _ :=
    .flatMap (finds_sideFeeds wire)
  unfold wireFeeds
  rw [belowFound, aboveFound]
  refine ((belowLists.append aboveLists).finds.append sides).congr fun s => ?_
  -- Wires power each other, so it does not matter which of them is asked.
  have join {q : Position} (other : b.WireAt w q) (joined : w.Joined p q) :
      b.Powers w (.wire q) (.wire p) ∧ ∀ f, Terminal.wire q ≠ .input f :=
    ⟨.wires other wire (joined_symm joined), fun _ => Terminal.noConfusion⟩
  -- What comes through a full block is strong power, and so no input.
  have through {d : Direction} {s : Terminal} (full : b.FullAt w (p.step d))
      (power : b.StrongPower w (p.step d) s) : b.Powers w s (.wire p) ∧ ∀ f, s ≠ .input f :=
    ⟨.wireThrough wire full power, fun _ => Terminal.ne_input_of_isSource power.isSource⟩
  refine ⟨?_, ?_⟩
  · -- below, above and the four sides, in the order that the lists come in
    rintro ((⟨full, power⟩ | ⟨full, power⟩ | ⟨torch, rfl⟩ | ⟨uncovered, f, other, rfl⟩) |
      ⟨f, -, ⟨full, power⟩ | emits | ⟨other, rfl⟩ | ⟨uncovered, other, rfl⟩⟩)
    · exact through full power
    · exact through full power
    · exact ⟨.torchAbove wire torch, fun _ => Terminal.noConfusion⟩
    · exact join other (joined_iff.2 (.inr (.inl ⟨uncovered, f, rfl⟩)))
    · exact through full power
    · exact ⟨.wireBeside wire emits, fun _ => Terminal.ne_input_of_isSource emits.isSource⟩
    · exact join other (joined_iff.2 (.inl ⟨f, rfl⟩))
    · exact join other (joined_iff.2 (.inr (.inr ⟨f, uncovered, rfl⟩)))
  · -- each way to power a wire is in one of the lists
    rintro ⟨power, plain⟩
    cases power with
    | input _ _ _ => exact absurd rfl (plain _)
    | wires other _ joined =>
      rcases joined_iff.1 (joined_symm joined) with
        ⟨f, rfl⟩ | ⟨uncovered, f, rfl⟩ | ⟨f, uncovered, rfl⟩
      · exact .inr ⟨f, Facing.mem_all f, .inr (.inr (.inl ⟨other, rfl⟩))⟩
      · exact .inl (.inr (.inr (.inr ⟨uncovered, f, other, rfl⟩)))
      · exact .inr ⟨f, Facing.mem_all f, .inr (.inr (.inr ⟨uncovered, other, rfl⟩))⟩
    | torchAbove _ torch => exact .inl (.inr (.inr (.inl ⟨torch, rfl⟩)))
    | @wireBeside _ f _ _ emits => exact .inr ⟨f, Facing.mem_all f, .inr (.inl emits)⟩
    | @wireThrough _ d _ _ full power =>
      rcases direction_cases d with rfl | rfl | ⟨f, rfl⟩
      · exact .inl (.inl ⟨full, power⟩)
      · exact .inl (.inr (.inl ⟨full, power⟩))
      · exact .inr ⟨f, Facing.mem_all f, .inl ⟨full, power⟩⟩

end Wire

/-! ### Torches, nested circuits and output sockets -/

theorem torchSupport_y_le (w : World) (p : Position) : (torchSupport w p).y ≤ p.y := by
  unfold torchSupport
  split
  · exact Int.le_of_eq (Position.toward_y p _)
  · rw [Position.below_y]
    omega

/-- Nothing that powers the support of a torch is the torch. -/
theorem apart_of_torch (torch : b.TorchAt w p) (power : b.PowerOf w (torchSupport w p) false s) :
    s.position? ≠ some p := by
  intro here
  have any : b.AnyPower w (torchSupport w p) s := power
  -- A wire is no torch, so it stands elsewhere.
  have wire {q : Position} (other : b.WireAt w q) (eq : q = p) : False := by
    rw [← eq, TorchAt, other.2] at torch
    cases torch.2
  cases any with
  | strong strong =>
    cases strong with
    | torch _ =>
      -- A torch that powers the support is below it, and so below this one.
      rw [Terminal.position?, Option.some.injEq] at here
      have height := congrArg Position.y here
      rw [Position.below_y] at height
      have := torchSupport_y_le w p
      omega
    | circuit output =>
      -- and neither is a circuit
      rw [Terminal.position?, Option.some.injEq] at here
      obtain ⟨facing, t, ⟨-, block, -⟩, -⟩ := output
      rw [here] at block
      rw [TorchAt, block] at torch
      cases torch.2
  | wireOnTop other => exact wire other (Option.some.inj here)
  | wireBeside other _ => exact wire other (Option.some.inj here)

/-- **The feeds of a torch** are what powers it. -/
theorem finds_torchFeeds (torch : b.TorchAt w p) :
    b.Finds w (b.torchFeeds w p) fun s => b.Powers w s (.torch p) := by
  refine (Finds.ite (fun full => finds_relayed full fun _ => apart_of_torch torch)
    fun _ => Lists.nil.finds).congr fun s => ?_
  rw [and_false, or_false]
  refine ⟨?_, ?_⟩
  · rintro ⟨full, covered, power⟩
    exact .torch torch ⟨covered, full⟩ power
  · intro power
    cases power with
    | torch _ full power => exact ⟨full.2, full.1, power⟩

/-- Nothing that powers the block that an input side of a nested circuit looks at is the circuit:
the side that looks there is no output. -/
theorem apart_of_circuit {facing : Facing} {t : TruthTable} {side : Side}
    (circuit : b.CircuitAt w p facing t) (input : side ∈ t.inputs)
    (power : b.PowerOf w (p.toward (side.absolute facing)) false s) : s.position? ≠ some p := by
  intro here
  have any : b.AnyPower w (p.toward (side.absolute facing)) s := power
  -- A wire is no circuit, so it stands elsewhere.
  have wire {q : Position} (other : b.WireAt w q) (eq : q = p) : False := by
    have block := other.2
    rw [eq, circuit.2.1] at block
    cases block
  cases any with
  | strong strong =>
    cases strong with
    | torch _ =>
      -- a torch below the block beside the circuit is lower than the circuit
      rw [Terminal.position?, Option.some.injEq] at here
      have height := congrArg Position.y here
      rw [Position.below_y, Position.toward_y] at height
      omega
    | @circuit f side' output =>
      rw [Terminal.position?, Option.some.injEq] at here
      obtain ⟨facing', t', circuit', output, looks⟩ := output
      rw [here] at circuit'
      obtain ⟨rfl, rfl⟩ := circuit.unique circuit'
      -- The circuit would have to look back at the block by a side that is an input already.
      have back : f = (side.absolute facing).opposite := by
        refine Position.toward_inj (p.toward (side.absolute facing)) ?_
        rw [here, toward_opposite]
      rw [back, Facing.opposite_opposite] at looks
      have same : side' = side := by
        rw [← Side.relative_absolute facing side', looks, Side.relative_absolute]
      rw [same] at output
      exact t.not_mem_outputs input output
  | wireOnTop other => exact wire other (Option.some.inj here)
  | wireBeside other _ => exact wire other (Option.some.inj here)

/-- **The feeds of an input side of a nested circuit** are what powers it. -/
theorem finds_circuitFeeds {facing : Facing} {t : TruthTable} {side : Side}
    (circuit : b.CircuitAt w p facing t) (input : side ∈ t.inputs) :
    b.Finds w (b.circuitFeeds w p facing side) fun s => b.Powers w s (.circuitInput p side) := by
  refine (Finds.ite (fun _ => Finds.ite (fun full => finds_relayed full fun _ =>
    apart_of_circuit circuit input) fun _ => finds_directFeed)
    fun _ => Lists.nil.finds).congr fun s => ?_
  rw [and_false, or_false, Bool.not_eq_true]
  refine ⟨?_, ?_⟩
  · -- what is found powers the side
    rintro ⟨_, ⟨full, covered, power⟩ | ⟨-, ⟨wire, rfl⟩ | emits⟩⟩
    · exact .circuitThrough circuit input ⟨covered, full⟩ power
    · exact .circuitWire circuit input wire
    · exact .circuitBeside circuit input emits
  · -- the circuit is the one that stands here, so its side looks at the same block
    intro power
    cases power with
    | circuitThrough circuit' _ full power =>
      obtain ⟨rfl, rfl⟩ := circuit.unique circuit'
      exact ⟨full.1, .inl ⟨full.2, full.1, power⟩⟩
    | circuitWire circuit' _ wire =>
      obtain ⟨rfl, rfl⟩ := circuit.unique circuit'
      exact ⟨wire.1, .inr ⟨wire.not_conducts, .inl ⟨wire, rfl⟩⟩⟩
    | circuitBeside circuit' _ emits =>
      obtain ⟨rfl, rfl⟩ := circuit.unique circuit'
      exact ⟨emits.covers, .inr ⟨emits.not_conducts, .inr emits⟩⟩

/-- **The feeds of an output socket** are what powers it. -/
theorem lists_outputFeeds (role : b.role f = .output) :
    b.Lists w ((socketBlocks b.corner f).flatMap fun q => wireFeed w q.above) fun s =>
      b.Powers w s (.output f) := by
  refine (Lists.flatMap fun q => lists_wireFeed).congr fun s => ?_
  refine ⟨?_, ?_⟩
  · rintro ⟨q, mem, wire, rfl⟩
    exact .output role (by rwa [Position.above_below]) wire
  · intro power
    cases power with
    | @output _ p _ mem wire =>
      refine ⟨p.below, mem, ?_⟩
      rw [Position.below_above]
      exact ⟨wire, rfl⟩

end Board

end TorchLogic
