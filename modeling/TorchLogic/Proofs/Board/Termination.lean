import Mathlib.Data.List.Perm.Subperm
import Mathlib.Data.Set.Card
import TorchLogic.Proofs.Board.Calls
import TorchLogic.Proofs.Board.Trace
import TorchLogic.Proofs.Netlist.Consistency

/-!
# Tracing ends

Wires, torches and nested circuits may feed each other in circles, and the area above a board has no
upper end. Tracing ends all the same (`Board.exists_traceWithin`).

1. Calls that pass on make few calls, and only of a lower rank (`Call.rank`,
   `Board.bounded_passedOn`). A call for a component makes calls of any rank, but only if it visits
   its position first.
2. What is true at any time while a board is traced (`Board.Sound`) tells that positions are visited
   first at most once, and only where a component stands in the area. So there are no more first
   visits than components, and what a call comes to by itself (`Board.Stepped`) leaves a position
   less to visit, or calls of a lower rank.
3. Four times the number of unvisited components and the rank of a call bound how deep it goes. So a
   whole call ends, and does what following its feeds does (`Board.completes`), and what is traced
   by calls is what `Board.trace` gives.
-/

namespace TorchLogic

/-- **The number of wires, torches and nested circuits in a world.** -/
def World.componentCount (w : World) : Nat := w.positions.countP fun p => (w.block p).isComponent

/-- No component is counted twice, and none is left out. -/
theorem World.ncard_components (w : World) :
    {p | (w.block p).isComponent = true}.ncard = w.componentCount := by
  have nodup : w.positions.Nodup := Std.HashMap.nodup_keys
  -- A component is not air, so its position is listed.
  have all : {p | (w.block p).isComponent = true} =
      ((w.positions.filter fun p => (w.block p).isComponent).toFinset : Set Position) := by
    ext p
    rw [List.coe_toFinset, Set.mem_ofPred_eq, Set.mem_ofPred_eq, List.mem_filter]
    refine ⟨fun component => ⟨World.mem_positions fun air => ?_, component⟩, And.right⟩
    rw [air] at component
    cases component
  calc {p | (w.block p).isComponent = true}.ncard
      = (w.positions.filter fun p => (w.block p).isComponent).toFinset.card := by
        rw [all, Set.ncard_coe_finset]
    _ = (w.positions.filter fun p => (w.block p).isComponent).length :=
        List.toFinset_card_of_nodup (nodup.filter _)
    _ = w.componentCount := List.countP_eq_length_filter.symm

/-- The rank of a call. Calls that pass on make calls of a lower rank only. -/
def Call.rank : Call → Nat
  | wire _ _ | torch _ _ | circuitOutput _ _ _ _ _ => 1
  | circuitFacing _ _ _ => 2
  | inwards _ _ _ | allPowering _ _ _ _ => 3
  | circuitInput _ _ _ _ => 4

/-- The most calls that a call of some rank leads to, with itself, as long as nothing is visited
first. -/
def callsOfRank : Nat → Nat
  | 0 | 1 => 1
  | 2 => 2
  | 3 => 13
  | _ => 14

/-- **Calls with bounds** on their ranks and on their number, where each call for a component has
one. -/
structure BoundedCalls (w : World) (calls : List Call) (rank count : Nat) : Prop where
  grounded : ∀ c ∈ calls, c.Grounded w
  rank_le : ∀ c ∈ calls, c.rank ≤ rank
  length_le : calls.length ≤ count

namespace BoundedCalls

variable {w : World} {calls calls' : List Call} {rank rank' count count' : Nat}

theorem nil : BoundedCalls w [] rank count where
  grounded := fun _ mem => by cases mem
  rank_le := fun _ mem => by cases mem
  length_le := Nat.zero_le count

theorem single {call : Call} (grounded : call.Grounded w) (le : call.rank ≤ rank) :
    BoundedCalls w [call] rank 1 where
  grounded := by
    intro c mem
    rwa [List.mem_singleton.1 mem]
  rank_le := by
    intro c mem
    rwa [List.mem_singleton.1 mem]
  length_le := Nat.le_refl 1

theorem mono (h : BoundedCalls w calls rank count) (ranks : rank ≤ rank')
    (counts : count ≤ count') : BoundedCalls w calls rank' count' where
  grounded := h.grounded
  rank_le := fun c mem => (h.rank_le c mem).trans ranks
  length_le := h.length_le.trans counts

theorem append (h : BoundedCalls w calls rank count) (h' : BoundedCalls w calls' rank count') :
    BoundedCalls w (calls ++ calls') rank (count + count') where
  grounded := fun c mem => (List.mem_append.1 mem).elim (h.grounded c) (h'.grounded c)
  rank_le := fun c mem => (List.mem_append.1 mem).elim (h.rank_le c) (h'.rank_le c)
  length_le := by
    rw [List.length_append]
    exact Nat.add_le_add h.length_le h'.length_le

theorem flatMap {α : Type} {l : List α} {make : α → List Call}
    (h : ∀ a, BoundedCalls w (make a) rank count) :
    BoundedCalls w (l.flatMap make) rank (l.length * count) := by
  induction l with
  | nil => exact nil
  | cons a rest ih =>
    rw [List.flatMap_cons, List.length_cons, Nat.succ_mul, Nat.add_comm]
    exact (h a).append ih

theorem ite {c : Prop} [Decidable c] (h : c → BoundedCalls w calls rank count)
    (h' : ¬ c → BoundedCalls w calls' rank count) :
    BoundedCalls w (if c then calls else calls') rank count := by
  split
  · exact h ‹_›
  · exact h' ‹_›

end BoundedCalls

namespace Board

variable {b : Board} {w : World} {inputs : List (Facing × NodeId)} {target id : Nat} {p : Position}

/-! ### How many calls are made -/

theorem bounded_wireCall : BoundedCalls w (wireCall w target p) 1 1 :=
  .ite (fun wire => .single wire (Nat.le_refl 1)) fun _ => .nil

theorem bounded_torchCall : BoundedCalls w (torchCall w target p) 1 1 :=
  .ite (fun torch => .single torch (Nat.le_refl 1)) fun _ => .nil

/-- A neighbour is a torch, a wire or a nested circuit, but not two of them. -/
theorem bounded_neighbourCalls (strong : Bool) (d : Direction) :
    BoundedCalls w (neighbourCalls w target p strong d) 2 1 := by
  have wire {c : Bool} {q : Position} (isWire : c = true → (w.block q).isWire = true) :
      BoundedCalls w (if c then [.wire target q] else []) 2 1 :=
    .ite (fun yes => .single (isWire yes) (Nat.le_succ 1)) fun _ => .nil
  have none : BoundedCalls w [] 2 0 := .nil
  have of_and {x y z : Bool} (all : (x && y && z) = true) : y = true := by
    rw [Bool.and_eq_true, Bool.and_eq_true] at all
    exact all.1.2
  rcases direction_cases d with rfl | rfl | ⟨f, rfl⟩
  · exact bounded_torchCall.mono (Nat.le_succ 1) (Nat.le_refl 1)
  · exact (wire of_and).append none
  · rw [neighbourCalls_ofFacing]
    -- A block is not a circuit and a wire at once, so there is one call at the most.
    by_cases circuit : (w.block (p.toward f)).isCircuit = true
    · obtain ⟨facing, block⟩ := Block.isCircuit_iff.1 circuit
      have other : (w.block (p.toward f)).isWire = false := by
        rw [block]
        rfl
      rw [if_pos circuit, other, Bool.and_false, Bool.false_and, if_neg Bool.false_ne_true,
        List.nil_append]
      exact .single trivial (Nat.le_refl 2)
    · rw [if_neg circuit]
      exact (wire of_and).append none

theorem bounded_poweringCalls {strong : Bool} {asking : Position} {calls : List Call}
    (made : b.poweringCalls w target p strong asking = .ok calls) : BoundedCalls w calls 2 6 := by
  unfold poweringCalls at made
  split at made
  · split at made
    · cases made
      have few : (Direction.all.filter fun d => p.step d != asking).length * 1 ≤ 6 := by
        rw [Nat.mul_one]
        exact List.length_filter_le _ Direction.all
      exact (BoundedCalls.flatMap (bounded_neighbourCalls strong)).mono (Nat.le_refl 2) few
    · cases made
  · cases made
    exact .nil

theorem bounded_inwardsCalls (d : Direction) :
    BoundedCalls w (b.inwardsCalls w target p d) 2 1 := by
  unfold inwardsCalls
  refine .ite (fun _ => ?_) fun _ => .nil
  cases block : w.block p with
  | wire => exact .single (Block.isWire_iff.2 block) (Nat.le_succ 1)
  | torch | wallTorch =>
    refine .single (show (w.block p).isTorch = true from ?_) (Nat.le_succ 1)
    rw [block]
    rfl
  | circuit facing =>
    dsimp only
    split
    · exact .single trivial (Nat.le_refl 2)
    · exact .nil
  | air | solid | breadboard => exact .nil

theorem bounded_circuitInputCalls (circuit : Position) (d : Direction) :
    BoundedCalls w (b.circuitInputCalls w target p circuit d) 3 1 :=
  .ite (fun _ => .ite (fun _ => .single trivial (Nat.le_refl 3))
      fun _ => .single trivial (Nat.le_refl 3))
    fun _ => .nil

theorem bounded_facingCalls {looking : Facing} {calls : List Call}
    (made : b.facingCalls w target p looking = .ok calls) : BoundedCalls w calls 1 1 := by
  unfold facingCalls at made
  split at made
  · split at made
    case h_1 facing block =>
      split at made
      · -- outside the board
        cases made
        exact .ite (fun _ => .single block (Nat.le_refl 1)) fun _ => .nil
      · cases made
        exact .nil
    case h_2 => cases made
  · cases made
    exact .nil

theorem bounded_wireCalls : BoundedCalls w (wireCalls w target p) 3 14 := by
  have through (q : Position) : BoundedCalls w [.allPowering target q true p] 3 1 :=
    .single trivial (Nat.le_refl 3)
  have below : BoundedCalls w (belowCalls w target p) 3 1 := .ite (fun _ => through _) fun _ => .nil
  have steps :
      BoundedCalls w (Facing.all.flatMap fun f => wireCall w target (p.above.toward f)) 1 4 :=
    .flatMap fun _ => bounded_wireCall
  have above : BoundedCalls w (aboveCalls w target p) 3 5 :=
    .ite (fun _ => (through _).mono (Nat.le_refl 3) (by decide))
      fun _ => (bounded_torchCall.append steps).mono (by decide) (Nat.le_refl 5)
  have side (f : Facing) : BoundedCalls w (sideCalls w target p f) 3 2 := by
    have beside : BoundedCalls w [.inwards target (p.toward f) (.ofFacing f)] 3 1 :=
      .single trivial (Nat.le_refl 3)
    exact .ite (fun _ => (through _).mono (Nat.le_refl 3) (by decide))
      fun _ => beside.append (bounded_wireCall.mono (by decide) (Nat.le_refl 1))
  -- One call below, five above and two on each of four sides.
  exact (below.append above).append (.flatMap side)

theorem bounded_torchCalls : BoundedCalls w (torchCalls w target p) 3 1 :=
  .ite (fun _ => .single trivial (Nat.le_refl 3)) fun _ => .nil

theorem bounded_circuitCalls (facing : Facing) (children : List (Side × NodeId)) :
    BoundedCalls w (circuitCalls p facing children) 4 children.length where
  grounded := by
    intro c mem
    obtain ⟨child, -, rfl⟩ := List.mem_map.1 mem
    trivial
  rank_le := by
    intro c mem
    obtain ⟨child, -, rfl⟩ := List.mem_map.1 mem
    exact Nat.le_refl 4
  length_le := Nat.le_of_eq (List.length_map _)

/-- **A call that passes on** makes few calls, and of a lower rank. -/
theorem bounded_passedOn {call : Call} {calls : List Call} (passes : call.visits = false)
    (made : b.passedOn w call = .ok calls) : ∃ rank count, BoundedCalls w calls rank count ∧
      rank < call.rank ∧ count * callsOfRank rank < callsOfRank call.rank ∧ count ≤ 14 := by
  cases call with
  | circuitInput target p circuit d =>
    cases made
    exact ⟨3, 1, bounded_circuitInputCalls circuit d, (by decide : 3 < 4),
      (by decide : 1 * callsOfRank 3 < callsOfRank 4), by decide⟩
  | allPowering target p strong asking =>
    exact ⟨2, 6, bounded_poweringCalls made, (by decide : 2 < 3),
      (by decide : 6 * callsOfRank 2 < callsOfRank 3), by decide⟩
  | inwards target p d =>
    cases made
    exact ⟨2, 1, bounded_inwardsCalls d, (by decide : 2 < 3),
      (by decide : 1 * callsOfRank 2 < callsOfRank 3), by decide⟩
  | circuitFacing target p looking =>
    exact ⟨1, 1, bounded_facingCalls made, (by decide : 1 < 2),
      (by decide : 1 * callsOfRank 1 < callsOfRank 2), by decide⟩
  | wire | torch | circuitOutput => cases passes

/-! ### What a visit does -/

/-- A nested circuit has four sides. -/
theorem length_circuitInputs_le {g : Netlist .wired} (h : g.WellFormed)
    {children : List (Side × NodeId)}
    (listed : g.circuitInputs id = .ok children) : children.length ≤ 4 := by
  obtain ⟨t, table, eq⟩ := of_bind_eq_ok listed
  obtain rfl := Except.ok.inj eq
  have owned : g.component? id = some (.circuit t) := by
    obtain ⟨c, here, table⟩ := of_bind_eq_ok table
    cases c with
    | circuit t' =>
      cases table
      exact Netlist.component_eq_ok_iff.1 here
    | _ => cases table
  -- A side is an input once, and there are four sides.
  calc (List.filterMap _ (g.drivers id)).length
      ≤ (g.drivers id).length := List.length_filterMap_le _ _
    _ = t.inputs.length := by rw [h.drivers_circuit owned, List.length_map, List.length_range]
    _ ≤ Side.all.length := (t.inputs_nodup.subperm fun side _ => Side.mem_all side).length_le

section Visit

variable {call : Call} {feed : Feed} {st st₁ : Tracing} {calls : List Call} {g g' : Netlist .wired}
  {nested : Netlist .wired → NodeId → Except BuildError (List Call)}

theorem attach_wellFormed (h : g.WellFormed) (ok : attach g id feed target = .ok g') :
    g'.WellFormed := by
  cases feed with
  | wire p =>
    rw [attach] at ok
    split at ok
    · exact h.joinWires ok
    · exact h.connect ok
  | torch p => exact h.connect ok
  | circuit p table side =>
    obtain ⟨output, -, ok⟩ := of_bind_eq_ok ok
    exact h.connect ok

theorem attachInput_wellFormed (h : g.WellFormed) (ok : b.attachInput inputs g id feed = .ok g') :
    g'.WellFormed := by
  cases feed with
  | wire p =>
    rw [attachInput] at ok
    split at ok
    · exact h.connect ok
    · cases ok
      exact h
  | torch p | circuit p table side =>
    cases ok
    exact h

theorem addNode_wellFormed (h : g.WellFormed) {n : NodeId × Netlist .wired}
    (ok : addNode g feed = .ok n) : n.2.WellFormed := by
  obtain ⟨g', added, adds⟩ := addNode_eq h feed
  rw [added] at ok
  cases ok
  exact adds.wf

/-- **What a call for a component does by itself.** Either it visits nothing first, and makes no
calls; or the position is in the area and new, and is put on record as visited. -/
theorem visit_cases (visited : b.visit inputs call target feed nested st = .ok (st₁, calls)) :
    (calls = [] ∧ ∃ g, st₁ = { st with netlist := g }.pass call [] ∧
      (g = st.netlist ∨ ∃ id, attach st.netlist id feed target = .ok g)) ∨
    (b.covers feed.position = true ∧ nodeAt? st.visited feed.position = none ∧
      ∃ n g₁ g₂, addNode st.netlist feed = .ok n ∧ attach n.2 n.1 feed target = .ok g₁ ∧
        b.attachInput inputs g₁ n.1 feed = .ok g₂ ∧ nested g₂ n.1 = .ok calls ∧
        st₁ = ⟨g₂, (feed.position, n.1) :: st.visited, ⟨call, true, calls⟩ :: st.made⟩) := by
  unfold visit at visited
  split at visited
  case isTrue covered =>
    split at visited
    case h_1 id here =>
      -- the component was visited already
      obtain ⟨g, attached, eq⟩ := of_bind_eq_ok visited
      cases eq
      exact .inl ⟨rfl, g, rfl, .inr ⟨id, of_mapError_eq_ok attached⟩⟩
    case h_2 fresh =>
      -- the first visit
      obtain ⟨n, added, visited⟩ := of_bind_eq_ok visited
      obtain ⟨g₁, attached, visited⟩ := of_bind_eq_ok visited
      obtain ⟨g₂, connected, visited⟩ := of_bind_eq_ok visited
      obtain ⟨calls', made, eq⟩ := of_bind_eq_ok visited
      cases eq
      exact .inr ⟨covered, fresh, n, g₁, g₂, of_mapError_eq_ok added, of_mapError_eq_ok attached,
        of_mapError_eq_ok connected, made, rfl⟩
  case isFalse =>
    cases visited
    exact .inl ⟨rfl, st.netlist, rfl, .inl rfl⟩

/-! ### What a call does by itself -/

/-- **What is true at any time while a board is traced by calls.** -/
structure Sound (b : Board) (w : World) (st : Tracing) : Prop where
  /-- The netlist is well formed. -/
  wf : st.netlist.WellFormed
  /-- Each first visit has put its position among those that were visited. -/
  firsts : (st.made.filter (·.first)).map (·.call.position) = st.visited.map Prod.fst
  /-- No position was visited first twice. -/
  distinct : (st.visited.map Prod.fst).Nodup
  /-- What was visited is a component in the area. -/
  placed : ∀ e ∈ st.visited, b.covers e.1 = true ∧ (w.block e.1).isComponent = true
  /-- There are no more positions to visit than components. -/
  room : st.visited.length + unvisited w st.visited ≤ w.componentCount
  /-- No call makes many calls. -/
  few : ∀ e ∈ st.made, e.nested.length ≤ 14

theorem Sound.pass (h : Sound b w st) (wf : g.WellFormed) (call : Call) (few : calls.length ≤ 14) :
    Sound b w ({ st with netlist := g }.pass call calls) where
  wf := wf
  firsts := h.firsts
  distinct := h.distinct
  placed := h.placed
  room := h.room
  few := List.forall_mem_cons.2 ⟨few, h.few⟩

theorem Sound.firstVisit (h : Sound b w st) (wf : g.WellFormed) (few : calls.length ≤ 14)
    (about : call.position = p) (covered : b.covers p = true)
    (component : (w.block p).isComponent = true) (fresh : nodeAt? st.visited p = none) :
    Sound b w ⟨g, (p, id) :: st.visited, ⟨call, true, calls⟩ :: st.made⟩ where
  wf := wf
  firsts := congrArg₂ List.cons about h.firsts
  distinct := by
    refine List.nodup_cons.2 ⟨fun mem => ?_, h.distinct⟩
    obtain ⟨e, visited, eq⟩ := List.mem_map.1 mem
    exact absurd eq.symm (bne_iff_ne.1 (List.lookup_eq_none_iff.1 fresh e visited))
  placed := List.forall_mem_cons.2 ⟨⟨covered, component⟩, h.placed⟩
  room := by
    have less : unvisited w ((p, id) :: st.visited) < unvisited w st.visited :=
      unvisited_cons_lt component fresh
    have room := h.room
    show st.visited.length + 1 + unvisited w ((p, id) :: st.visited) ≤ _
    omega
  few := List.forall_mem_cons.2 ⟨few, h.few⟩

/-- The most calls that a first visit leads to, without itself and without other first visits. -/
def visitCost : Nat := 14 * callsOfRank 3

/-- **What a call comes to by itself**, and what the calls that it makes are like. Either there is a
position less to visit, which is worth four ranks and as many calls as a first visit leads to, or
the calls are of a lower rank. -/
structure Stepped (b : Board) (w : World) (call : Call) (st st₁ : Tracing)
    (calls : List Call) : Prop where
  sound : Sound b w st₁
  unvisited_le : unvisited w st₁.visited ≤ unvisited w st.visited
  bounded : ∃ rank count, BoundedCalls w calls rank count ∧
    4 * unvisited w st₁.visited + rank < 4 * unvisited w st.visited + call.rank ∧
    st₁.made.length + visitCost * unvisited w st₁.visited + count * callsOfRank rank ≤
      st.made.length + visitCost * unvisited w st.visited + callsOfRank call.rank

theorem Stepped.of_visit (h : Sound b w st) (grounded : call.Grounded w)
    (visits : call.visits = true) (about : call.position = feed.position)
    (calm : ∀ g id calls, g.WellFormed → nested g id = .ok calls →
      ∃ rank count, BoundedCalls w calls rank count ∧ rank ≤ 4 ∧ count ≤ 14 ∧
        count * callsOfRank rank ≤ visitCost)
    (visited : b.visit inputs call target feed nested st = .ok (st₁, calls)) :
    Stepped b w call st st₁ calls := by
  have lowest : call.rank = 1 := by cases call <;> first | rfl | cases visits
  have component : (w.block feed.position).isComponent = true := about ▸ grounded.isComponent visits
  rcases visit_cases visited with ⟨rfl, g, rfl, same⟩ |
    ⟨covered, fresh, n, g₁, g₂, added, attached, connected, made, rfl⟩
  -- Outside the area, or visited before: there is nothing to pay for.
  · have wf : g.WellFormed := by
      rcases same with rfl | ⟨id, attached⟩
      · exact h.wf
      · exact attach_wellFormed h.wf attached
    refine ⟨h.pass wf call (Nat.zero_le 14), Nat.le_refl _, 0, 0, .nil, ?_, ?_⟩
    · rw [lowest]
      exact Nat.lt_succ_self _
    · rw [lowest]
      show st.made.length + 1 + visitCost * unvisited w st.visited + 0 * callsOfRank 0 ≤ _ + 1
      omega
  · -- a first visit, which leaves one position less to be visited
    have wf : g₂.WellFormed :=
      attachInput_wellFormed (attach_wellFormed (addNode_wellFormed h.wf added) attached) connected
    obtain ⟨rank, count, bounded, low, few, cost⟩ := calm g₂ n.1 calls wf made
    have less : unvisited w ((feed.position, n.1) :: st.visited) < unvisited w st.visited :=
      unvisited_cons_lt component fresh
    have sound : Sound b w ⟨g₂, (feed.position, n.1) :: st.visited,
        ⟨call, true, calls⟩ :: st.made⟩ :=
      h.firstVisit wf (bounded.length_le.trans few) about covered component fresh
    refine ⟨sound, less.le, rank, count, bounded, ?_, ?_⟩
    · rw [lowest]
      show 4 * unvisited w ((feed.position, n.1) :: st.visited) + rank < _
      omega
    -- The position that is not left to be visited any more pays for the calls.
    · have paid := Nat.mul_le_mul_left visitCost less
      rw [lowest]
      show st.made.length + 1 + visitCost * unvisited w
        ((feed.position, n.1) :: st.visited) + _ ≤ _ + 1
      rw [Nat.mul_succ] at paid
      omega

theorem Stepped.of_enter (h : Sound b w st) (grounded : call.Grounded w)
    (entered : b.enter w inputs call st = .ok (st₁, calls)) : Stepped b w call st st₁ calls := by
  -- A call that passes on leaves as much to visit as there was, and pays for its calls with its
  -- rank.
  have passes_on (passes : call.visits = false) : Stepped b w call st st₁ calls := by
    rw [enter_of_passes passes] at entered
    obtain ⟨nested, made, eq⟩ := of_bind_eq_ok entered
    obtain ⟨rfl, rfl⟩ := Prod.mk.inj (Except.ok.inj eq)
    obtain ⟨rank, count, bounded, lower, cost, few⟩ := bounded_passedOn passes made
    refine ⟨h.pass h.wf call (bounded.length_le.trans few), Nat.le_refl _, rank, count, bounded,
      Nat.add_lt_add_left lower _, ?_⟩
    show st.made.length + 1 + visitCost * unvisited w st.visited + _ ≤ _
    omega
  cases call with
  | wire target p =>
    -- The visits of the three kinds of components, each with the calls that it makes.
    rw [enter] at entered
    refine Stepped.of_visit h grounded rfl rfl (fun g id calls _ made => ?_) entered
    cases made
    exact ⟨3, 14, bounded_wireCalls, by decide, by decide, by decide⟩
  | torch target p =>
    rw [enter] at entered
    refine Stepped.of_visit h grounded rfl rfl (fun g id calls _ made => ?_) entered
    cases made
    exact ⟨3, 1, bounded_torchCalls, by decide, by decide, by decide⟩
  | circuitOutput target p facing table side =>
    rw [enter] at entered
    refine Stepped.of_visit h grounded rfl rfl (fun g id calls wf made => ?_) entered
    obtain ⟨children, listed, eq⟩ := of_bind_eq_ok made
    cases eq
    have four := length_circuitInputs_le wf (of_mapError_eq_ok listed)
    exact ⟨4, 4, (bounded_circuitCalls facing children).mono (Nat.le_refl 4) four,
      by decide, by decide, by decide⟩
  | circuitInput | allPowering | inwards | circuitFacing => exact passes_on rfl

end Visit

/-! ### Whole calls -/

/-- **What tracing has come to since an earlier time**: first visits aside, it made some number of
calls at most. -/
structure Settled (b : Board) (w : World) (st st' : Tracing) (n : Nat) : Prop where
  sound : Sound b w st'
  unvisited_le : unvisited w st'.visited ≤ unvisited w st.visited
  made_le : st'.made.length + visitCost * unvisited w st'.visited ≤
    st.made.length + visitCost * unvisited w st.visited + n

section Run

variable {call : Call} {calls : List Call} {feeds : List (NodeId × Feed)} {st st₁ st' : Tracing}
  {r : Netlist .wired × List (Position × NodeId)} {depth rank n m : Nat}

theorem Settled.refl (h : Sound b w st) : Settled b w st st 0 := ⟨h, Nat.le_refl _, Nat.le_refl _⟩

theorem Settled.trans (h : Settled b w st st₁ n) (h' : Settled b w st₁ st' m) :
    Settled b w st st' (n + m) where
  sound := h'.sound
  unvisited_le := h'.unvisited_le.trans h.unvisited_le
  made_le := by
    have first := h.made_le
    have second := h'.made_le
    omega

theorem Settled.mono (h : Settled b w st st' n) (le : n ≤ m) : Settled b w st st' m where
  sound := h.sound
  unvisited_le := h.unvisited_le
  made_le := h.made_le.trans (Nat.add_le_add_left le _)

/-- Whether a call does what following its feeds does, if it may be nested deep enough. -/
def Completes (b : Board) (w : World) (inputs : List (Facing × NodeId))
    (depth : Nat) (call : Call) : Prop :=
  ∀ st feeds r, Sound b w st → call.feeds b w = .ok feeds →
    b.follow w inputs st.netlist st.visited feeds = .ok r →
    4 * unvisited w st.visited + call.rank ≤ depth →
    ∃ st', b.callWithin w inputs depth call st = .ok st' ∧ (st'.netlist, st'.visited) = r ∧
      Settled b w st st' (callsOfRank call.rank)

theorem callsOfRank_mono (le : n ≤ m) : callsOfRank n ≤ callsOfRank m := by
  refine monotone_nat_of_le_succ (fun k => ?_) le
  match k with
  | 0 | 1 | 2 | 3 => decide
  | k + 4 => exact Nat.le_refl 14

/-- Calls made one after another do what following all their feeds does. -/
theorem exists_callsWithin (each : ∀ call ∈ calls, Completes b w inputs depth call)
    (ranks : ∀ call ∈ calls, call.rank ≤ rank) (h : Sound b w st)
    (listed : calls.flatMapM (Call.feeds b w) = .ok feeds)
    (followed : b.follow w inputs st.netlist st.visited feeds = .ok r)
    (deep : 4 * unvisited w st.visited + rank ≤ depth) :
    ∃ st', calls.foldlM (fun st call => b.callWithin w inputs depth call st) st = .ok st' ∧
      (st'.netlist, st'.visited) = r ∧ Settled b w st st' (calls.length * callsOfRank rank) := by
  induction calls generalizing st feeds with
  | nil =>
    obtain rfl : [] = feeds := Except.ok.inj listed
    rw [follow_nil] at followed
    refine ⟨st, rfl, Except.ok.inj followed, ?_⟩
    rw [List.length_nil, Nat.zero_mul]
    exact .refl h
  | cons call rest ih =>
    obtain ⟨each, each_rest⟩ := List.forall_mem_cons.1 each
    obtain ⟨le, ranks⟩ := List.forall_mem_cons.1 ranks
    -- The feeds of the first call are followed, and then those of the others.
    rw [List.flatMapM_cons] at listed
    obtain ⟨first, own, others⟩ := of_bind_eq_ok listed
    obtain ⟨later, stand, eq⟩ := of_bind_eq_ok others
    obtain rfl := Except.ok.inj eq
    rw [follow_append] at followed
    obtain ⟨reached, followed, left⟩ := of_bind_eq_ok followed
    obtain ⟨st₁, ran, rfl, settled⟩ := each st first reached h own followed (by omega)
    -- The first call leaves no more to visit than there was, so the depth is enough for the others.
    have deep₁ : 4 * unvisited w st₁.visited + rank ≤ depth := by
      have less := settled.unvisited_le
      omega
    obtain ⟨st', ran', same, settled'⟩ := ih each_rest ranks settled.sound stand left deep₁
    refine ⟨st', ?_, same, ?_⟩
    · rw [List.foldlM_cons, ran]
      exact ran'
    · rw [List.length_cons, Nat.succ_mul, Nat.add_comm]
      exact (settled.mono (callsOfRank_mono le)).trans settled'

/-- **A call ends, and does what following its feeds does.** -/
theorem completes (grounded : call.Grounded w) : Completes b w inputs depth call := by
  -- One level of nested calls costs a position that is left to visit, worth four ranks, or a rank.
  induction depth generalizing call with
  | zero =>
    -- a call needs one level for itself
    intro st feeds r _ _ _ deep
    have pos : 0 < call.rank := by cases call <;> exact Nat.succ_pos _
    omega
  | succ depth ih =>
    -- the calls that are nested in this one are of a lower rank, or fewer positions are left
    intro st feeds r h listed followed deep
    obtain ⟨st₁, calls, feeds₁, entered, stand, left⟩ := exists_enter grounded listed followed
    have stepped : Stepped b w call st st₁ calls := .of_enter h grounded entered
    obtain ⟨rank, count, bounded, lower, cost⟩ := stepped.bounded
    have each (c : Call) (mem : c ∈ calls) : Completes b w inputs depth c :=
      ih (bounded.grounded c mem)
    obtain ⟨st', ran, same, settled⟩ :=
      exists_callsWithin each bounded.rank_le stepped.sound stand left (by omega)
    refine ⟨st', ?_, same, settled.sound, settled.unvisited_le.trans stepped.unvisited_le, ?_⟩
    · rw [callWithin, entered]
      exact ran
    · have few := Nat.mul_le_mul_right (callsOfRank rank) bounded.length_le
      have spent := settled.made_le
      omega

/-! ### Deeper calls -/

/-- A call that ends within a depth ends in the same way within any greater depth. -/
theorem callWithin_succ (ran : b.callWithin w inputs depth call st = .ok st') :
    b.callWithin w inputs (depth + 1) call st = .ok st' := by
  induction depth generalizing call st st' with
  | zero => cases ran
  | succ depth ih =>
    rw [callWithin] at ran ⊢
    obtain ⟨n, entered, ran⟩ := of_bind_eq_ok ran
    rw [entered]
    exact foldlM_eq_ok_of_imp (fun _ _ _ ran => ih ran) ran

theorem outputWithin_succ {f : Facing} (ran : b.outputWithin w inputs depth st f = .ok st') :
    b.outputWithin w inputs (depth + 1) st f = .ok st' := by
  obtain ⟨n, added, ran⟩ := of_bind_eq_ok ran
  rw [outputWithin, added]
  exact foldlM_eq_ok_of_imp (fun _ _ _ ran => callWithin_succ ran) ran

theorem traceWithin_succ (ran : b.traceWithin w depth = .ok st) :
    b.traceWithin w (depth + 1) = .ok st := by
  obtain ⟨n, added, ran⟩ := of_bind_eq_ok ran
  rw [traceWithin, added]
  exact foldlM_eq_ok_of_imp (fun _ _ _ ran => outputWithin_succ ran) ran

/-! ### The whole trace -/

theorem feeds_outputCalls (f : Facing) : (b.outputCalls w target f).flatMapM (Call.feeds b w) =
    .ok (((socketBlocks b.corner f).flatMap fun p => wireFeed w p.above).map (target, ·)) :=
  feeds_flatMap_wireCall (socketBlocks b.corner f) Position.above

/-- Tracing an output socket by calls ends, with what following its feeds comes to. -/
theorem exists_outputWithin {f : Facing} (deep : 4 * w.componentCount < depth) (h : Sound b w st)
    (followed : b.followOutput w inputs (st.netlist, st.visited) f = .ok r) :
    ∃ st', b.outputWithin w inputs depth st f = .ok st' ∧ (st'.netlist, st'.visited) = r ∧
      Settled b w st st' 6 := by
  obtain ⟨n, added, followed⟩ := of_bind_eq_ok followed
  replace added : st.netlist.addOutput (b.socket f).socket = .ok n := of_mapError_eq_ok added
  -- The node of the socket keeps the netlist well formed.
  have wf : n.2.WellFormed := by
    unfold Netlist.addOutput at added
    split at added
    · obtain rfl := Except.ok.inj added
      exact h.wf.push rfl rfl fun reduced => by cases reduced
    · cases added
  have bounded : BoundedCalls w (b.outputCalls w n.1 f) 1 6 := .flatMap fun _ => bounded_wireCall
  have each (c : Call) (mem : c ∈ b.outputCalls w n.1 f) : Completes b w inputs depth c :=
    completes (bounded.grounded c mem)
  have sound : Sound b w { st with netlist := n.2 } := { h with wf := wf }
  have enough : 4 * unvisited w st.visited + 1 ≤ depth := by
    have room := h.room
    omega
  obtain ⟨st', ran, same, settled⟩ :=
    exists_callsWithin each bounded.rank_le sound (feeds_outputCalls f) followed enough
  refine ⟨st', ?_, same, settled.sound, settled.unvisited_le, ?_⟩
  · rw [outputWithin, added]
    exact ran
  · exact settled.made_le.trans (Nat.add_le_add_left (Nat.mul_le_mul_right 1 bounded.length_le) _)

/-- Tracing output sockets by calls ends, with what following their feeds comes to. -/
theorem exists_outputsWithin {sides : List Facing} (deep : 4 * w.componentCount < depth)
    (h : Sound b w st)
    (followed : sides.foldlM (b.followOutput w inputs) (st.netlist, st.visited) = .ok r) :
    ∃ st', sides.foldlM (b.outputWithin w inputs depth) st = .ok st' ∧
      (st'.netlist, st'.visited) = r ∧ Settled b w st st' (sides.length * 6) := by
  induction sides generalizing st with
  | nil =>
    refine ⟨st, rfl, Except.ok.inj followed, ?_⟩
    rw [List.length_nil, Nat.zero_mul]
    exact .refl h
  | cons f rest ih =>
    rw [List.foldlM_cons] at followed
    obtain ⟨reached, own, left⟩ := of_bind_eq_ok followed
    obtain ⟨st₁, ran, rfl, settled⟩ := exists_outputWithin deep h own
    obtain ⟨st', ran', same, settled'⟩ := ih settled.sound left
    refine ⟨st', ?_, same, ?_⟩
    · rw [List.foldlM_cons, ran]
      exact ran'
    · rw [List.length_cons, Nat.succ_mul, Nat.add_comm]
      exact settled.trans settled'

end Run

theorem sound_start {g : Netlist .wired} (wf : g.WellFormed) : Sound b w ⟨g, [], []⟩ where
  wf := wf
  firsts := rfl
  distinct := List.nodup_nil
  placed := fun _ mem => by cases mem
  room := by
    have all : unvisited w [] = w.componentCount :=
      congrArg (List.countP · w.positions) (funext fun p => Bool.and_true _)
    exact Nat.le_of_eq ((Nat.zero_add _).trans all)
  few := fun _ mem => by cases mem

/-- **Tracing a board ends**, whatever stands on it. Calls are nested at most four deep for each
component in the world, and one more; within any depth that allows for this the same calls are made,
and what they build is the traced circuit. Each call that is the first visit of its position adds a
position to those that were visited, one of the area that holds a component and was not among them.
So there are no more of these calls than components in the world. No call makes more than fourteen
calls, and all in all there are at most 182 calls for each component, besides the calls for the
wires on the blocks of the sockets. -/
theorem exists_traceWithin (b : Board) (w : World) : ∃ st : Tracing,
    b.trace w = .ok st.netlist ∧
    (∀ depth, 4 * w.componentCount < depth → b.traceWithin w depth = .ok st) ∧
    (st.made.filter (·.first)).map (·.call.position) = st.visited.map Prod.fst ∧
    (st.visited.map Prod.fst).Nodup ∧
    (∀ e ∈ st.visited, b.covers e.1 = true ∧ (w.block e.1).isComponent = true) ∧
    (st.made.filter (·.first)).length ≤ w.componentCount ∧
    (∀ e ∈ st.made, e.nested.length ≤ 14) ∧
    st.made.length ≤ 24 + 182 * w.componentCount := by
  obtain ⟨start, added, progress, -⟩ := exists_addInputs b w
  obtain ⟨g, -, -, -, traced, -⟩ := exists_trace_inOrder b w
  -- What the trace has followed is followed by calls.
  obtain ⟨r, followed, ended⟩ : ∃ r,
      b.outputs.foldlM (b.followOutput w start.2) (start.1, []) = .ok r ∧ r.1 = g := by
    rw [trace_eq, added, mapError_ok, ok_bind] at traced
    obtain ⟨r, followed, eq⟩ := of_bind_eq_ok traced
    exact ⟨r, followed, Except.ok.inj eq⟩
  have sound : Sound b w ⟨start.1, [], []⟩ := sound_start progress.wf
  obtain ⟨st, ran, same, settled⟩ :=
    exists_outputsWithin (Nat.lt_succ_self (4 * w.componentCount)) sound followed
  have within : b.traceWithin w (4 * w.componentCount + 1) = .ok st := by
    rw [traceWithin, added]
    exact ran
  have room := settled.sound.room
  refine ⟨st, ?_, fun depth deep => ?_, settled.sound.firsts, settled.sound.distinct,
    settled.sound.placed, ?_, settled.sound.few, ?_⟩
  · rw [traced, ← ended, ← same]
  · exact Nat.le_induction within (fun _ _ ran => traceWithin_succ ran) depth deep
  · have firsts := congrArg List.length settled.sound.firsts
    rw [List.length_map, List.length_map] at firsts
    omega
  · -- six calls for each of four outputs at the most, and for each component what a visit costs
    have sides : b.outputs.length ≤ 4 := by
      rw [outputs, sidesWith]
      exact List.length_filter_le _ Facing.all
    have all : unvisited w [] ≤ w.componentCount := (Nat.le_add_left _ _).trans sound.room
    calc st.made.length
        ≤ 0 + visitCost * unvisited w [] + b.outputs.length * 6 :=
          (Nat.le_add_right _ _).trans settled.made_le
      _ ≤ 24 + 182 * w.componentCount := by
          have cost : visitCost = 182 := rfl
          rw [cost]
          omega

end Board

end TorchLogic
