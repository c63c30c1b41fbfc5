import TorchLogic.Proofs.Board.Follow

/-!
# Tracing by calls

`Board.follow` keeps the feeds that are still to be visited in one list. The same work can be told
as calls that make calls: a call for a wire, a torch or an output of a nested circuit visits it, and
makes calls for whatever may power it; the other calls visit nothing and only pass on, a call for a
full block to what powers the block, a call for a neighbour to what stands there. A call knows which
node the power it looks for is to reach (`Call`), and what it does by itself, before the calls that
it makes, is `Board.enter`. A whole call is `Board.callWithin`, with a bound on how deep calls may
be nested, and `Board.traceWithin` traces a board with such calls. Every call is put on record with
the calls that it makes (`CallRecord`).

1. Each call stands for feeds (`Call.feeds`): a call for a component for one, a call that passes on
   for those that the board lists.
2. A call that passes on makes calls that stand for the same feeds (`Board.feeds_passedOn`), and the
   calls of a component that is visited first stand for the feeds of the component
   (`Board.feeds_wireCalls`, `Board.feeds_torchCalls`, `Board.feeds_circuitCalls`).
3. So where following the feeds of a call goes well, the call does by itself what is first, and
   following the feeds of the calls that it makes does the rest (`Board.exists_enter`).
-/

namespace TorchLogic

/-- **A call made while a board is traced**, for the node that the power would reach. -/
inductive Call
  /-- Visits a wire. -/
  | wire (target : NodeId) (p : Position)
  /-- Visits a torch. -/
  | torch (target : NodeId) (p : Position)
  /-- Visits a nested circuit, from one of its output sides. -/
  | circuitOutput (target : NodeId) (p : Position) (facing : Facing)
      (table : TruthTable) (side : Side)
  /-- Looks at the neighbour in front of an input side of a nested circuit. -/
  | circuitInput (target : NodeId) (p : Position) (circuit : Position) (d : Direction)
  /-- Looks for what powers a full block, other than the component that asks. -/
  | allPowering (target : NodeId) (p : Position) (strong : Bool) (asking : Position)
  /-- Looks at a neighbour that is no full block. -/
  | inwards (target : NodeId) (p : Position) (d : Direction)
  /-- Looks for an output of a nested circuit on the side that looks a given way. -/
  | circuitFacing (target : NodeId) (p : Position) (looking : Facing)

/-- The position that a call is about. -/
def Call.position : Call → Position
  | wire _ p | torch _ p | circuitOutput _ p _ _ _ | circuitInput _ p _ _ | allPowering _ p _ _
  | inwards _ p _ | circuitFacing _ p _ => p

/-- Whether a call visits a component. Any other call only passes on. -/
def Call.visits : Call → Bool
  | wire _ _ | torch _ _ | circuitOutput _ _ _ _ _ => true
  | _ => false

/-- What a call for a component may take for granted: the component is in the world. -/
def Call.Grounded (w : World) : Call → Prop
  | wire _ p => (w.block p).isWire = true
  | torch _ p => (w.block p).isTorch = true
  | circuitOutput _ p facing _ _ => w.block p = .circuit facing
  | _ => True

theorem Call.Grounded.isComponent {w : World} {call : Call} (h : call.Grounded w)
    (visits : call.visits = true) : (w.block call.position).isComponent = true := by
  cases call with
  | wire target p =>
    rw [position, Block.isComponent, show (w.block p).isWire = true from h]
    rfl
  | torch target p =>
    rw [position, Block.isComponent, show (w.block p).isTorch = true from h, Bool.or_true]
    rfl
  | circuitOutput target p facing table side =>
    have block : w.block p = .circuit facing := h
    rw [position, block]
    rfl
  | circuitInput | allPowering | inwards | circuitFacing => cases visits

/-- **A call that was made.** -/
structure CallRecord where
  call : Call
  /-- Whether the call is the first visit of its position. -/
  first : Bool
  /-- The calls that it makes. -/
  nested : List Call

/-- **What is built while a board is traced**, and the calls that were made, the last one first. -/
structure Tracing where
  netlist : Netlist .wired
  visited : List (Position × NodeId)
  made : List CallRecord

/-- Puts a call on record that visits nothing first. -/
def Tracing.pass (st : Tracing) (call : Call) (nested : List Call) : Tracing :=
  { st with made := ⟨call, false, nested⟩ :: st.made }

/-- **Why tracing by calls stopped.** -/
inductive Interruption
  | refused (e : BuildError)
  /-- Calls were nested deeper than the bound. -/
  | tooDeep

namespace Board

/-! ### The calls that a call makes -/

/-- A call for the wire at a position, if there is one. -/
def wireCall (w : World) (id : NodeId) (p : Position) : List Call :=
  if (w.block p).isWire then [.wire id p] else []

/-- A call for the torch at a position, if there is one. -/
def torchCall (w : World) (id : NodeId) (p : Position) : List Call :=
  if (w.block p).isTorch then [.torch id p] else []

/-- The calls for what powers a wire from below. -/
def belowCalls (w : World) (id : NodeId) (p : Position) : List Call :=
  if (w.block p.below).conducts then [.allPowering id p.below true p] else []

/-- The calls for what powers a wire from above. -/
def aboveCalls (w : World) (id : NodeId) (p : Position) : List Call :=
  if (w.block p.above).conducts then [.allPowering id p.above true p]
  else torchCall w id p.above ++ Facing.all.flatMap fun f => wireCall w id (p.above.toward f)

/-- The calls for what powers a wire from one side. -/
def sideCalls (w : World) (id : NodeId) (p : Position) (f : Facing) : List Call :=
  if (w.block (p.toward f)).conducts then [.allPowering id (p.toward f) true p]
  else .inwards id (p.toward f) (.ofFacing f) :: wireCall w id (p.toward f).below

/-- The calls of a wire. -/
def wireCalls (w : World) (id : NodeId) (p : Position) : List Call :=
  belowCalls w id p ++ aboveCalls w id p ++ Facing.all.flatMap (sideCalls w id p)

/-- The calls of a torch. -/
def torchCalls (w : World) (id : NodeId) (p : Position) : List Call :=
  if (w.block (torchSupport w p)).conducts then [.allPowering id (torchSupport w p) false p] else []

/-- The calls of a nested circuit, one for each input. -/
def circuitCalls (p : Position) (facing : Facing) (children : List (Side × NodeId)) : List Call :=
  children.map fun (side, child) =>
    .circuitInput child (p.toward (side.absolute facing)) p (.ofFacing (side.absolute facing))

/-- The calls for what powers a full block from the neighbour in a direction. -/
def neighbourCalls (w : World) (target : NodeId) (p : Position) (strong : Bool) (d : Direction) :
    List Call :=
  let neighbour := p.step d
  let c := w.block neighbour
  match d with
  | .down => torchCall w target neighbour
  | d =>
    (if !strong && c.isWire && (d == .up || w.wireConnects neighbour d.opposite)
      then [.wire target neighbour] else [])
    ++ (match d.opposite.facing? with
      | some looking => if c.isCircuit then [.circuitFacing target neighbour looking] else []
      | none => [])

/-- The calls for what powers a full block. -/
def poweringCalls (b : Board) (w : World) (target : NodeId) (p : Position) (strong : Bool)
    (asking : Position) : Except BuildError (List Call) :=
  if b.covers p then
    if (w.block p).conducts then
      .ok ((Direction.all.filter fun d => p.step d != asking).flatMap
        (neighbourCalls w target p strong))
    else .error (.notAConductor p)
  else .ok []

/-- The calls for the component at a position, reached in a direction. -/
def inwardsCalls (b : Board) (w : World) (target : NodeId) (p : Position)
    (d : Direction) : List Call :=
  if b.covers p then
    match w.block p with
    | .wire => [.wire target p]
    | .torch | .wallTorch _ => [.torch target p]
    | .circuit _ =>
      match d.opposite.facing? with
      | some looking => [.circuitFacing target p looking]
      | none => []
    | _ => []
  else []

/-- The calls for what is in front of an input side of a nested circuit. -/
def circuitInputCalls (b : Board) (w : World) (target : NodeId)
    (p circuit : Position) (d : Direction) : List Call :=
  if b.covers p then
    if (w.block p).conducts then [.allPowering target p false circuit] else [.inwards target p d]
  else []

/-- The calls for an output of a nested circuit on the side that looks a given way. -/
def facingCalls (b : Board) (w : World) (target : NodeId) (p : Position) (looking : Facing) :
    Except BuildError (List Call) :=
  if b.covers p then
    match w.block p with
    | .circuit facing =>
      match w.table? p with
      | some table =>
        let side := Side.relative facing looking
        .ok (if table.hasOutput side then [.circuitOutput target p facing table side] else [])
      | none => .ok []
    | _ => .error (.notACircuit p)
  else .ok []

/-- **The calls that a call passes on to.** A call for a component does not pass on. -/
def passedOn (b : Board) (w : World) : Call → Except BuildError (List Call)
  | .circuitInput target p circuit d => .ok (b.circuitInputCalls w target p circuit d)
  | .allPowering target p strong asking => b.poweringCalls w target p strong asking
  | .inwards target p d => .ok (b.inwardsCalls w target p d)
  | .circuitFacing target p looking => b.facingCalls w target p looking
  | .wire _ _ | .torch _ _ | .circuitOutput _ _ _ _ _ => .ok []

/-! ### Calls -/

/-- **Visits a component** for a call. Nothing outside the area is visited. If the component was
visited, only an edge is new; otherwise its node is, and calls are made for what may power it. -/
def visit (b : Board) (inputs : List (Facing × NodeId)) (call : Call)
    (target : NodeId) (feed : Feed)
    (nested : Netlist .wired → NodeId → Except BuildError (List Call)) (st : Tracing) :
    Except BuildError (Tracing × List Call) :=
  if b.covers feed.position then
    match nodeAt? st.visited feed.position with
    | some id => do
      let g ← (attach st.netlist id feed target).mapError .netlist
      .ok ({ st with netlist := g }.pass call [], [])
    | none => do
      let (id, g) ← (addNode st.netlist feed).mapError .netlist
      let g ← (attach g id feed target).mapError .netlist
      let g ← (b.attachInput inputs g id feed).mapError .netlist
      let calls ← nested g id
      .ok (⟨g, (feed.position, id) :: st.visited, ⟨call, true, calls⟩ :: st.made⟩, calls)
  else .ok (st.pass call [], [])

/-- **What a call does by itself**, and the calls that it makes then. -/
def enter (b : Board) (w : World) (inputs : List (Facing × NodeId)) (call : Call) (st : Tracing) :
    Except BuildError (Tracing × List Call) :=
  match call with
  | .wire target p => b.visit inputs call target (.wire p) (fun _ id => .ok (wireCalls w id p)) st
  | .torch target p =>
    b.visit inputs call target (.torch p) (fun _ id => .ok (torchCalls w id p)) st
  | .circuitOutput target p facing table side =>
    b.visit inputs call target (.circuit p table side) (fun g id => do
      let children ← (g.circuitInputs id).mapError .netlist
      .ok (circuitCalls p facing children)) st
  | call => do
    let nested ← b.passedOn w call
    .ok (st.pass call nested, nested)

/-- **A call with all the calls that it makes**, one after another, each with the calls that it
makes in turn. Calls may be nested up to a depth. -/
def callWithin (b : Board) (w : World) (inputs : List (Facing × NodeId)) :
    Nat → Call → Tracing → Except Interruption Tracing
  | 0, _, _ => .error .tooDeep
  | depth + 1, call, st => do
    let (st, nested) ← (b.enter w inputs call st).mapError .refused
    nested.foldlM (fun st call => b.callWithin w inputs depth call st) st

/-- The calls for an output socket, from the wires that stand on its blocks. -/
def outputCalls (b : Board) (w : World) (output : NodeId) (f : Facing) : List Call :=
  (socketBlocks b.corner f).flatMap fun p => wireCall w output p.above

/-- Traces an output socket by calls. -/
def outputWithin (b : Board) (w : World) (inputs : List (Facing × NodeId))
    (depth : Nat) (st : Tracing) (f : Facing) : Except Interruption Tracing := do
  let (output, g) ← (st.netlist.addOutput (b.socket f).socket).mapError fun e =>
    .refused (.netlist e)
  (b.outputCalls w output f).foldlM (fun st call => b.callWithin w inputs depth call st)
    { st with netlist := g }

/-- **Tracing a board by calls** that may be nested up to a depth. -/
def traceWithin (b : Board) (w : World) (depth : Nat) : Except Interruption Tracing := do
  let (g, inputs) ← b.addInputs.mapError fun e => .refused (.netlist e)
  b.outputs.foldlM (b.outputWithin w inputs depth) ⟨g, [], []⟩

/-! ### The feeds that a call stands for -/

/-- Feeds that are visited for a node. -/
def pendingFor (target : NodeId) (found : Except BuildError (List Feed)) :
    Except BuildError (List (NodeId × Feed)) := do
  let feeds ← found
  .ok (feeds.map (target, ·))

end Board

/-- **The feeds that a call stands for.** -/
def Call.feeds (b : Board) (w : World) : Call → Except BuildError (List (NodeId × Feed))
  | wire target p => .ok [(target, .wire p)]
  | torch target p => .ok [(target, .torch p)]
  | circuitOutput target p _ table side => .ok [(target, .circuit p table side)]
  | circuitInput target p circuit d => Board.pendingFor target (
    if b.covers p then
      if (w.block p).conducts then b.relayed w p false circuit else b.directFeed w p d
    else .ok [])
  | allPowering target p strong asking => Board.pendingFor target (b.relayed w p strong asking)
  | inwards target p d => Board.pendingFor target (b.directFeed w p d)
  | circuitFacing target p looking => Board.pendingFor target (b.circuitFeed w p looking)

namespace Board

variable {b : Board} {w : World} {inputs : List (Facing × NodeId)} {target id : Nat} {p : Position}

theorem pendingFor_append (target : NodeId) (x y : Except BuildError (List Feed)) :
    pendingFor target (do let l ← x; let l' ← y; .ok (l ++ l')) = (do
      let l ← pendingFor target x
      let l' ← pendingFor target y
      .ok (l ++ l')) := by
  cases x with
  | error e => rfl
  | ok l =>
    cases y with
    | error e => rfl
    | ok l' => exact congrArg Except.ok List.map_append

theorem pendingFor_flatMapM {α : Type} (target : NodeId) (find : α → Except BuildError (List Feed))
    (l : List α) :
    pendingFor target (l.flatMapM find) = l.flatMapM fun a => pendingFor target (find a) := by
  induction l with
  | nil => rfl
  | cons a rest ih =>
    rw [List.flatMapM_cons, List.flatMapM_cons, ← ih]
    exact pendingFor_append target (find a) (rest.flatMapM find)

theorem feeds_wireCall : (wireCall w target p).flatMapM (Call.feeds b w) =
    pendingFor target (.ok (wireFeed w p)) := by
  unfold wireCall wireFeed
  split
  · exact flatMapM_singleton _ _
  · rfl

/-- Wires at several positions. -/
theorem feeds_flatMap_wireCall {α : Type} (l : List α) (place : α → Position) :
    (l.flatMap fun a => wireCall w target (place a)).flatMapM (Call.feeds b w) =
      pendingFor target (.ok (l.flatMap fun a => wireFeed w (place a))) := by
  rw [flatMapM_flatMap, ← flatMapM_eq_ok fun _ _ => rfl, pendingFor_flatMapM]
  exact congrArg (List.flatMapM · l) (funext fun a => feeds_wireCall)

theorem feeds_torchCall : (torchCall w target p).flatMapM (Call.feeds b w) =
    pendingFor target (.ok (if (w.block p).isTorch then [.torch p] else [])) := by
  unfold torchCall
  split
  · exact flatMapM_singleton _ _
  · rfl

theorem neighbourCalls_ofFacing (strong : Bool) (f : Facing) :
    neighbourCalls w target p strong (.ofFacing f) =
      (if !strong && (w.block (p.toward f)).isWire && w.wirePoints (p.toward f) f.opposite
        then [.wire target (p.toward f)] else []) ++
      (if (w.block (p.toward f)).isCircuit
        then [.circuitFacing target (p.toward f) f.opposite] else []) := by
  cases f <;> rfl

theorem feeds_neighbourCalls (strong : Bool) (d : Direction) :
    (neighbourCalls w target p strong d).flatMapM (Call.feeds b w) =
      pendingFor target (b.relayedFrom w p strong d) := by
  -- At most one wire and one circuit are asked, and each stands for one feed.
  have wires (c : Bool) (q : Position) :
      (if c then [Call.wire target q] else []).flatMapM (Call.feeds b w) =
      pendingFor target (.ok (if c then [.wire q] else [])) := by
    cases c with
    | true => exact flatMapM_singleton _ _
    | false => rfl
  have circuits (q : Position) (looking : Facing) :
      (if (w.block q).isCircuit then [Call.circuitFacing target q looking] else []).flatMapM
          (Call.feeds b w) =
        pendingFor target
          (if (w.block q).isCircuit then b.circuitFeed w q looking else .ok []) := by
    split
    · exact flatMapM_singleton _ _
    · rfl
  -- From above there is no circuit, and from a side there may be a wire or a circuit.
  rcases direction_cases d with rfl | rfl | ⟨f, rfl⟩
  · -- below there may be a torch
    exact feeds_torchCall
  · refine (flatMapM_append _ _ []).trans ?_
    rw [wires]
    exact (pendingFor_append target _ (.ok [])).symm
  · have found : b.relayedFrom w p strong (.ofFacing f) = (do
        let l ← .ok (if !strong && (w.block (p.toward f)).isWire &&
            w.wirePoints (p.toward f) f.opposite
          then [.wire (p.toward f)] else [])
        let l' ← (if (w.block (p.toward f)).isCircuit
          then b.circuitFeed w (p.toward f) f.opposite else .ok [])
        .ok (l ++ l')) := by
      cases f <;> rfl
    rw [neighbourCalls_ofFacing, flatMapM_append, wires, circuits, found]
    exact (pendingFor_append target _ _).symm

theorem feeds_poweringCalls (strong : Bool) (asking : Position) :
    (do let nested ← b.poweringCalls w target p strong asking; nested.flatMapM (Call.feeds b w)) =
      pendingFor target (b.relayed w p strong asking) := by
  unfold poweringCalls relayed
  split
  · split
    -- Each neighbour is asked in turn, and so it is in the list of feeds.
    · rw [ok_bind, flatMapM_flatMap, pendingFor_flatMapM]
      exact congrArg (List.flatMapM · _) (funext fun d => feeds_neighbourCalls strong d)
    · rfl
  · rfl

theorem feeds_inwardsCalls (d : Direction) :
    (b.inwardsCalls w target p d).flatMapM (Call.feeds b w) =
      pendingFor target (b.directFeed w p d) := by
  unfold inwardsCalls directFeed
  split
  · cases w.block p with
    | wire | torch | wallTorch => exact flatMapM_singleton _ _
    | circuit facing =>
      -- a circuit is only asked from a side, where there is a way to look
      cases d.opposite.facing? with
      | some looking => exact flatMapM_singleton _ _
      | none => rfl
    | air | solid | breadboard => rfl
  · rfl

theorem feeds_circuitInputCalls (circuit : Position) (d : Direction) :
    (b.circuitInputCalls w target p circuit d).flatMapM (Call.feeds b w) =
      (Call.circuitInput target p circuit d).feeds b w := by
  unfold circuitInputCalls
  rw [Call.feeds]
  split
  · split
    · exact flatMapM_singleton _ _
    · exact flatMapM_singleton _ _
  · rfl

theorem feeds_facingCalls (looking : Facing) :
    (do let nested ← b.facingCalls w target p looking; nested.flatMapM (Call.feeds b w)) =
      pendingFor target (b.circuitFeed w p looking) := by
  unfold facingCalls circuitFeed
  split
  · cases w.block p with
    | circuit facing =>
      cases w.table? p with
      | some table =>
        -- a call for the side that looks this way, if the circuit puts anything out there
        dsimp only
        rw [ok_bind]
        split
        · exact flatMapM_singleton _ _
        · rfl
      | none => rfl
    | _ => rfl
  · rfl

/-- **A call that passes on stands for the feeds of the calls that it makes.** -/
theorem feeds_passedOn {call : Call} (passes : call.visits = false) :
    (do let nested ← b.passedOn w call; nested.flatMapM (Call.feeds b w)) = call.feeds b w := by
  cases call with
  | circuitInput target p circuit d => exact feeds_circuitInputCalls circuit d
  | allPowering target p strong asking => exact feeds_poweringCalls strong asking
  | inwards target p d => exact feeds_inwardsCalls d
  | circuitFacing target p looking => exact feeds_facingCalls looking
  | wire | torch | circuitOutput => cases passes

/-! ### The calls of a component -/

/-- Power through a full block is asked for by a call, and otherwise other calls are made. -/
theorem feeds_ite {c : Prop} [Decidable c] {call : Call} {calls : List Call}
    {x y : Except BuildError (List Feed)} (full : call.feeds b w = pendingFor target x)
    (other : calls.flatMapM (Call.feeds b w) = pendingFor target y) :
    (if c then [call] else calls).flatMapM (Call.feeds b w) =
      pendingFor target (if c then x else y) := by
  split
  · exact (flatMapM_singleton _ _).trans full
  · exact other

theorem feeds_belowCalls :
    (belowCalls w target p).flatMapM (Call.feeds b w) = pendingFor target (b.belowFeeds w p) :=
  feeds_ite rfl rfl

theorem feeds_aboveCalls :
    (aboveCalls w target p).flatMapM (Call.feeds b w) = pendingFor target (b.aboveFeeds w p) := by
  refine feeds_ite rfl ?_
  rw [flatMapM_append, feeds_torchCall, feeds_flatMap_wireCall]
  exact (pendingFor_append target (.ok _) (.ok _)).symm

theorem feeds_sideCalls (f : Facing) :
    (sideCalls w target p f).flatMapM (Call.feeds b w) = pendingFor target (b.sideFeeds w p f) := by
  refine feeds_ite rfl ?_
  rw [List.flatMapM_cons, feeds_wireCall]
  exact (pendingFor_append target (b.directFeed w (p.toward f) (.ofFacing f)) (.ok _)).symm

theorem feeds_wireCalls :
    (wireCalls w target p).flatMapM (Call.feeds b w) = pendingFor target (b.wireFeeds w p) := by
  have sides : (Facing.all.flatMap (sideCalls w target p)).flatMapM (Call.feeds b w) =
      pendingFor target (Facing.all.flatMapM (b.sideFeeds w p)) := by
    rw [flatMapM_flatMap, pendingFor_flatMapM]
    exact congrArg (List.flatMapM · _) (funext feeds_sideCalls)
  unfold wireCalls wireFeeds
  rw [flatMapM_append, flatMapM_append, feeds_belowCalls, feeds_aboveCalls, sides]
  -- The first of the three lists to fail is the failure of all.
  cases b.belowFeeds w p with
  | error e => rfl
  | ok below =>
    cases b.aboveFeeds w p with
    | error e => rfl
    | ok above =>
      cases Facing.all.flatMapM (b.sideFeeds w p) with
      | error e => rfl
      | ok beside =>
        show Except.ok (_ ++ _ ++ _) = Except.ok (List.map _ (below ++ above ++ beside))
        rw [List.map_append, List.map_append]

theorem feeds_torchCalls :
    (torchCalls w target p).flatMapM (Call.feeds b w) = pendingFor target (b.torchFeeds w p) :=
  feeds_ite rfl rfl

theorem feeds_circuitCalls (facing : Facing) (children : List (Side × NodeId)) :
    (circuitCalls p facing children).flatMapM (Call.feeds b w) =
      children.flatMapM fun (side, child) => pendingFor child (b.circuitFeeds w p facing side) := by
  induction children with
  | nil => rfl
  | cons child rest ih =>
    rw [List.flatMapM_cons, ← ih]
    exact List.flatMapM_cons

/-! ### One call -/

section Enter

variable {call : Call} {feed : Feed} {st : Tracing} {r : Netlist .wired × List (Position × NodeId)}
  {nested : Netlist .wired → NodeId → Except BuildError (List Call)}

/-- Where following a feed goes well, a call that visits its component does what is first, and
following the feeds of the calls that it makes does the rest. -/
theorem exists_visit (component : (w.block feed.position).isComponent = true)
    (same : ∀ g id, (do let calls ← nested g id; calls.flatMapM (Call.feeds b w)) =
      b.feedsOf w g id feed)
    (followed : b.follow w inputs st.netlist st.visited [(target, feed)] = .ok r) :
    ∃ st₁ calls feeds, b.visit inputs call target feed nested st = .ok (st₁, calls) ∧
      calls.flatMapM (Call.feeds b w) = .ok feeds ∧
      b.follow w inputs st₁.netlist st₁.visited feeds = .ok r := by
  unfold visit
  by_cases covered : b.covers feed.position = true
  · rw [if_pos covered]
    cases here : nodeAt? st.visited feed.position with
    | some id =>
      -- the component has been visited, so there is only an edge to add
      rw [follow_of_visited covered here] at followed
      obtain ⟨g, attached, followed⟩ := of_bind_eq_ok followed
      refine ⟨{ st with netlist := g }.pass call [], [], [], ?_, rfl, followed⟩
      simp only [attached, ok_bind]
    | none =>
      -- a first visit adds the node, its edge, an input that stands there, and asks on
      rw [follow_of_fresh covered here component] at followed
      obtain ⟨n, added, followed⟩ := of_bind_eq_ok followed
      obtain ⟨g₁, attached, followed⟩ := of_bind_eq_ok followed
      obtain ⟨g₂, connected, followed⟩ := of_bind_eq_ok followed
      obtain ⟨feeds, listed, followed⟩ := of_bind_eq_ok followed
      obtain ⟨calls, made, stand⟩ := of_bind_eq_ok ((same g₂ n.1).trans listed)
      -- Nothing was pending but the feed itself, so what is left is the feeds of its component.
      rw [List.append_nil] at followed
      refine ⟨⟨g₂, (feed.position, n.1) :: st.visited, ⟨call, true, calls⟩ :: st.made⟩,
        calls, feeds, ?_, stand, followed⟩
      simp only [added, attached, connected, made, ok_bind]
  · -- outside of the board nothing is visited
    rw [follow_of_outside covered] at followed
    rw [if_neg covered]
    exact ⟨st.pass call [], [], [], rfl, rfl, followed⟩

theorem enter_of_passes (passes : call.visits = false) :
    b.enter w inputs call st = (do
      let nested ← b.passedOn w call
      .ok (st.pass call nested, nested)) := by
  cases call <;> first | rfl | cases passes

/-- **Where following the feeds of a call goes well**, the call does by itself what is first, and
following the feeds of the calls that it makes does the rest. -/
theorem exists_enter (grounded : call.Grounded w) {feeds : List (NodeId × Feed)}
    (listed : call.feeds b w = .ok feeds)
    (followed : b.follow w inputs st.netlist st.visited feeds = .ok r) :
    ∃ st₁ calls feeds₁, b.enter w inputs call st = .ok (st₁, calls) ∧
      calls.flatMapM (Call.feeds b w) = .ok feeds₁ ∧
      b.follow w inputs st₁.netlist st₁.visited feeds₁ = .ok r := by
  -- A call that passes on leaves what is built alone.
  have passes_on (passes : call.visits = false) :
      ∃ st₁ calls feeds₁, b.enter w inputs call st = .ok (st₁, calls) ∧
        calls.flatMapM (Call.feeds b w) = .ok feeds₁ ∧
        b.follow w inputs st₁.netlist st₁.visited feeds₁ = .ok r := by
    obtain ⟨nested, made, stand⟩ := of_bind_eq_ok ((feeds_passedOn passes).trans listed)
    refine ⟨st.pass call nested, nested, feeds, ?_, stand, followed⟩
    rw [enter_of_passes passes, made]
    rfl
  cases call with
  | wire target p =>
    -- A wire and a torch ask for what the block says, before anything is numbered.
    cases listed
    simp only [enter]
    exact exists_visit (grounded.isComponent rfl) (fun g id => feeds_wireCalls) followed
  | torch target p =>
    cases listed
    simp only [enter]
    exact exists_visit (grounded.isComponent rfl) (fun g id => feeds_torchCalls) followed
  | circuitOutput target p facing table side =>
    -- A nested circuit asks for its children, which have their numbers from the visit.
    have block : w.block p = .circuit facing := grounded
    cases listed
    simp only [enter]
    refine exists_visit (grounded.isComponent rfl) (fun g id => ?_) followed
    unfold feedsOf
    simp only [block]
    cases g.circuitInputs id with
    | error e => rfl
    | ok children => exact feeds_circuitCalls facing children
  | circuitInput | allPowering | inwards | circuitFacing => exact passes_on rfl

end Enter

end Board

end TorchLogic
