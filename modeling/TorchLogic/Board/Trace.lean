import TorchLogic.Board.Basic
import TorchLogic.Netlist.Basic
import TorchLogic.World.Wiring

/-!
# Tracing the circuit on a board

Tracing runs backwards: from the output sockets to whatever powers them, to whatever powers that,
and so on to the input sockets or to dead ends. It has two parts.

The first is what powers what, which only depends on the world. A *feed* is a component that powers
another, and the functions up to `Board.circuitFeeds` list the feeds of a wire, of a torch and of an
input side of a nested circuit, in the order in which they are visited. Power comes directly from a
neighbour or through a full block, never from outside the area of the board. Some of them refuse a
block that they should not be asked about (`BuildError`).

The second, `Board.follow`, visits feeds depth first. The first visit of a component adds its node
and puts its own feeds in front of the feeds still to be visited; each visit adds an edge from the
component to what it feeds. It ends because each first visit leaves fewer components unvisited, and
each later visit leaves fewer feeds.
-/

namespace TorchLogic

/-- **A component that powers another.** -/
inductive Feed
  | wire (p : Position)
  | torch (p : Position)
  /-- A nested circuit, by one of its output sides. -/
  | circuit (p : Position) (table : TruthTable) (side : Side)
  deriving DecidableEq

def Feed.position : Feed → Position
  | wire p => p
  | torch p => p
  | circuit p _ _ => p

/-- **Why a circuit could not be built.** None of this happens on any board, which is a statement
about tracing and not about the world. -/
inductive BuildError
  /-- An operation on the netlist was refused. -/
  | netlist (error : NetlistError)
  /-- Power was asked of a block that is no full block. -/
  | notAConductor (p : Position)
  /-- An output was asked of a block that is no nested circuit. -/
  | notACircuit (p : Position)
  deriving DecidableEq

def BuildError.message : BuildError → String
  | netlist e => e.message
  | notAConductor p => "block at " ++ p.render ++ " does not conduct"
  | notACircuit p => "block at " ++ p.render ++ " is not a circuit"

namespace Board

/-! ### What powers what -/

/-- A nested circuit at a position, if it has an output on the side that looks a given way. -/
def circuitFeed (b : Board) (w : World) (p : Position) (looking : Facing) :
    Except BuildError (List Feed) :=
  if b.covers p then
    match w.block p with
    | .circuit facing =>
      match w.table? p with
      | some table =>
        let side := Side.relative facing looking
        .ok (if table.hasOutput side then [.circuit p table side] else [])
      | none => .ok []
    | _ => .error (.notACircuit p)
  else .ok []

/-- The component at a position, as a feed of the neighbour that a direction leads from. -/
def directFeed (b : Board) (w : World) (p : Position) (d : Direction) :
    Except BuildError (List Feed) :=
  if b.covers p then
    match w.block p with
    | .wire => .ok [.wire p]
    | .torch | .wallTorch _ => .ok [.torch p]
    | .circuit _ =>
      match d.opposite.facing? with
      | some looking => b.circuitFeed w p looking
      | none => .ok []
    | _ => .ok []
  else .ok []

/-- What powers the full block at a position from the neighbour in a direction: a torch from below,
a nested circuit from the side, and, unless only strong power counts, a wire on top of the block or
one that points at it. -/
def relayedFrom (b : Board) (w : World) (p : Position) (strong : Bool) (d : Direction) :
    Except BuildError (List Feed) :=
  let neighbour := p.step d
  let c := w.block neighbour
  match d with
  | .down => .ok (if c.isTorch then [.torch neighbour] else [])
  | d => do
    let wires := if !strong && c.isWire && (d == .up || w.wireConnects neighbour d.opposite)
      then [.wire neighbour] else []
    let circuits ← (match d.opposite.facing? with
      | some looking => if c.isCircuit then b.circuitFeed w neighbour looking else .ok []
      | none => .ok [])
    .ok (wires ++ circuits)

/-- **What powers the full block at a position**, leaving out the component that asks. A block
outside the area relays nothing. -/
def relayed (b : Board) (w : World) (p : Position) (strong : Bool) (asking : Position) :
    Except BuildError (List Feed) :=
  if b.covers p then
    if (w.block p).conducts then
      (Direction.all.filter fun d => p.step d != asking).flatMapM (b.relayedFrom w p strong)
    else .error (.notAConductor p)
  else .ok []

/-- A wire at a position, if there is one. -/
def wireFeed (w : World) (p : Position) : List Feed :=
  if (w.block p).isWire then [.wire p] else []

/-- What powers a wire from one side: strong power through a full block, or a component beside it
and a wire one step down. -/
def sideFeeds (b : Board) (w : World) (p : Position) (f : Facing) : Except BuildError (List Feed) :=
  let side := p.toward f
  if (w.block side).conducts then b.relayed w side true p
  else do
    let beside ← b.directFeed w side (.ofFacing f)
    .ok (beside ++ wireFeed w side.below)

/-- What powers a wire from above: strong power through a full block, or a torch on top of it and
the wires one step up. -/
def aboveFeeds (b : Board) (w : World) (p : Position) : Except BuildError (List Feed) :=
  let above := p.above
  if (w.block above).conducts then b.relayed w above true p
  else
    .ok ((if (w.block above).isTorch then [.torch above] else [])
      ++ Facing.all.flatMap fun f => wireFeed w (above.toward f))

/-- What powers a wire from below. -/
def belowFeeds (b : Board) (w : World) (p : Position) : Except BuildError (List Feed) :=
  if (w.block p.below).conducts then b.relayed w p.below true p else .ok []

/-- **The feeds of a wire.** -/
def wireFeeds (b : Board) (w : World) (p : Position) : Except BuildError (List Feed) := do
  let below ← b.belowFeeds w p
  let above ← b.aboveFeeds w p
  let beside ← Facing.all.flatMapM (b.sideFeeds w p)
  .ok (below ++ above ++ beside)

/-- The block that a torch hangs on or stands on, and that switches it off. -/
def torchSupport (w : World) (p : Position) : Position :=
  match w.block p with
  | .wallTorch facing => p.toward facing.opposite
  | _ => p.below

/-- **The feeds of a torch**: whatever powers its support. -/
def torchFeeds (b : Board) (w : World) (p : Position) : Except BuildError (List Feed) :=
  let support := torchSupport w p
  if (w.block support).conducts then b.relayed w support false p else .ok []

/-- **The feeds of an input side of a nested circuit** that faces a given way. -/
def circuitFeeds (b : Board) (w : World) (p : Position) (facing : Facing) (side : Side) :
    Except BuildError (List Feed) :=
  let f := side.absolute facing
  let source := p.toward f
  if b.covers source then
    if (w.block source).conducts then b.relayed w source false p
    else b.directFeed w source (.ofFacing f)
  else .ok []

/-! ### Visiting -/

/-- The number of the node at a position, if it was visited. -/
def nodeAt? (visited : List (Position × NodeId)) (p : Position) : Option NodeId :=
  visited.lookup p

/-- The wires, torches and circuits that were not visited. -/
def unvisited (w : World) (visited : List (Position × NodeId)) : Nat :=
  w.positions.countP fun p => (w.block p).isComponent && (nodeAt? visited p).isNone

theorem unvisited_cons_lt {w : World} {visited : List (Position × NodeId)} {p : Position}
    {id : NodeId} (component : (w.block p).isComponent = true) (fresh : nodeAt? visited p = none) :
    unvisited w ((p, id) :: visited) < unvisited w visited := by
  have stands : w.block p ≠ .air := by
    intro air
    simp [air, Block.isComponent, Block.isWire, Block.isTorch, Block.isCircuit] at component
  refine countP_lt_of_mem (World.mem_positions stands) ?_ ?_ ?_
  · intro q h
    simp only [Bool.and_eq_true, nodeAt?, List.lookup_cons] at h ⊢
    refine ⟨h.1, ?_⟩
    split at h
    · simp at h
    · exact h.2
  · simp [component, fresh]
  · simp [nodeAt?]

/-- Adds the edge from a visited component to what it feeds. Two wires are joined both ways. -/
def attach (g : Netlist .wired) (id : NodeId) (feed : Feed) (target : NodeId) :
    Except NetlistError (Netlist .wired) :=
  match feed with
  | .wire _ => if g.isWire target then g.joinWires id target else g.connect id target
  | .torch _ => g.connect id target
  | .circuit _ _ side => do
    let output ← g.circuitOutput id side
    g.connect output target

/-- Adds the node of a component. -/
def addNode (g : Netlist .wired) (feed : Feed) : Except NetlistError (NodeId × Netlist .wired) :=
  match feed with
  | .wire _ => g.addWire
  | .torch _ => .ok g.addTorch
  | .circuit _ table _ => .ok (g.addCircuit table)

/-- Adds the edge from the input socket that a wire stands on, if it stands on one. -/
def attachInput (b : Board) (inputs : List (Facing × NodeId)) (g : Netlist .wired) (id : NodeId)
    (feed : Feed) : Except NetlistError (Netlist .wired) :=
  match feed with
  | .wire p =>
    match (b.inputSideAt? p.below).bind (List.lookup · inputs) with
    | some input => g.connect input id
    | none => .ok g
  | _ => .ok g

/-- **The feeds to visit after a component**, each with the node that it feeds. -/
def feedsOf (b : Board) (w : World) (g : Netlist .wired) (id : NodeId) (feed : Feed) :
    Except BuildError (List (NodeId × Feed)) :=
  match feed with
  | .wire p => do
    let feeds ← b.wireFeeds w p
    .ok (feeds.map (id, ·))
  | .torch p => do
    let feeds ← b.torchFeeds w p
    .ok (feeds.map (id, ·))
  | .circuit p _ _ => do
    match w.block p with
    | .circuit facing =>
      let children ← (g.circuitInputs id).mapError .netlist
      children.flatMapM fun (side, child) => do
        let feeds ← b.circuitFeeds w p facing side
        .ok (feeds.map (child, ·))
    | _ => .ok []

/-- **Visits feeds depth first.** A feed outside the area is passed over, and so is one whose
component is not in the world. -/
def follow (b : Board) (w : World) (inputs : List (Facing × NodeId)) (g : Netlist .wired)
    (visited : List (Position × NodeId)) (pending : List (NodeId × Feed)) :
    Except BuildError (Netlist .wired × List (Position × NodeId)) :=
  match pending with
  | [] => .ok (g, visited)
  | (target, feed) :: rest =>
    if b.covers feed.position then
      match _fresh : nodeAt? visited feed.position with
      | some id => do
        -- Already visited: only the edge is new.
        let g ← (attach g id feed target).mapError .netlist
        b.follow w inputs g visited rest
      | none =>
        if _component : (w.block feed.position).isComponent then do
          let (id, g) ← (addNode g feed).mapError .netlist
          let g ← (attach g id feed target).mapError .netlist
          let g ← (b.attachInput inputs g id feed).mapError .netlist
          let feeds ← b.feedsOf w g id feed
          -- Its own feeds come before what was pending, so the visit goes deep first.
          b.follow w inputs g ((feed.position, id) :: visited) (feeds ++ rest)
        else b.follow w inputs g visited rest
    else b.follow w inputs g visited rest
termination_by (unvisited w visited, pending.length)
decreasing_by
  · exact Prod.Lex.right _ (Nat.lt_succ_self _)
  · exact Prod.Lex.left _ _ (unvisited_cons_lt _component _fresh)
  · exact Prod.Lex.right _ (Nat.lt_succ_self _)
  · exact Prod.Lex.right _ (Nat.lt_succ_self _)

/-- The nodes of the input sockets, clockwise from north. -/
def addInputs (b : Board) :
    Except NetlistError (Netlist .wired × List (Facing × NodeId)) :=
  b.inputs.foldlM (fun (g, inputs) f => do
    let (id, g) ← g.addInput (b.socket f).socket
    .ok (g, inputs ++ [(f, id)])) (Netlist.empty, [])

/-- **The circuit on a board.** The output sockets are traced clockwise from north, each from the
wires that stand on its blocks. -/
def trace (b : Board) (w : World) : Except BuildError (Netlist .wired) := do
  let (g, inputs) ← b.addInputs.mapError .netlist
  let (g, _) ← b.outputs.foldlM (fun (g, visited) f => do
    let (output, g) ← (g.addOutput (b.socket f).socket).mapError .netlist
    let feeds := (socketBlocks b.corner f).flatMap fun p => wireFeed w p.above
    b.follow w inputs g visited (feeds.map (output, ·))) (g, [])
  .ok g

end Board

end TorchLogic
