import TorchLogic.Proofs.Board.Follow
import TorchLogic.Proofs.Board.Square
import TorchLogic.Proofs.World.Shift

/-!
# A board moved with its world

In a world that is moved as a whole (`World.Shifted`) the circuit on the moved board is traced in
the same way. Which blocks belong to the board, what powers what, and in which order it is found,
all of that is the same, moved (`Board.wireFeeds_shift`, `Board.torchFeeds_shift`,
`Board.circuitFeeds_shift`). While feeds are followed, only the positions under which nodes are
filed are others, and the nodes are the same with the same numbers (`Board.follow_shift`). So the
netlist is the same, and so would be the reason why it could not be built, moved
(`Board.trace_shift`).
-/

namespace TorchLogic

variable {p q d : Position}

/-- The feed at a moved position. -/
def Feed.shift (feed : Feed) (d : Position) : Feed :=
  match feed with
  | wire p => wire (p.shift d)
  | torch p => torch (p.shift d)
  | circuit p table side => circuit (p.shift d) table side

theorem Feed.position_shift (feed : Feed) (d : Position) :
    (feed.shift d).position = feed.position.shift d := by
  cases feed <;> rfl

/-- The same cause at a moved position. -/
def BuildError.shift (e : BuildError) (d : Position) : BuildError :=
  match e with
  | netlist e => netlist e
  | notAConductor p => notAConductor (p.shift d)
  | notACircuit p => notACircuit (p.shift d)

namespace Board

/-- **A moved board.** -/
def shift (b : Board) (d : Position) : Board := ⟨b.corner.shift d, b.role⟩

/-! ### What is found, moved -/

section Moved

variable {α β γ δ : Type} {g : α → β} {g' : γ → δ}

/-- **What was found, moved in its own way**, or the reason why nothing was, moved. -/
def moved (d : Position) (g : α → β) (found : Except BuildError α) : Except BuildError β :=
  match found with
  | .ok a => .ok (g a)
  | .error e => .error (e.shift d)

theorem moved_bind {found : Except BuildError α} {found' : Except BuildError β}
    {next : α → Except BuildError γ} {next' : β → Except BuildError δ}
    (first : found' = moved d g found) (same : ∀ a, next' (g a) = moved d g' (next a)) :
    (found' >>= next') = moved d g' (found >>= next) := by
  rw [first]
  cases found with
  | ok a => exact same a
  | error e => rfl

/-- An operation on the netlist knows no positions. -/
theorem moved_netlist_bind (x : Except NetlistError α) {next : α → Except BuildError γ}
    {next' : α → Except BuildError δ} (same : ∀ a, next' a = moved d g' (next a)) :
    (x.mapError .netlist >>= next') = moved d g' (x.mapError .netlist >>= next) := by
  cases x with
  | ok a => exact same a
  | error e => rfl

theorem flatMapM_moved {l : List α} {find : α → Except BuildError (List γ)}
    {find' : α → Except BuildError (List δ)}
    (same : ∀ a ∈ l, find' a = moved d (List.map g') (find a)) :
    l.flatMapM find' = moved d (List.map g') (l.flatMapM find) := by
  induction l with
  | nil => rfl
  | cons a rest ih =>
    rw [List.flatMapM_cons, List.flatMapM_cons]
    refine moved_bind (same a List.mem_cons_self) fun first => ?_
    refine moved_bind (ih fun b mem => same b (List.mem_cons_of_mem a mem)) fun others => ?_
    exact congrArg Except.ok List.map_append.symm

theorem foldlM_moved {ι : Type} {l : List ι} {k : α → ι → Except BuildError α}
    {k' : β → ι → Except BuildError β}
    (same : ∀ i ∈ l, ∀ a, k' (g a) i = moved d g (k a i)) (a : α) :
    l.foldlM k' (g a) = moved d g (l.foldlM k a) := by
  induction l generalizing a with
  | nil => rfl
  | cons i rest ih =>
    rw [List.foldlM_cons, List.foldlM_cons]
    exact moved_bind (same i List.mem_cons_self a)
      (ih fun j mem => same j (List.mem_cons_of_mem i mem))

end Moved

/-! ### The board -/

variable {b : Board} {w w' : World}

theorem cellAt_shift (corner d : Position) (x z : Nat) :
    cellAt (corner.shift d) x z = (cellAt corner x z).shift d :=
  Position.shift_offset corner d x 0 z

theorem socketBlocks_shift (corner d : Position) (f : Facing) :
    socketBlocks (corner.shift d) f = (socketBlocks corner f).map (·.shift d) := by
  rw [socketBlocks, socketBlocks, List.map_map]
  exact List.map_congr_left fun n _ => cellAt_shift corner d _ _

theorem covers_shift (b : Board) (p d : Position) :
    (b.shift d).covers (p.shift d) = b.covers p := by
  rw [Bool.eq_iff_iff, covers_iff, covers_iff]
  dsimp only [shift, Position.shift, Position.offset]
  omega

theorem mem_socketBlocks_shift {corner : Position} {f : Facing} :
    p.shift d ∈ socketBlocks (corner.shift d) f ↔ p ∈ socketBlocks corner f := by
  rw [socketBlocks_shift, List.mem_map]
  refine ⟨?_, fun mem => ⟨p, mem, rfl⟩⟩
  rintro ⟨q, mem, eq⟩
  rwa [← Position.shift_inj.1 eq]

theorem onSquare_shift {corner : Position} :
    OnSquare (corner.shift d) (p.shift d) ↔ OnSquare corner p := by
  dsimp only [OnSquare, Position.shift, Position.offset]
  omega

theorem inputSideAt?_shift (b : Board) (p d : Position) :
    (b.shift d).inputSideAt? (p.shift d) = b.inputSideAt? p := by
  have contains (f : Facing) : ((b.shift d).socket f).contains (p.shift d) =
      (b.socket f).contains p := by
    rw [BoardSocket.contains, BoardSocket.contains, Bool.eq_iff_iff, List.contains_iff_mem,
      List.contains_iff_mem]
    exact mem_socketBlocks_shift
  simp only [inputSideAt?, contains]
  rfl

/-! ### What powers what -/

section Feeds

variable (shifted : w.Shifted w' d)

include shifted

theorem circuitFeed_shift (p : Position) (looking : Facing) :
    (b.shift d).circuitFeed w' (p.shift d) looking =
      moved d (List.map (·.shift d)) (b.circuitFeed w p looking) := by
  simp only [circuitFeed, covers_shift, shifted.block, shifted.table]
  cases b.covers p with
  | false => rfl
  | true =>
    cases w.block p with
    | circuit facing =>
      cases w.table? p with
      | none => rfl
      | some table =>
        dsimp only
        cases table.hasOutput (Side.relative facing looking) <;> rfl
    | _ => rfl

theorem directFeed_shift (p : Position) (way : Direction) :
    (b.shift d).directFeed w' (p.shift d) way =
      moved d (List.map (·.shift d)) (b.directFeed w p way) := by
  simp only [directFeed, covers_shift, shifted.block, circuitFeed_shift shifted]
  cases b.covers p with
  | false => rfl
  | true =>
    cases w.block p with
    | circuit facing => cases way.opposite.facing? <;> rfl
    | _ => rfl

theorem relayedFrom_shift (p : Position) (strong : Bool) (way : Direction) :
    (b.shift d).relayedFrom w' (p.shift d) strong way =
      moved d (List.map (·.shift d)) (b.relayedFrom w p strong way) := by
  -- From below a torch, from above a wire, and from a side a wire or a circuit.
  rcases direction_cases way with rfl | rfl | ⟨f, rfl⟩
  · simp only [relayedFrom_down, Position.shift_below, shifted.block]
    split <;> rfl
  · simp only [relayedFrom_up, Position.shift_above, shifted.block]
    split <;> rfl
  · simp only [relayedFrom_ofFacing, Position.shift_toward, shifted.block, shifted.wirePoints,
      circuitFeed_shift shifted, ok_bind]
    have circuits : (if (w.block (p.toward f)).isCircuit = true
            then moved d (List.map (·.shift d)) (b.circuitFeed w (p.toward f) f.opposite)
            else .ok []) =
        moved d (List.map (·.shift d)) (if (w.block (p.toward f)).isCircuit = true
          then b.circuitFeed w (p.toward f) f.opposite else .ok []) := by
      split <;> rfl
    refine moved_bind circuits fun feeds => ?_
    rw [moved, List.map_append]
    split <;> rfl

/-- **What powers a full block** is the same, moved. -/
theorem relayed_shift (p : Position) (strong : Bool) (asking : Position) :
    (b.shift d).relayed w' (p.shift d) strong (asking.shift d) =
      moved d (List.map (·.shift d)) (b.relayed w p strong asking) := by
  have asks (way : Direction) : ((p.shift d).step way != asking.shift d) =
      (p.step way != asking) := by
    rw [Position.shift_step, Bool.eq_iff_iff, bne_iff_ne, bne_iff_ne, ne_eq, Position.shift_inj]
  simp only [relayed, covers_shift, shifted.block, asks]
  cases b.covers p with
  | false => rfl
  | true =>
    cases (w.block p).conducts with
    | false => rfl
    | true => exact flatMapM_moved fun way _ => relayedFrom_shift shifted p strong way

theorem wireFeed_shift (p : Position) :
    wireFeed w' (p.shift d) = (wireFeed w p).map (·.shift d) := by
  rw [wireFeed, wireFeed, shifted.block]
  cases (w.block p).isWire <;> rfl

theorem sideFeeds_shift (p : Position) (f : Facing) : (b.shift d).sideFeeds w' (p.shift d) f =
    moved d (List.map (·.shift d)) (b.sideFeeds w p f) := by
  simp only [sideFeeds, Position.shift_toward, Position.shift_below, shifted.block,
    relayed_shift shifted, directFeed_shift shifted, wireFeed_shift shifted]
  cases (w.block (p.toward f)).conducts with
  | true => rfl
  | false => exact moved_bind rfl fun feeds => congrArg Except.ok List.map_append.symm

theorem aboveFeeds_shift (p : Position) : (b.shift d).aboveFeeds w' (p.shift d) =
    moved d (List.map (·.shift d)) (b.aboveFeeds w p) := by
  simp only [aboveFeeds, Position.shift_toward, Position.shift_above, shifted.block,
    relayed_shift shifted, wireFeed_shift shifted]
  cases (w.block p.above).conducts with
  | true => rfl
  | false =>
    refine congrArg Except.ok ?_
    rw [List.map_append, List.map_flatMap]
    cases (w.block p.above).isTorch <;> rfl

theorem belowFeeds_shift (p : Position) : (b.shift d).belowFeeds w' (p.shift d) =
    moved d (List.map (·.shift d)) (b.belowFeeds w p) := by
  simp only [belowFeeds, Position.shift_below, shifted.block, relayed_shift shifted]
  cases (w.block p.below).conducts <;> rfl

/-- **What powers a wire** is the same, moved. -/
theorem wireFeeds_shift (p : Position) : (b.shift d).wireFeeds w' (p.shift d) =
    moved d (List.map (·.shift d)) (b.wireFeeds w p) := by
  have beside : Facing.all.flatMapM ((b.shift d).sideFeeds w' (p.shift d)) =
      moved d (List.map (·.shift d)) (Facing.all.flatMapM (b.sideFeeds w p)) :=
    flatMapM_moved fun f _ => sideFeeds_shift shifted p f
  refine moved_bind (belowFeeds_shift shifted p) fun below => ?_
  refine moved_bind (aboveFeeds_shift shifted p) fun above => ?_
  refine moved_bind beside fun beside => ?_
  simp only [moved, List.map_append]

theorem torchSupport_shift (p : Position) :
    torchSupport w' (p.shift d) = (torchSupport w p).shift d := by
  rw [torchSupport, torchSupport, shifted.block]
  cases w.block p with
  | wallTorch facing => exact Position.shift_toward p d facing.opposite
  | _ => exact Position.shift_below p d

/-- **What powers a torch** is the same, moved. -/
theorem torchFeeds_shift (p : Position) : (b.shift d).torchFeeds w' (p.shift d) =
    moved d (List.map (·.shift d)) (b.torchFeeds w p) := by
  simp only [torchFeeds, torchSupport_shift shifted, shifted.block, relayed_shift shifted]
  cases (w.block (torchSupport w p)).conducts <;> rfl

/-- **What powers an input side of a nested circuit** is the same, moved. -/
theorem circuitFeeds_shift (p : Position) (facing : Facing) (side : Side) :
    (b.shift d).circuitFeeds w' (p.shift d) facing side =
      moved d (List.map (·.shift d)) (b.circuitFeeds w p facing side) := by
  simp only [circuitFeeds, Position.shift_toward, covers_shift, shifted.block,
    relayed_shift shifted, directFeed_shift shifted]
  cases b.covers (p.toward (side.absolute facing)) with
  | false => rfl
  | true => cases (w.block (p.toward (side.absolute facing))).conducts <;> rfl

end Feeds

/-! ### Visiting -/

/-- What is filed under a position, moved. -/
def shiftKey (d : Position) (entry : Position × NodeId) : Position × NodeId :=
  (entry.1.shift d, entry.2)

/-- A pending feed, moved. -/
def shiftPending (d : Position) (entry : NodeId × Feed) : NodeId × Feed :=
  (entry.1, entry.2.shift d)

theorem map_shiftPending (id : NodeId) (feeds : List Feed) (d : Position) :
    (feeds.map (·.shift d)).map (id, ·) = (feeds.map (id, ·)).map (shiftPending d) := by
  rw [List.map_map, List.map_map]
  rfl

theorem nodeAt?_shift (visited : List (Position × NodeId)) (p d : Position) :
    nodeAt? (visited.map (shiftKey d)) (p.shift d) = nodeAt? visited p := by
  induction visited with
  | nil => rfl
  | cons entry rest ih =>
    obtain ⟨q, id⟩ := entry
    have same : (p.shift d == q.shift d) = (p == q) := by
      rw [Bool.eq_iff_iff, beq_iff_eq, beq_iff_eq, Position.shift_inj]
    rw [nodeAt?, nodeAt?] at ih ⊢
    rw [List.map_cons, shiftKey, List.lookup_cons, List.lookup_cons, same, ih]

theorem covers_position_shift (b : Board) (feed : Feed) (d : Position) :
    (b.shift d).covers (feed.shift d).position = b.covers feed.position := by
  rw [Feed.position_shift, covers_shift]

theorem nodeAt?_position_shift (visited : List (Position × NodeId)) (feed : Feed) (d : Position) :
    nodeAt? (visited.map (shiftKey d)) (feed.shift d).position = nodeAt? visited feed.position := by
  rw [Feed.position_shift, nodeAt?_shift]

theorem attach_shift (g : Netlist .wired) (id : NodeId) (feed : Feed)
    (target : NodeId) (d : Position) :
    attach g id (feed.shift d) target = attach g id feed target := by
  cases feed <;> rfl

theorem addNode_shift (g : Netlist .wired) (feed : Feed) (d : Position) :
    addNode g (feed.shift d) = addNode g feed := by
  cases feed <;> rfl

theorem attachInput_shift (b : Board) (inputs : List (Facing × NodeId))
    (g : Netlist .wired) (id : NodeId) (feed : Feed) (d : Position) :
    (b.shift d).attachInput inputs g id (feed.shift d) = b.attachInput inputs g id feed := by
  cases feed with
  | wire p =>
    rw [Feed.shift, attachInput, Position.shift_below, inputSideAt?_shift]
    rfl
  | torch p => rfl
  | circuit p table side => rfl

theorem feedsOf_shift (shifted : w.Shifted w' d) (g : Netlist .wired) (id : NodeId) (feed : Feed) :
    (b.shift d).feedsOf w' g id (feed.shift d) =
      moved d (List.map (shiftPending d)) (b.feedsOf w g id feed) := by
  cases feed with
  | wire p =>
    exact moved_bind (wireFeeds_shift shifted p) fun feeds =>
      congrArg Except.ok (map_shiftPending id feeds d)
  | torch p =>
    exact moved_bind (torchFeeds_shift shifted p) fun feeds =>
      congrArg Except.ok (map_shiftPending id feeds d)
  | circuit p table side =>
    -- the children are numbered alike, so each has the feeds of its side moved
    rw [Feed.shift, feedsOf, feedsOf, shifted.block]
    cases w.block p with
    | circuit facing =>
      dsimp only
      refine moved_netlist_bind _ fun children => flatMapM_moved fun child _ => ?_
      exact moved_bind (circuitFeeds_shift shifted p facing child.1) fun feeds =>
        congrArg Except.ok (map_shiftPending child.2 feeds d)
    | _ => rfl

/-- A feed whose component is not in the world is passed over. -/
theorem follow_of_absent {inputs : List (Facing × NodeId)} {g : Netlist .wired}
    {visited : List (Position × NodeId)} {target : NodeId} {feed : Feed}
    {rest : List (NodeId × Feed)}
    (covered : b.covers feed.position = true) (fresh : nodeAt? visited feed.position = none)
    (absent : ¬ (w.block feed.position).isComponent = true) :
    b.follow w inputs g visited ((target, feed) :: rest) = b.follow w inputs g visited rest := by
  rw [follow, if_pos covered]
  split
  case h_1 k there =>
    rw [fresh] at there
    cases there
  case h_2 => rw [dif_neg absent]

/-- **Following feeds gives the same netlist**, and the positions that were visited, moved. -/
theorem follow_shift (shifted : w.Shifted w' d) (inputs : List (Facing × NodeId))
    (g : Netlist .wired) (visited : List (Position × NodeId)) (pending : List (NodeId × Feed)) :
    (b.shift d).follow w' inputs g (visited.map (shiftKey d)) (pending.map (shiftPending d)) =
      moved d (Prod.map id (List.map (shiftKey d))) (b.follow w inputs g visited pending) := by
  -- The induction is on the visit in the one world, and the other visit takes the same steps.
  induction g, visited, pending using Board.follow.induct b w with
  | case1 g visited =>
    rw [List.map_nil, follow, follow]
    rfl
  -- A component that was visited already.
  | case2 g visited target feed rest covered id here ih =>
    have covered' : (b.shift d).covers (feed.shift d).position = true := by
      rwa [covers_position_shift]
    have here' : nodeAt? (visited.map (shiftKey d)) (feed.shift d).position = some id := by
      rwa [nodeAt?_position_shift]
    rw [List.map_cons, shiftPending, follow_of_visited covered here,
      follow_of_visited covered' here', attach_shift]
    exact moved_netlist_bind _ ih
  -- The first visit of a component.
  | case3 g visited target feed rest covered fresh component ih =>
    rw [List.map_cons, shiftPending, follow_of_fresh covered fresh component, follow_of_fresh]
    · rw [addNode_shift]
      refine moved_netlist_bind _ fun n => ?_
      rw [attach_shift]
      refine moved_netlist_bind _ fun g => ?_
      rw [attachInput_shift]
      refine moved_netlist_bind _ fun g => ?_
      refine moved_bind (feedsOf_shift shifted g n.1 feed) fun feeds => ?_
      have later := ih n.1 g feeds
      rw [List.map_append] at later
      rw [Feed.position_shift]
      exact later
    · rwa [covers_position_shift]
    · rwa [nodeAt?_position_shift]
    · rwa [Feed.position_shift, shifted.block]
  -- What is not in the one world is not in the other one.
  | case4 g visited target feed rest covered fresh absent ih =>
    rw [List.map_cons, shiftPending, follow_of_absent covered fresh absent, follow_of_absent]
    · exact ih
    · rwa [covers_position_shift]
    · rwa [nodeAt?_position_shift]
    · rwa [Feed.position_shift, shifted.block]
  | case5 g visited target feed rest outside ih =>
    rw [List.map_cons, shiftPending, follow_of_outside outside, follow_of_outside]
    · exact ih
    · rwa [covers_position_shift]

/-- **The circuit on a moved board has the same netlist**, with the same numbers for its nodes. -/
theorem trace_shift (shifted : w.Shifted w' d) : (b.shift d).trace w' = moved d id (b.trace w) := by
  refine moved_netlist_bind b.addInputs fun first => ?_
  have feeds (f : Facing) :
      (socketBlocks (b.shift d).corner f).flatMap (fun p => wireFeed w' p.above) =
      ((socketBlocks b.corner f).flatMap fun p => wireFeed w p.above).map (·.shift d) := by
    rw [shift, socketBlocks_shift, List.flatMap_map, List.map_flatMap]
    simp only [Position.shift_above, wireFeed_shift shifted]
  -- From output to output the netlist is the same, and the positions that were visited are moved.
  refine moved_bind (g := Prod.map id (List.map (shiftKey d))) ?_ fun state => rfl
  refine foldlM_moved (g := Prod.map id (List.map (shiftKey d))) (fun f _ state => ?_) (first.1, [])
  refine moved_netlist_bind (state.1.addOutput (b.socket f).socket) fun n => ?_
  dsimp only
  rw [feeds, map_shiftPending]
  exact follow_shift shifted first.2 n.2 state.2 _

end Board

end TorchLogic
