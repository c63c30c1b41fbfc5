import TorchLogic.Board.Resolve
import TorchLogic.Proofs.Board.Square
import TorchLogic.Proofs.Fallible

/-!
# Which blocks belong to a board

A block belongs to a board when it is on a square of breadboard blocks in the right styles that no
other breadboard block touches (`Board.Laid`). Resolving finds exactly those boards
(`Board.resolve_eq_ok_iff`).

Inspecting a square goes from cell to cell and remembers what it has found of the sides, but what is
wrong with a cell can be told without that (`Board.cellFault?`). The first cell of each side is the
same on every square, so the style that the others are compared to is known beforehand, and so are
the blocks that will have been gathered in the end (`Board.inspect_cells`).

Walking north and west along breadboard blocks ends at the corner, because the walk cannot leave a
board, and from a corner that was walked to, the way back to where the walk began stays on the
square for the same reason.
-/

namespace TorchLogic

variable {w : World} {b : Board} {corner p : Position} {f : Facing} {d : Direction}
  {styles : Facing → Style}

/-! ### Walking along breadboard blocks -/

namespace World

theorem isBreadboard_lastBreadboard (h : (w.block p).isBreadboard = true) :
    (w.block (w.lastBreadboard d p)).isBreadboard = true := by
  fun_induction w.lastBreadboard d p with
  | case1 p next ih => exact ih next
  | case2 p stop => exact h

/-- What breadboard blocks keep on the way back is kept from the end of a walk to its start. -/
theorem of_lastBreadboard {motive : Position → Prop} (start : (w.block p).isBreadboard = true)
    (back : ∀ q, motive (q.step d) → (w.block q).isBreadboard = true → motive q)
    (last : motive (w.lastBreadboard d p)) : motive p := by
  fun_induction w.lastBreadboard d p with
  | case1 p next ih => exact back p (ih next last) start
  | case2 p stop => exact last

end World

namespace Board

/-! ### Squares of breadboard blocks -/

/-- **Whether a square is a board** whose sockets look a given way: each socket has one style, the
rest of the square is plain, and no breadboard block beside the square touches it. -/
structure Laid (w : World) (corner : Position) (styles : Facing → Style) : Prop where
  socket : ∀ {f p}, p ∈ socketBlocks corner f → w.block p = .breadboard (styles f)
  plain : ∀ {p}, OnSquare corner p → (∀ f, p ∉ socketBlocks corner f) →
    w.block p = .breadboard .plain
  alone : ∀ {p f}, OnSquare corner p → ¬ OnSquare corner (p.toward f) →
    (w.block (p.toward f)).isBreadboard = false

theorem Laid.isBreadboard (laid : Laid w corner styles) (mem : OnSquare corner p) :
    (w.block p).isBreadboard = true := by
  by_cases socket : ∃ f, p ∈ socketBlocks corner f
  · obtain ⟨f, socket⟩ := socket
    rw [laid.socket socket]
    rfl
  · rw [laid.plain mem (not_exists.1 socket)]
    rfl

/-- A square is a board because of the blocks on it and beside it. -/
theorem Laid.congr {w' : World} (laid : Laid w corner styles)
    (square : ∀ p, OnSquare corner p → w'.block p = w.block p)
    (beside : ∀ p f, OnSquare corner p → w'.block (p.toward f) = w.block (p.toward f)) :
    Laid w' corner styles where
  socket mem := by
    rw [square _ (onSquare_of_mem_socketBlocks mem), laid.socket mem]
  plain mem none := by
    rw [square _ mem, laid.plain mem none]
  alone mem out := by
    rw [beside _ _ mem, laid.alone mem out]

/-- A board is on one level, and what happens on others is nothing to it. -/
theorem Laid.of_level {w' : World} (laid : Laid w corner styles)
    (same : ∀ p, p.y = corner.y → w'.block p = w.block p) : Laid w' corner styles :=
  laid.congr (fun p mem => same p mem.1) fun p f mem => same _ ((Position.toward_y p f).trans mem.1)

/-- No walk along breadboard blocks leaves a board. -/
theorem Laid.onSquare_toward (laid : Laid w corner styles) (mem : OnSquare corner p)
    (board : (w.block (p.toward f)).isBreadboard = true) : OnSquare corner (p.toward f) := by
  refine Decidable.byContradiction fun out => ?_
  rw [laid.alone mem out] at board
  cases board

/-! ### Inspecting cells -/

section Cells

variable {x z : Nat}

/-- A cell on the edge of a side is one whose neighbour on that side is not on the square. -/
theorem onEdge_iff (hx : x < 8) (hz : z < 8) :
    onEdge x z f = true ↔ ¬ OnSquare corner ((cellAt corner x z).toward f) := by
  cases f <;>
    simp only [onEdge, edge, beq_iff_eq, OnSquare, cellAt, Position.offset, Position.toward,
      Direction.ofFacing, Position.step] <;>
    omega

/-- The style of the first block of a side's socket, to which the others are compared. -/
def socketStyle (w : World) (corner : Position) (f : Facing) : Style :=
  match w.block (cellAt corner (edgeCell 1 f).1 (edgeCell 1 f).2) with
  | .breadboard style => style
  | _ => .plain

/-- The style that a cell must have. -/
def cellStyle (w : World) (corner : Position) (x z : Nat) : Style :=
  match socketSide? x z with
  | some f => socketStyle w corner f
  | none => .plain

/-- Whether a breadboard block outside the square touches a cell. -/
def cellTouched (w : World) (corner : Position) (x z : Nat) : Bool :=
  Facing.all.any fun f =>
    onEdge x z f && (w.block ((cellAt corner x z).toward f)).isBreadboard

/-- **What is wrong with a cell** of the square with a given corner. -/
def cellFault? (w : World) (corner : Position) (x z : Nat) : Option BoardError :=
  match w.block (cellAt corner x z) with
  | .breadboard style =>
    if cellTouched w corner x z then some (.notIsolated (cellAt corner x z))
    else if style = cellStyle w corner x z then none
    else some (.styleBroken (cellAt corner x z))
  | _ => some (.incomplete (cellAt corner x z))

/-- The last side that a cell is on the edge of, between the corners, is the side whose socket it is
in: no cell is between the corners of two sides. -/
theorem foldl_alongEdge (hx : x < 8) (hz : z < 8) :
    Facing.all.foldl (fun side f =>
      if onEdge x z f then if isInner (alongEdge x z f) then some f else side else side) none =
      socketSide? x z := by
  have all : ∀ x < 8, ∀ z < 8, Facing.all.foldl (fun side f =>
      if onEdge x z f then if isInner (alongEdge x z f) then some f else side else side) none =
      socketSide? x z := by decide
  exact all x hx z hz

/-- **Going through the sides** gives the side of the cell's socket, unless the cell is touched. -/
theorem inspectEdges_eq (hx : x < 8) (hz : z < 8) : inspectEdges w (cellAt corner x z) x z =
    if cellTouched w corner x z then .error (.notIsolated (cellAt corner x z))
    else .ok (socketSide? x z) := by
  rw [← foldl_alongEdge hx hz, cellTouched, inspectEdges]
  -- The induction is on the sides that are left, with any side found so far.
  generalize (none : Option Facing) = side
  induction Facing.all generalizing side with
  | nil => rfl
  | cons f rest ih =>
    rw [List.foldlM_cons, List.any_cons, List.foldl_cons]
    cases edge : onEdge x z f with
    | false =>
      rw [Bool.false_and, Bool.false_or]
      exact ih side
    | true =>
      -- a cell on this edge, with something beside it or without
      cases (w.block ((cellAt corner x z).toward f)).isBreadboard with
      | false =>
        rw [Bool.and_false, Bool.false_or]
        exact ih _
      | true => rfl

end Cells

/-- **What has been gathered** from a part of the cells: the blocks of each socket that are among
them, and the style of the first block of the side if one is. -/
structure Gathered (w : World) (corner : Position) (done : List (Nat × Nat)) (s : Sides) : Prop
    where
  blocks : ∀ f, s.blocks f =
    (done.filter fun c => socketSide? c.1 c.2 = some f).map fun c => cellAt corner c.1 c.2
  style : ∀ f, s.style? f =
    (done.find? fun c => socketSide? c.1 c.2 = some f).map fun _ => socketStyle w corner f

/-- The first cell of a side, in the order of the rows. -/
theorem find?_cells (f : Facing) :
    (cells.find? fun c => socketSide? c.1 c.2 = some f) = some (edgeCell 1 f) := by
  cases f <;> decide

/-- The cells of a side, in the order of the rows, are those of its socket. -/
theorem filter_cells (f : Facing) : (cells.filter fun c => socketSide? c.1 c.2 = some f) =
    ((List.range edge).filter isInner).map fun n => edgeCell n f := by
  cases f <;> decide

/-- The style of a side that was found, or of the first cell of a side, is that of its first block.
-/
theorem Gathered.getD_style {done rest : List (Nat × Nat)} {s : Sides} {c : Nat × Nat}
    {style : Style} (gathered : Gathered w corner done s) (eq : cells = done ++ c :: rest)
    (side : socketSide? c.1 c.2 = some f)
    (block : w.block (cellAt corner c.1 c.2) = .breadboard style) :
    (s.style? f).getD style = socketStyle w corner f := by
  rw [gathered.style f]
  cases found : done.find? fun c => socketSide? c.1 c.2 = some f with
  -- an earlier cell of the side has told the style
  | some d => rfl
  | none =>
    -- No earlier cell is of this side, so this is the first one.
    have first := find?_cells f
    rw [eq, List.find?_append, found, Option.none_or, List.find?_cons_of_pos (by simpa using side),
      Option.some.injEq] at first
    subst first
    rw [Option.map_none, Option.getD_none, socketStyle, block]

/-- A cell in no socket changes nothing. -/
theorem Gathered.skip {done : List (Nat × Nat)} {s : Sides} {c : Nat × Nat}
    (gathered : Gathered w corner done s) (side : socketSide? c.1 c.2 = none) :
    Gathered w corner (done ++ [c]) s where
  blocks g := by
    rw [gathered.blocks g, List.filter_append, List.filter_cons_of_neg (by simp [side]),
      List.filter_nil, List.append_nil]
  style g := by
    rw [gathered.style g, List.find?_append, List.find?_cons_of_neg (by simp [side]),
      List.find?_nil, Option.or_none]

/-- A cell of a socket is gathered, and the style of its side is known from then on. -/
theorem Gathered.add {done : List (Nat × Nat)} {s : Sides} {c : Nat × Nat} {style : Style}
    (gathered : Gathered w corner done s) (side : socketSide? c.1 c.2 = some f)
    (known : (s.style? f).getD style = socketStyle w corner f) :
    Gathered w corner (done ++ [c]) (s.add f (cellAt corner c.1 c.2) style) where
  blocks g := by
    rw [Sides.blocks_add, List.filter_append, List.map_append, ← gathered.blocks g]
    -- Only the side of the cell gets a block more,
    by_cases here : g = f
    · subst here
      rw [if_pos rfl, List.filter_cons_of_pos (by simp [side])]
      rfl
    · have other : ¬ f = g := fun same => here same.symm
      rw [if_neg here, List.filter_cons_of_neg (by simp [side, other])]
      exact (List.append_nil _).symm
  style g := by
    rw [Sides.style?_add, List.find?_append]
    -- and a style, if it had none.
    by_cases here : g = f
    · subst here
      rw [if_pos rfl, known, List.find?_cons_of_pos (by simp [side])]
      cases done.find? fun c => socketSide? c.1 c.2 = some g <;> rfl
    · have other : ¬ f = g := fun same => here same.symm
      rw [if_neg here, gathered.style g, List.find?_cons_of_neg (by simp [side, other]),
        List.find?_nil, Option.or_none]

/-- **Inspecting a cell** reports what is wrong with it, and gathers it otherwise. -/
theorem Gathered.inspect {done rest : List (Nat × Nat)} {s : Sides} {c : Nat × Nat}
    (gathered : Gathered w corner done s) (eq : cells = done ++ c :: rest) :
    (∃ e, cellFault? w corner c.1 c.2 = some e ∧ inspect w corner s c = .error e) ∨
    (cellFault? w corner c.1 c.2 = none ∧ ∃ s', Board.inspect w corner s c = .ok s' ∧
      Gathered w corner (done ++ [c]) s') := by
  obtain ⟨hx, hz⟩ : c.1 < 8 ∧ c.2 < 8 :=
    mem_cells_iff.1 (eq ▸ List.mem_append_right done List.mem_cons_self)
  unfold Board.inspect cellFault?
  dsimp only
  cases block : w.block (cellAt corner c.1 c.2) with
  | breadboard style =>
    dsimp only
    rw [inspectEdges_eq hx hz]
    -- The checks come in the order of the cell's faults: beside it, on it, within its side.
    by_cases touched : cellTouched w corner c.1 c.2 = true
    · rw [if_pos touched, if_pos touched]
      exact .inl ⟨_, rfl, rfl⟩
    rw [if_neg touched, if_neg touched, ok_bind, cellStyle]
    cases side : socketSide? c.1 c.2 with
    | none =>
      by_cases plain : style = .plain
      · rw [if_pos plain, if_pos plain]
        exact .inr ⟨rfl, s, rfl, gathered.skip side⟩
      · rw [if_neg plain, if_neg plain]
        exact .inl ⟨_, rfl, rfl⟩
    | some f =>
      have known := gathered.getD_style eq side block
      dsimp only
      rw [known]
      by_cases same : style = socketStyle w corner f
      · rw [if_pos same, if_pos same.symm]
        exact .inr ⟨rfl, _, rfl, gathered.add side known⟩
      · rw [if_neg same, if_neg (Ne.symm same)]
        exact .inl ⟨_, rfl, rfl⟩
  -- no breadboard at all
  | _ => exact .inl ⟨_, rfl, rfl⟩

/-- **Inspecting a square** reports the first cell with which something is wrong. If there is none,
the sockets that have been gathered are those of the board at this corner. -/
theorem inspect_cells (w : World) (corner : Position) :
    (∃ e, (cells.findSome? fun (x, z) => cellFault? w corner x z) = some e ∧
      cells.foldlM (inspect w corner) .unknown = .error e) ∨
    ((cells.findSome? fun (x, z) => cellFault? w corner x z) = none ∧
      ∃ s, cells.foldlM (inspect w corner) .unknown = .ok s ∧
        ∀ f, s.socket f = socket ⟨corner, fun f => (socketStyle w corner f).role⟩ f) := by
  have start : Gathered w corner [] .unknown := ⟨fun _ => rfl, fun _ => rfl⟩
  rcases foldlM_findSome? (P := Gathered w corner) start
    fun done c rest s eq gathered => gathered.inspect eq with
      ⟨e, fault, failed⟩ | ⟨none, s, done, gathered⟩
  · exact .inl ⟨e, fault, failed⟩
  · refine .inr ⟨none, s, done, fun f => ?_⟩
    rw [Sides.socket, socket, gathered.blocks f, gathered.style f, find?_cells f, filter_cells f,
      List.map_map]
    rfl

/-- **Resolving without remembering**: the first cell with which something is wrong is told by the
cells alone. -/
theorem resolve_eq_findSome? (w : World) (p : Position) : resolve w p =
    if (w.block p).isBreadboard then
      if w.lastBreadboard .west (w.lastBreadboard .north p) =
          w.lastBreadboard .north (w.lastBreadboard .west p) then
        match cells.findSome? fun (x, z) =>
            cellFault? w (w.lastBreadboard .west (w.lastBreadboard .north p)) x z with
        | some fault => .error fault
        | none => .ok ⟨w.lastBreadboard .west (w.lastBreadboard .north p), fun f =>
            (socketStyle w (w.lastBreadboard .west (w.lastBreadboard .north p)) f).role⟩
      else .error (.notIsolated (w.lastBreadboard .west (w.lastBreadboard .north p)))
    else .error (.targetIsNoBreadboard p) := by
  unfold resolve
  generalize w.lastBreadboard .west (w.lastBreadboard .north p) = corner
  dsimp only
  rcases inspect_cells w corner with ⟨e, fault, failed⟩ | ⟨none, s, done, sockets⟩
  · rw [fault, failed]
    rfl
  · -- the roles are those of the sockets that were gathered
    have roles (f : Facing) : (s.socket f).role = (socketStyle w corner f).role :=
      congrArg BoardSocket.role (sockets f)
    rw [none, done, ok_bind]
    simp only [roles]

theorem Laid.socketStyle_eq (laid : Laid w corner styles) (f : Facing) :
    socketStyle w corner f = styles f := by
  have first : cellAt corner (edgeCell 1 f).1 (edgeCell 1 f).2 ∈ socketBlocks corner f :=
    List.mem_map_of_mem (by decide)
  rw [socketStyle, laid.socket first]

theorem cellFault?_eq_none_iff {x z : Nat} : cellFault? w corner x z = none ↔
    w.block (cellAt corner x z) = .breadboard (cellStyle w corner x z) ∧
      cellTouched w corner x z = false := by
  unfold cellFault?
  cases w.block (cellAt corner x z) with
  | breadboard style =>
    dsimp only
    split_ifs with touched broken
    · simp [touched]
    · simp [touched, broken]
    · simp [broken]
  | _ => simp

theorem cellStyle_eq {x z : Nat} (hx : x < 8) (hz : z < 8)
    (mem : cellAt corner x z ∈ socketBlocks corner f) :
    cellStyle w corner x z = socketStyle w corner f := by
  rw [cellStyle, (socketSide?_eq_some_iff hx hz).2 mem]

theorem cellStyle_eq_plain {x z : Nat} (hx : x < 8) (hz : z < 8)
    (none : ∀ f, cellAt corner x z ∉ socketBlocks corner f) :
    cellStyle w corner x z = .plain := by
  unfold cellStyle
  cases side : socketSide? x z with
  | none => rfl
  | some f => exact absurd ((socketSide?_eq_some_iff hx hz).1 side) (none f)

theorem cellTouched_eq_false_iff {x z : Nat} (hx : x < 8) (hz : z < 8) :
    cellTouched w corner x z = false ↔ ∀ f, ¬ OnSquare corner ((cellAt corner x z).toward f) →
      (w.block ((cellAt corner x z).toward f)).isBreadboard = false := by
  simp only [cellTouched, List.any_eq_false, Facing.mem_all, true_implies, Bool.and_eq_true,
    not_and, Bool.not_eq_true]
  exact forall_congr' fun f => imp_congr_left (onEdge_iff hx hz)

/-- **A square is a board when no cell is at fault.** -/
theorem laid_iff_cellFault? : Laid w corner (socketStyle w corner) ↔
    (cells.findSome? fun (x, z) => cellFault? w corner x z) = none := by
  rw [List.findSome?_eq_none_iff, Prod.forall]
  simp only [mem_cells_iff, and_imp]
  refine ⟨fun laid x z hx hz => ?_, fun sound => ?_⟩
  · have mem : OnSquare corner (cellAt corner x z) := onSquare_iff_cell.2 ⟨x, z, hx, hz, rfl⟩
    refine cellFault?_eq_none_iff.2 ⟨?_, (cellTouched_eq_false_iff hx hz).2 fun f => laid.alone mem⟩
    -- the block of the cell is of a socket or it is plain
    by_cases socket : ∃ f, cellAt corner x z ∈ socketBlocks corner f
    · obtain ⟨f, socket⟩ := socket
      rw [cellStyle_eq hx hz socket, laid.socket socket]
    · rw [cellStyle_eq_plain hx hz (not_exists.1 socket), laid.plain mem (not_exists.1 socket)]
  · -- cell by cell, every block of the square is as it has to be
    have cell {x z : Nat} (hx : x < 8) (hz : z < 8) := cellFault?_eq_none_iff.1 (sound x z hx hz)
    refine ⟨fun {f p} socket => ?_, fun {p} mem none => ?_, fun {p f} mem out => ?_⟩
    · obtain ⟨x, z, hx, hz, rfl⟩ := onSquare_iff_cell.1 (onSquare_of_mem_socketBlocks socket)
      rw [(cell hx hz).1, cellStyle_eq hx hz socket]
    · obtain ⟨x, z, hx, hz, rfl⟩ := onSquare_iff_cell.1 mem
      rw [(cell hx hz).1, cellStyle_eq_plain hx hz none]
    · obtain ⟨x, z, hx, hz, rfl⟩ := onSquare_iff_cell.1 mem
      exact (cellTouched_eq_false_iff hx hz).1 (cell hx hz).2 f out

/-! ### Finding the corner -/

theorem Laid.lastBreadboard_north (laid : Laid w corner styles) (mem : OnSquare corner p) :
    w.lastBreadboard .north p = ⟨p.x, p.y, corner.z⟩ := by
  fun_induction w.lastBreadboard .north p with
  | case1 p next ih =>
    rw [ih (laid.onSquare_toward (f := .north) mem next)]
    simp only [Position.step, Position.offset, Int.add_zero]
  | case2 p stop =>
    have out : ¬ OnSquare corner (p.step .north) := fun mem => stop (laid.isBreadboard mem)
    obtain ⟨x, y, z⟩ := p
    simp only [OnSquare, Position.step, Position.offset, Position.mk.injEq, true_and] at *
    omega

theorem Laid.lastBreadboard_west (laid : Laid w corner styles) (mem : OnSquare corner p) :
    w.lastBreadboard .west p = ⟨corner.x, p.y, p.z⟩ := by
  fun_induction w.lastBreadboard .west p with
  | case1 p next ih =>
    rw [ih (laid.onSquare_toward (f := .west) mem next)]
    simp only [Position.step, Position.offset, Int.add_zero]
  | case2 p stop =>
    have out : ¬ OnSquare corner (p.step .west) := fun mem => stop (laid.isBreadboard mem)
    obtain ⟨x, y, z⟩ := p
    simp only [OnSquare, Position.step, Position.offset, Position.mk.injEq, and_true] at *
    omega

/-- A walk that ends on a board began on it. -/
theorem Laid.onSquare_of_lastBreadboard (laid : Laid w corner styles)
    (start : (w.block p).isBreadboard = true)
    (last : OnSquare corner (w.lastBreadboard (.ofFacing f) p)) : OnSquare corner p := by
  refine World.of_lastBreadboard start (fun q mem board => ?_) last
  have back : (q.step (.ofFacing f)).toward f.opposite = q := by
    rw [Position.toward, ← Direction.opposite_ofFacing, Position.step_step_opposite]
  have stays := laid.onSquare_toward (f := f.opposite) mem
  rw [back] at stays
  exact stays board

/-- **Every block of a board belongs to it**: a walk north and west ends at the corner, in either
order, and nothing is wrong with the square. -/
theorem Laid.resolve_eq (laid : Laid w corner styles) (mem : OnSquare corner p) :
    resolve w p = .ok ⟨corner, fun f => (styles f).role⟩ := by
  -- Both ways to the corner stay on the square: first north and then west, or west and then north.
  have north : OnSquare corner ⟨p.x, p.y, corner.z⟩ := by
    unfold OnSquare at *
    dsimp only
    omega
  have west : OnSquare corner ⟨corner.x, p.y, p.z⟩ := by
    unfold OnSquare at *
    dsimp only
    omega
  have level : (⟨corner.x, p.y, corner.z⟩ : Position) = corner := by rw [mem.1]
  have roles : socketStyle w corner = styles := funext laid.socketStyle_eq
  have sound := laid
  rw [← roles, laid_iff_cellFault?] at sound
  rw [resolve_eq_findSome?, if_pos (laid.isBreadboard mem), laid.lastBreadboard_north mem,
    laid.lastBreadboard_west mem, laid.lastBreadboard_west north, laid.lastBreadboard_north west,
    if_pos rfl, level, sound, roles]

theorem laid_of_resolve (h : resolve w p = .ok b) :
    OnSquare b.corner p ∧ Laid w b.corner (socketStyle w b.corner) ∧
      ∀ f, b.role f = (socketStyle w b.corner f).role := by
  rw [resolve_eq_findSome?] at h
  split_ifs at h with board same
  split at h
  case h_1 => cases h
  case h_2 sound =>
    cases h
    have laid := laid_iff_cellFault?.2 sound
    refine ⟨?_, laid, fun f => rfl⟩
    have corner : OnSquare (w.lastBreadboard .west (w.lastBreadboard .north p))
        (w.lastBreadboard .west (w.lastBreadboard .north p)) := by
      unfold OnSquare
      omega
    -- Each walk is followed back.
    have west := laid.onSquare_of_lastBreadboard (f := .west)
      (World.isBreadboard_lastBreadboard board) corner
    exact laid.onSquare_of_lastBreadboard (f := .north) board west

/-- **Resolving finds the boards**: a block belongs to a board when it is on a square that is one.
-/
theorem resolve_eq_ok_iff : resolve w p = .ok b ↔ OnSquare b.corner p ∧
    ∃ styles, Laid w b.corner styles ∧ ∀ f, b.role f = (styles f).role := by
  refine ⟨fun h => ?_, ?_⟩
  · obtain ⟨mem, laid, roles⟩ := laid_of_resolve h
    exact ⟨mem, _, laid, roles⟩
  · rintro ⟨mem, styles, laid, roles⟩
    rw [laid.resolve_eq mem, ← funext roles]

end Board

end TorchLogic
