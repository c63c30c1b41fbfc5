import TorchLogic.Proofs.Board.Resolve

/-!
# Laying a board

Laying puts one breadboard block down for each cell of the square, in the style of the cell's socket
(`World.block_layBoard_cell`), and touches no other block (`World.block_layBoard_of_not_onSquare`)
and no table. What was there before shows in one way only: a breadboard block beside the square
would touch the board. Where there is none, the square is a board with the roles that were asked for
(`World.laid_layBoard`).
-/

namespace TorchLogic

open Board

variable {w : World} {corner p : Position} {role : Facing → SocketRole} {x z : Nat}

namespace Board

/-- Different cells are different positions. -/
theorem cellAt_inj {c d : Nat × Nat} :
    cellAt corner c.1 c.2 = cellAt corner d.1 d.2 ↔ c = d := by
  refine ⟨fun eq => ?_, fun eq => eq ▸ rfl⟩
  simp only [cellAt, Position.offset, Position.mk.injEq] at eq
  exact Prod.ext (by omega) (by omega)

/-- The style in which a cell is laid. -/
def laidStyle (role : Facing → SocketRole) (x z : Nat) : Style :=
  match socketSide? x z with
  | some f => Style.ofSocket f (role f)
  | none => .plain

end Board

namespace World

/-! ### Putting many breadboard blocks down -/

section Many

variable {α : Type} {cells : List α} {c : α}

theorem block_foldl_setBreadboard_of_ne (place : α → Position) (style : α → Style) (w : World)
    (ne : ∀ c ∈ cells, place c ≠ p) :
    (cells.foldl (fun w c => w.setBreadboard (place c) (style c)) w).block p = w.block p := by
  induction cells generalizing w with
  | nil => rfl
  | cons c rest ih =>
    rw [List.foldl_cons, ih _ fun d mem => ne d (List.mem_cons_of_mem _ mem), block_setBreadboard,
      if_neg (ne c List.mem_cons_self)]

theorem block_foldl_setBreadboard (place : α → Position) (style : α → Style) (w : World)
    (inj : ∀ c d, place c = place d → c = d) (mem : c ∈ cells) :
    (cells.foldl (fun w c => w.setBreadboard (place c) (style c)) w).block (place c) =
      .breadboard (style c) := by
  induction cells generalizing w with
  | nil => cases mem
  | cons d rest ih =>
    rw [List.foldl_cons]
    by_cases later : c ∈ rest
    · exact ih _ later
    -- The last time that the cell is laid is now.
    · obtain rfl : c = d := (List.mem_cons.1 mem).resolve_right later
      rw [block_foldl_setBreadboard_of_ne place style _ fun e mem eq => later (inj e c eq ▸ mem),
        block_setBreadboard, if_pos rfl]

end Many

/-! ### Laying a board -/

/-- **Each cell holds the block of its socket.** -/
theorem block_layBoard_cell (w : World) (corner : Position) (role : Facing → SocketRole)
    (hx : x < 8) (hz : z < 8) :
    (w.layBoard corner role).block (cellAt corner x z) = .breadboard (laidStyle role x z) := by
  have mem : (x, z) ∈ cells := mem_cells_iff.2 ⟨hx, hz⟩
  have laid := block_foldl_setBreadboard (fun c : Nat × Nat => cellAt corner c.1 c.2)
    (fun c => laidStyle role c.1 c.2) w (fun _ _ => cellAt_inj.1) mem
  exact laid

/-- **Other positions hold what they did.** -/
theorem block_layBoard_of_not_onSquare (w : World) (role : Facing → SocketRole)
    (out : ¬ OnSquare corner p) : (w.layBoard corner role).block p = w.block p := by
  refine block_foldl_setBreadboard_of_ne (fun c : Nat × Nat => cellAt corner c.1 c.2)
    (fun c => laidStyle role c.1 c.2) w (fun c mem eq => out ?_)
  obtain ⟨hx, hz⟩ := mem_cells_iff.1 mem
  exact onSquare_iff_cell.2 ⟨c.1, c.2, hx, hz, eq⟩

theorem block_layBoard_cases (w : World) (corner : Position) (role : Facing → SocketRole)
    (p : Position) : (∃ style, (w.layBoard corner role).block p = .breadboard style) ∨
      (w.layBoard corner role).block p = w.block p := by
  by_cases mem : OnSquare corner p
  · obtain ⟨x, z, hx, hz, rfl⟩ := onSquare_iff_cell.1 mem
    exact .inl ⟨_, block_layBoard_cell w corner role hx hz⟩
  · exact .inr (block_layBoard_of_not_onSquare w role mem)

@[simp] theorem table?_layBoard (w : World) (corner : Position) (role : Facing → SocketRole)
    (p : Position) : (w.layBoard corner role).table? p = w.table? p := by
  unfold layBoard
  generalize cells = cells
  induction cells generalizing w with
  | nil => rfl
  | cons c rest ih => rw [List.foldl_cons, ih, table?_setBreadboard]

/-- **A board is laid** where no breadboard block stands beside the square. -/
theorem laid_layBoard (w : World) (corner : Position) (role : Facing → SocketRole)
    (alone : ∀ p f, OnSquare corner p → ¬ OnSquare corner (p.toward f) →
      (w.block (p.toward f)).isBreadboard = false) :
    Laid (w.layBoard corner role) corner fun f => Style.ofSocket f (role f) where
  socket {f p} mem := by
    obtain ⟨x, z, hx, hz, rfl⟩ := onSquare_iff_cell.1 (onSquare_of_mem_socketBlocks mem)
    rw [block_layBoard_cell w corner role hx hz, laidStyle, (socketSide?_eq_some_iff hx hz).2 mem]
  plain {p} mem none := by
    -- A cell of no socket is laid plain.
    obtain ⟨x, z, hx, hz, rfl⟩ := onSquare_iff_cell.1 mem
    have side : socketSide? x z = .none :=
      Option.eq_none_iff_forall_ne_some.2 fun f eq => none f ((socketSide?_eq_some_iff hx hz).1 eq)
    rw [block_layBoard_cell w corner role hx hz, laidStyle, side]
  alone mem out := by
    rw [block_layBoard_of_not_onSquare w role out]
    exact alone _ _ mem out

/-- In the empty world there is room for a board everywhere. -/
theorem laid_layBoard_empty (corner : Position) (role : Facing → SocketRole) :
    Laid (empty.layBoard corner role) corner fun f => Style.ofSocket f (role f) :=
  laid_layBoard empty corner role fun p f _ _ => by
    rw [block_empty]
    rfl

end World

end TorchLogic
