import TorchLogic.Proofs.Board.Motion

/-!
# Changing the role of a side

Changing the role of a side restyles those blocks of its socket that are breadboard blocks, and a
table that was left behind at such a block goes (`Board.block_setRole`, `Board.table?_setRole`). All
of that happens on the level of the board. Seen from above nothing changes (`World.SameAbove`): no
block, no table, and what lies below is a wire where it was one before. A circuit is traced above
the board, so the table of a board does not depend on the styles of its sockets
(`Board.table?_eq_of_sameAbove`), but only on the roles that the board has itself.
-/

namespace TorchLogic

variable {w w' w'' : World} {b : Board} {p q : Position} {f : Facing} {r : SocketRole}
  {style : Style} {level : Int}

/-! ### Restyling -/

namespace BoardSocket

theorem block_restyle (style : Style) (w : World) (p q : Position) :
    (restyle style w p).block q =
      if p = q ∧ (w.block q).isBreadboard = true then .breadboard style else w.block q := by
  unfold restyle
  split
  case isTrue board =>
    rw [World.block_setBlock]
    exact if_congr (and_iff_left_of_imp fun here => here ▸ board).symm rfl rfl
  case isFalse other =>
    rw [if_neg]
    rintro ⟨rfl, board⟩
    exact other board

theorem table?_restyle (style : Style) (w : World) (p q : Position) :
    (restyle style w p).table? q =
      if p = q ∧ (w.block q).isBreadboard = true then none else w.table? q := by
  unfold restyle
  split
  case isTrue board =>
    rw [World.table?_setBlock]
    exact if_congr (and_congr_right fun here => iff_of_true rfl (here ▸ board)) rfl rfl
  case isFalse other =>
    rw [if_neg]
    rintro ⟨rfl, board⟩
    exact other board

/-- Breadboard blocks stay what they are, and nothing else becomes one. -/
theorem isBreadboard_restyle (style : Style) (w : World) (p q : Position) :
    ((restyle style w p).block q).isBreadboard = (w.block q).isBreadboard := by
  rw [block_restyle]
  split
  case isTrue h =>
    rw [h.2]
    rfl
  case isFalse => rfl

/-- **What is seen of a position** after others were restyled, if one of them changes it just when
it is that position and a breadboard block. -/
theorem foldl_restyle {α : Type} (look : World → α) {new : α}
    (step : ∀ w p, look (restyle style w p) =
      if p = q ∧ (w.block q).isBreadboard = true then new else look w)
    (ps : List Position) (w : World) :
    look (ps.foldl (restyle style) w) =
      if q ∈ ps ∧ (w.block q).isBreadboard = true then new else look w := by
  induction ps generalizing w with
  | nil => simp
  | cons p rest ih =>
    -- Whether the block is a breadboard block is the same before every step.
    rw [List.foldl_cons, ih, isBreadboard_restyle, step]
    by_cases board : (w.block q).isBreadboard = true
    · by_cases here : p = q
      · simp [board, here]
      · simp [board, here, eq_comm (a := q)]
    · simp [board]

end BoardSocket

namespace Board

theorem setRole_snd (b : Board) (w : World) (f : Facing) (r : SocketRole) : (b.setRole w f r).2 =
    (socketBlocks b.corner f).foldl (BoardSocket.restyle (Style.ofSocket f r)) w := by
  rw [setRole, BoardSocket.setRole, socket]

/-- **The blocks after a change of role**: breadboard blocks of the socket have the style of the new
role. -/
theorem block_setRole (b : Board) (w : World) (f : Facing) (r : SocketRole) (q : Position) :
    (b.setRole w f r).2.block q =
      if q ∈ socketBlocks b.corner f ∧ (w.block q).isBreadboard = true
      then .breadboard (Style.ofSocket f r) else w.block q := by
  rw [setRole_snd]
  exact BoardSocket.foldl_restyle (·.block q) (fun w p => BoardSocket.block_restyle _ w p q) _ w

/-- **The tables after a change of role.** -/
theorem table?_setRole (b : Board) (w : World) (f : Facing) (r : SocketRole) (q : Position) :
    (b.setRole w f r).2.table? q =
      if q ∈ socketBlocks b.corner f ∧ (w.block q).isBreadboard = true then none
      else w.table? q := by
  rw [setRole_snd]
  exact BoardSocket.foldl_restyle (·.table? q) (fun w p => BoardSocket.table?_restyle _ w p q) _ w

end Board

/-! ### Seen from above -/

/-- **Whether two worlds are the same above a level**, and have wires in the same places below it.
-/
structure World.SameAbove (level : Int) (w w' : World) : Prop where
  block : ∀ p, level < p.y → w'.block p = w.block p
  table : ∀ p, level < p.y → w'.table? p = w.table? p
  isWire : ∀ p, (w'.block p).isWire = (w.block p).isWire

namespace World.SameAbove

theorem refl (level : Int) (w : World) : SameAbove level w w :=
  ⟨fun _ _ => rfl, fun _ _ => rfl, fun _ => rfl⟩

theorem trans (h : SameAbove level w w') (h' : SameAbove level w' w'') : SameAbove level w w'' where
  block p above := (h'.block p above).trans (h.block p above)
  table p above := (h'.table p above).trans (h.table p above)
  isWire p := (h'.isWire p).trans (h.isWire p)

theorem wireReaches (same : SameAbove level w w') (above : level < p.y) :
    w'.wireReaches p f = w.wireReaches p f := by
  have beside : level < (p.toward f).y := by rwa [Position.toward_y]
  have higher : level < p.above.y := by
    show level < p.y + 1
    omega
  unfold World.wireReaches
  -- A step down may lead to the level itself, where it only matters whether there is a wire.
  simp only [same.block _ beside, same.table _ beside, same.block _ higher, same.isWire]

/-- **A wire points as it did.** -/
theorem wirePoints (same : SameAbove level w w') (above : level < p.y) :
    w'.wirePoints p f = w.wirePoints p f := by
  have reached : w'.reached p = w.reached p :=
    List.filter_congr fun g _ => same.wireReaches above
  rw [World.wirePoints, World.wirePoints, same.block p above, reached]

/-- What is on a board is still on it. -/
theorem carries (same : SameAbove b.corner.y w w') : Motion.rest.Carries b b w w' where
  role _ := rfl
  socket _ _ := Iff.rfl
  covers _ := rfl
  block p covered := (same.block p (Board.covers_iff.1 covered).1).trans Block.mapFacing_id.symm
  table p covered := same.table p (Board.covers_iff.1 covered).1
  points _ _ wire _ := same.wirePoints (Board.covers_iff.1 wire.1).1

end World.SameAbove

namespace Board

/-- **A board has the table that it had** in a world that is the same above it. -/
theorem table?_eq_of_sameAbove (same : World.SameAbove b.corner.y w w') :
    b.table? w' = b.table? w :=
  same.carries.table?_eq fun _ => rfl

/-- **Changing roles changes nothing above the board.** -/
theorem sameAbove_setRole (b : Board) (w : World) (f : Facing) (r : SocketRole) :
    World.SameAbove b.corner.y w (b.setRole w f r).2 := by
  have apart {p : Position} (above : b.corner.y < p.y) : p ∉ socketBlocks b.corner f := by
    intro socket
    have level : p.y = b.corner.y := (mem_socketBlocks_iff.1 socket).1
    omega
  refine ⟨fun p above => ?_, fun p above => ?_, fun p => ?_⟩
  · rw [block_setRole, if_neg fun h => apart above h.1]
  · rw [table?_setRole, if_neg fun h => apart above h.1]
  · rw [block_setRole]
    split
    case isTrue h =>
      obtain ⟨style, board⟩ := Block.isBreadboard_iff.1 h.2
      rw [board]
      rfl
    case isFalse => rfl

end Board

end TorchLogic
