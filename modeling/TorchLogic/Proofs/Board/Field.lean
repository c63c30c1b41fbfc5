import Mathlib.Data.List.Nodup
import Mathlib.Tactic.Choose
import TorchLogic.Proofs.Board.Lay
import TorchLogic.Proofs.Board.Power

/-!
# Boards as fields

The field of a block is all the breadboard that leads on from it, step by step and on one level
(`World.Field`). Resolving never looks at a field. It walks along breadboard blocks to a corner,
twice, inspects eight by eight cells from there, and asks of the cells on the edges what stands one
step further out. It succeeds nevertheless exactly if the field of the block is a square of eight by
eight, with one style to each socket and the rest plain (`Board.resolve_iff_field`). An arm of
breadboard, a hole, a larger field or a second board that touches are all ruled out by the one step
further out: a field that is larger than the square leaves it somewhere (`Board.laid_of_field`), and
a square that the field does not leave is all of the field (`Board.Laid.field_iff`).

Every block of a board has the same field, and so the same board.
-/

namespace TorchLogic

variable {w : World} {corner p q r : Position} {f : Facing} {styles : Facing → Style}

/-! ### Fields -/

/-- **The field of a block**: the breadboard blocks that lead on from it, from neighbour to
neighbour on one level. What is no breadboard block has none. -/
inductive World.Field (w : World) (p : Position) : Position → Prop
  /-- A breadboard block is in its own field. -/
  | here : (w.block p).isBreadboard = true → Field w p p
  /-- So is each breadboard block beside one that is in the field. -/
  | next {q : Position} {f : Facing} : Field w p q → (w.block (q.toward f)).isBreadboard = true →
    Field w p (q.toward f)

namespace World

theorem Field.isBreadboard (h : w.Field p q) : (w.block q).isBreadboard = true := by
  cases h with
  | here board => exact board
  | next _ board => exact board

theorem Field.trans (h : w.Field p q) (h' : w.Field q r) : w.Field p r := by
  induction h' with
  | here _ => exact h
  | next _ board ih => exact .next ih board

theorem Field.symm (h : w.Field p q) : w.Field q p := by
  induction h with
  | here board => exact .here board
  | @next q f field board ih =>
    -- The last step is taken back first.
    have back : w.Field (q.toward f) ((q.toward f).toward f.opposite) := by
      refine .next (.here board) ?_
      rw [Board.toward_opposite]
      exact field.isBreadboard
    rw [Board.toward_opposite] at back
    exact back.trans ih

/-- A walk stays in the field. -/
theorem field_lastBreadboard (f : Facing) (board : (w.block p).isBreadboard = true) :
    w.Field p (w.lastBreadboard (.ofFacing f) p) := by
  fun_induction w.lastBreadboard (.ofFacing f) p with
  | case1 p next ih =>
    have step : w.Field p (p.toward f) := .next (.here board) next
    exact step.trans (ih next)
  | case2 p stop => exact .here board

end World

namespace Board

/-! ### Edges -/

/-- **Whether a position is on the edge of a side, between the corners**: a step to that side leaves
the square, and a step to no other. -/
def OnRim (corner : Position) (f : Facing) (p : Position) : Prop :=
  OnSquare corner p ∧ ∀ g, OnSquare corner (p.toward g) ↔ g ≠ f

/-- **A socket is its edge of the square**, without the corners. -/
theorem mem_socketBlocks_iff_onRim : p ∈ socketBlocks corner f ↔ OnRim corner f p := by
  constructor
  · intro mem
    refine ⟨onSquare_of_mem_socketBlocks mem, fun g => ?_⟩
    -- One step leaves the square, to the side of the socket, and the others stay.
    rw [mem_socketBlocks_iff] at mem
    cases f <;> cases g <;>
      simp only [OnSquare, Position.toward, Direction.ofFacing, Position.step, Position.offset,
        ne_eq, reduceCtorEq, not_true_eq_false, not_false_eq_true, iff_true, iff_false] at mem ⊢ <;>
      omega
  · rintro ⟨mem, rim⟩
    -- Each of the four steps tells how far away an edge is.
    have north := rim .north
    have east := rim .east
    have south := rim .south
    have west := rim .west
    rw [mem_socketBlocks_iff]
    cases f <;>
      simp only [OnSquare, Position.toward, Direction.ofFacing, Position.step, Position.offset,
        ne_eq, reduceCtorEq, not_true_eq_false, not_false_eq_true, iff_true, iff_false]
        at mem north east south west ⊢ <;>
      omega

theorem length_socketBlocks (corner : Position) (f : Facing) :
    (socketBlocks corner f).length = 6 := by
  rw [socketBlocks, List.length_map]
  rfl

theorem nodup_socketBlocks (corner : Position) (f : Facing) : (socketBlocks corner f).Nodup := by
  refine (List.nodup_range.filter _).map ?_
  intro m n eq
  have cells : edgeCell m f = edgeCell n f := cellAt_inj.1 eq
  cases f
  · exact congrArg Prod.fst cells
  · exact congrArg Prod.snd cells
  · exact congrArg Prod.fst cells
  · exact congrArg Prod.snd cells

/-! ### The field of a board -/

/-- **The field of a block on a board is the square.** -/
theorem Laid.field_iff (laid : Laid w corner styles) (mem : OnSquare corner p) :
    w.Field p q ↔ OnSquare corner q := by
  constructor
  · -- nothing beside the square is a breadboard, so the field does not leave it
    intro field
    induction field with
    | here _ => exact mem
    | next _ board ih => exact laid.onSquare_toward ih board
  · intro mem'
    -- From either block the walk north and west leads to the corner.
    have to_corner {p : Position} (mem : OnSquare corner p) : w.Field p corner := by
      have edge : OnSquare corner ⟨p.x, p.y, corner.z⟩ := by
        unfold OnSquare at *
        dsimp only
        omega
      have north : w.Field p ⟨p.x, p.y, corner.z⟩ := by
        rw [← laid.lastBreadboard_north mem]
        exact World.field_lastBreadboard .north (laid.isBreadboard mem)
      have west : w.Field ⟨p.x, p.y, corner.z⟩ ⟨corner.x, p.y, corner.z⟩ := by
        have walk := World.field_lastBreadboard .west (laid.isBreadboard edge)
        rwa [Direction.ofFacing, laid.lastBreadboard_west edge] at walk
      have level : (⟨corner.x, p.y, corner.z⟩ : Position) = corner := by rw [mem.1]
      exact level ▸ north.trans west
    exact (to_corner mem).trans (to_corner mem').symm

/-- **A square that is a field is a board**, if it looks like one: breadboard beside the square
would be in the field. -/
theorem laid_of_field (field : ∀ q, w.Field p q ↔ OnSquare corner q)
    (socket : ∀ f q, OnRim corner f q → w.block q = .breadboard (styles f))
    (plain : ∀ q, OnSquare corner q → (∀ f, ¬ OnRim corner f q) → w.block q = .breadboard .plain) :
    Laid w corner styles where
  socket {f q} mem := socket f q (mem_socketBlocks_iff_onRim.1 mem)
  plain {q} mem none := plain q mem fun f rim => none f (mem_socketBlocks_iff_onRim.2 rim)
  alone {q f} mem out := by
    refine Bool.eq_false_iff.2 fun board => out ?_
    have inside : w.Field p q := (field q).2 mem
    exact (field _).1 (inside.next board)

/-- **A block belongs to a board exactly if its field is a square of eight by eight**, in which the
blocks of an edge between the corners look alike, and the corners and the inside are plain. The
board is that square: each socket has the six blocks of its edge, in the role that they show, and
all blocks of the square belong to the same board. -/
theorem resolve_iff_field (w : World) (p : Position) :
    ((∃ b, resolve w p = .ok b) ↔ (w.block p).isBreadboard = true ∧ ∃ corner,
      (∀ q, w.Field p q ↔ OnSquare corner q) ∧
      (∀ f, ∃ style, ∀ q, OnRim corner f q → w.block q = .breadboard style) ∧
      ∀ q, OnSquare corner q → (∀ f, ¬ OnRim corner f q) → w.block q = .breadboard .plain) ∧
    ∀ b, resolve w p = .ok b →
      (∀ q, w.Field p q ↔ OnSquare b.corner q) ∧
      (∀ f, (b.socket f).blocks.length = 6 ∧ (b.socket f).blocks.Nodup ∧
        ∀ q, q ∈ (b.socket f).blocks ↔ OnRim b.corner f q) ∧
      (∀ f, ∀ q ∈ (b.socket f).blocks, ∃ style, w.block q = .breadboard style ∧
        (b.socket f).role = style.role) ∧
      ∀ q, OnSquare b.corner q → resolve w q = .ok b := by
  refine ⟨⟨?_, ?_⟩, ?_⟩
  · -- what is accepted is laid, so it is its own field
    rintro ⟨b, found⟩
    obtain ⟨mem, styles, laid, -⟩ := resolve_eq_ok_iff.1 found
    refine ⟨laid.isBreadboard mem, b.corner, fun q => laid.field_iff mem, fun f => ?_, ?_⟩
    · exact ⟨styles f, fun q rim => laid.socket (mem_socketBlocks_iff_onRim.2 rim)⟩
    · intro q mem' none
      exact laid.plain mem' fun f socket => none f (mem_socketBlocks_iff_onRim.1 socket)
  · -- such a field is a board that is laid
    rintro ⟨board, corner, field, sockets, plain⟩
    choose styles socket using sockets
    have laid : Laid w corner styles := laid_of_field field socket plain
    exact ⟨_, laid.resolve_eq ((field p).1 (.here board))⟩
  · intro b found
    obtain ⟨mem, styles, laid, roles⟩ := resolve_eq_ok_iff.1 found
    refine ⟨fun q => laid.field_iff mem, fun f => ?_, fun f q socket => ?_, fun q mem' => ?_⟩
    · -- the blocks of the sockets, their styles, and every other block of the board
      exact ⟨length_socketBlocks b.corner f, nodup_socketBlocks b.corner f,
        fun q => mem_socketBlocks_iff_onRim⟩
    · exact ⟨styles f, laid.socket socket, roles f⟩
    · exact resolve_eq_ok_iff.2 ⟨mem', styles, laid, roles⟩

end Board

end TorchLogic
