import TorchLogic.Proofs.Board.Lay

/-!
# Boards are read back as they were laid

What is laid is a board (`World.laid_layBoard`), and a board resolves from each of its blocks
(`Board.Laid.resolve_eq`). So laying and resolving fit together in every world: whatever stood on
the square, be it other boards or components, is gone, and what stands elsewhere is left alone.

The world of before shows in one way only. A breadboard block beside the square, which laying
leaves, touches the board. Then no block of the square resolves, not even to a board elsewhere, as a
board and a square of breadboard blocks are the same square or have no block in common
(`Board.Laid.corner_eq`). So a board is read back exactly if there is no such block
(`World.resolve_layBoard`).

A list of sockets may name a side more than once, or not at all. Which roles it asks for is said by
`Board.HasRoles` through the list alone, and not through the search that laying makes in it.
-/

namespace TorchLogic

open Board

variable {w : World} {corner p : Position} {f : Facing} {sockets : List Socket}

/-! ### The roles that a list of sockets asks for -/

/-- **Whether a board has the roles that a list of sockets asks for.** -/
structure Board.HasRoles (b : Board) (sockets : List Socket) : Prop where
  /-- The first entry for a side gives its role. -/
  first : ∀ before s after, sockets = before ++ s :: after → (∀ t ∈ before, t.facing ≠ s.facing) →
    (b.socket s.facing).role = s.role
  /-- A side without an entry is unused. -/
  unlisted : ∀ f, (∀ s ∈ sockets, s.facing ≠ f) → (b.socket f).role = .empty

namespace Socket

theorem roles_eq_of_first {before after : List Socket} {s : Socket}
    (first : ∀ t ∈ before, t.facing ≠ s.facing) :
    roles (before ++ s :: after) s.facing = s.role := by
  have passed : before.find? (fun t => t.facing == s.facing) = none := by
    rw [List.find?_eq_none]
    intro t mem
    rw [beq_iff_eq]
    exact first t mem
  have stands : (s :: after).find? (fun t => t.facing == s.facing) = some s :=
    List.find?_cons_of_pos (beq_self_eq_true _)
  rw [roles, List.find?_append, passed, Option.none_or, stands]

theorem roles_eq_empty (unlisted : ∀ s ∈ sockets, s.facing ≠ f) : roles sockets f = .empty := by
  have none_found : sockets.find? (fun s => s.facing == f) = none := by
    rw [List.find?_eq_none]
    intro s mem
    rw [beq_iff_eq]
    exact unlisted s mem
  rw [roles, none_found]

end Socket

theorem Board.hasRoles_roles (corner : Position) (sockets : List Socket) :
    HasRoles ⟨corner, Socket.roles sockets⟩ sockets where
  first before s after split first := by
    subst split
    exact Socket.roles_eq_of_first first
  unlisted f unlisted := Socket.roles_eq_empty unlisted

/-! ### Laying and resolving -/

/-- **A board that shares a block with a square of breadboard blocks** is that square: otherwise a
row through the block would leave the board and go on beside it. -/
theorem Board.Laid.corner_eq {styles : Facing → Style} {c : Position} (laid : Laid w c styles)
    (full : ∀ q, OnSquare corner q → (w.block q).isBreadboard = true) (mem : OnSquare c p)
    (mem' : OnSquare corner p) : c = corner := by
  -- No side of the board has a neighbour that is on the square and not on the board.
  have stays (q : Position) (f : Facing) (on : OnSquare c q) (next : OnSquare corner (q.toward f)) :
      OnSquare c (q.toward f) := laid.onSquare_toward on (full _ next)
  have west := stays ⟨c.x, p.y, p.z⟩ .west
  have east := stays ⟨c.x + 7, p.y, p.z⟩ .east
  have north := stays ⟨p.x, p.y, c.z⟩ .north
  have south := stays ⟨p.x, p.y, c.z + 7⟩ .south
  simp only [OnSquare, Position.toward, Direction.ofFacing, Position.step, Position.offset]
    at mem mem' west east north south
  have x : c.x = corner.x := by omega
  have y : c.y = corner.y := by omega
  have z : c.z = corner.z := by omega
  cases c
  cases corner
  rw [Position.mk.injEq]
  exact ⟨x, y, z⟩

namespace World

/-- Every cell of a square on which a board was laid holds a breadboard block. -/
theorem isBreadboard_layBoard (w : World) (role : Facing → SocketRole) (mem : OnSquare corner p) :
    ((w.layBoard corner role).block p).isBreadboard = true := by
  obtain ⟨x, z, hx, hz, rfl⟩ := onSquare_iff_cell.1 mem
  rw [block_layBoard_cell w corner role hx hz]
  rfl

/-- **What a block of the square resolves to** is the board that was laid, beside which there is no
other breadboard block. -/
theorem resolve_layBoard_eq_ok_iff {b : Board} {role : Facing → SocketRole}
    (mem : OnSquare corner p) :
    resolve (w.layBoard corner role) p = .ok b ↔ b = ⟨corner, role⟩ ∧
      ∀ p f, OnSquare corner p → ¬ OnSquare corner (p.toward f) →
        (w.block (p.toward f)).isBreadboard = false := by
  have roles : (fun f => (Style.ofSocket f (role f)).role) = role := by
    funext f
    exact Style.role_ofSocket f (role f)
  constructor
  · intro found
    obtain ⟨mem', styles, laid, -⟩ := resolve_eq_ok_iff.1 found
    -- The board that is found covers the square, so it is the one that was laid.
    have same : b.corner = corner :=
      laid.corner_eq (fun q on => isBreadboard_layBoard w role on) mem' mem
    have alone : ∀ p f, OnSquare corner p → ¬ OnSquare corner (p.toward f) →
        (w.block (p.toward f)).isBreadboard = false := by
      intro q f on out
      -- Laying has left what stands beside the square.
      rw [← block_layBoard_of_not_onSquare w role out]
      rw [← same] at on out
      exact laid.alone on out
    have resolved := (laid_layBoard w corner role alone).resolve_eq mem
    rw [found, Except.ok.injEq, roles] at resolved
    exact ⟨resolved, alone⟩
  · rintro ⟨rfl, alone⟩
    rw [(laid_layBoard w corner role alone).resolve_eq mem, roles]

/-- **A board is read back as it was laid**, whatever the world held before. A block of the square
resolves exactly if no breadboard block stands beside the square on its level, and then to the board
with the corner that was given and the roles that were asked for. What is not on the square is left
as it was. -/
theorem resolve_layBoard (w : World) (corner : Position) (sockets : List Socket) :
    (∀ p, OnSquare corner p →
      ((∃ b, resolve (w.layBoard corner (Socket.roles sockets)) p = .ok b) ↔
        ∀ q f, OnSquare corner q → ¬ OnSquare corner (q.toward f) →
          (w.block (q.toward f)).isBreadboard = false) ∧
      ∀ b, resolve (w.layBoard corner (Socket.roles sockets)) p = .ok b →
        b.corner = corner ∧ b.HasRoles sockets) ∧
    ∀ p, ¬ OnSquare corner p →
      (w.layBoard corner (Socket.roles sockets)).block p = w.block p ∧
        (w.layBoard corner (Socket.roles sockets)).table? p = w.table? p := by
  refine ⟨fun p mem => ⟨⟨?_, ?_⟩, ?_⟩, ?_⟩
  · rintro ⟨b, found⟩
    exact ((resolve_layBoard_eq_ok_iff mem).1 found).2
  · intro alone
    exact ⟨_, (resolve_layBoard_eq_ok_iff mem).2 ⟨rfl, alone⟩⟩
  · intro b found
    obtain ⟨rfl, -⟩ := (resolve_layBoard_eq_ok_iff mem).1 found
    exact ⟨rfl, hasRoles_roles corner sockets⟩
  · intro p out
    exact ⟨block_layBoard_of_not_onSquare w (Socket.roles sockets) out, table?_layBoard ..⟩

end World

end TorchLogic
