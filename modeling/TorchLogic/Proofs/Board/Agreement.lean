import TorchLogic.Proofs.Board.Resolve
import TorchLogic.Proofs.Board.Role

/-!
# A board in memory and the board in the world

A role is changed in two places: in the board that is held in memory, and in the world, by the
styles of the blocks of a socket. The two say the same as long as the square in the world is a board
in the roles that the board in memory has (`Board.Agrees`), for then that is the board which every
block of the square resolves to (`Board.resolve_eq_ok_iff_agrees`).

One change of role keeps this (`Board.Agrees.setRole`). Which style a socket had before does not
matter, not even if it named another side, since the new style is put on all of its blocks at once
(`Board.Laid.foldl_restyle`). So any number of changes keeps it, and outside the sockets nothing
happens (`Board.agrees_after_setRoles`).
-/

namespace TorchLogic

variable {w : World} {b : Board} {corner p q : Position} {f g : Facing} {r : SocketRole}
  {styles : Facing → Style}

namespace Board

/-! ### Restyling one side -/

/-- **A board stays a board when one of its sockets gets another style.** -/
theorem Laid.foldl_restyle (laid : Laid w corner styles) (f : Facing) (style : Style) :
    Laid ((socketBlocks corner f).foldl (BoardSocket.restyle style) w) corner
      fun g => if g = f then style else styles g := by
  have block (q : Position) :
      ((socketBlocks corner f).foldl (BoardSocket.restyle style) w).block q =
        if q ∈ socketBlocks corner f ∧ (w.block q).isBreadboard = true
        then .breadboard style else w.block q :=
    BoardSocket.foldl_restyle (·.block q) (fun w p => BoardSocket.block_restyle style w p q) _ w
  refine ⟨fun {g p} socket => ?_, fun {p} mem none => ?_, fun {p g} mem out => ?_⟩
  · rw [block]
    by_cases same : g = f
    · subst same
      rw [if_pos ⟨socket, laid.isBreadboard (onSquare_of_mem_socketBlocks socket)⟩, if_pos rfl]
    -- Sockets have no block in common.
    · rw [if_neg fun h => same (socketBlocks_disjoint socket h.1), if_neg same, laid.socket socket]
  · rw [block, if_neg fun h => none f h.1, laid.plain mem none]
  · rw [block, if_neg fun h => out (onSquare_of_mem_socketBlocks h.1), laid.alone mem out]

/-! ### Agreement -/

/-- **Whether a board in memory agrees with a world**: its square is a board there, in styles that
show the roles that it has. -/
def Agrees (b : Board) (w : World) : Prop :=
  ∃ styles, Laid w b.corner styles ∧ ∀ f, b.role f = (styles f).role

theorem resolve_eq_ok_iff_agrees : resolve w p = .ok b ↔ OnSquare b.corner p ∧ b.Agrees w :=
  resolve_eq_ok_iff

/-- **A change of role keeps the agreement.** -/
theorem Agrees.setRole (agrees : b.Agrees w) (f : Facing) (r : SocketRole) :
    (b.setRole w f r).1.Agrees (b.setRole w f r).2 := by
  obtain ⟨styles, laid, roles⟩ := agrees
  refine ⟨fun g => if g = f then Style.ofSocket f r else styles g, ?_, fun g => ?_⟩
  · rw [setRole_snd]
    exact laid.foldl_restyle f _
  · change (if g = f then r else b.role g) = _
    rw [roles, apply_ite Style.role, Style.role_ofSocket]

/-! ### Any number of changes -/

/-- **Changes roles**, one call after the other. -/
def setRoles (b : Board) (w : World) : List (Facing × SocketRole) → Board × World
  | [] => (b, w)
  | c :: rest => (b.setRole w c.1 c.2).1.setRoles (b.setRole w c.1 c.2).2 rest

variable {calls : List (Facing × SocketRole)}

theorem setRoles_concat (b : Board) (w : World) (calls : List (Facing × SocketRole)) (f : Facing)
    (r : SocketRole) : b.setRoles w (calls ++ [(f, r)]) =
      (b.setRoles w calls).1.setRole (b.setRoles w calls).2 f r := by
  induction calls generalizing b w with
  | nil => rw [List.nil_append, setRoles, setRoles, setRoles]
  | cons c rest ih => rw [List.cons_append, setRoles, ih, setRoles]

/-- **The roles after changes**: the last call for a side counts. -/
theorem setRoles_fst (b : Board) (w : World) (calls : List (Facing × SocketRole)) :
    (b.setRoles w calls).1 = ⟨b.corner, fun f => (calls.reverse.lookup f).getD (b.role f)⟩ := by
  induction calls generalizing b w with
  | nil => rfl
  | cons c rest ih =>
    rw [setRoles, ih]
    congr 1
    funext f
    rw [List.reverse_cons, List.lookup_append, List.lookup_cons, List.lookup_nil, setRole]
    -- Later calls for the side count first, and then this one.
    cases rest.reverse.lookup f with
    | some r => rfl
    | none =>
      by_cases here : f = c.1
      · simp [here]
      · simp [here, beq_false_of_ne here]

theorem corner_setRoles (b : Board) (w : World) (calls : List (Facing × SocketRole)) :
    (b.setRoles w calls).1.corner = b.corner := by
  rw [setRoles_fst]

/-- **Changes of role keep the agreement.** -/
theorem Agrees.setRoles (agrees : b.Agrees w) (calls : List (Facing × SocketRole)) :
    (b.setRoles w calls).1.Agrees (b.setRoles w calls).2 := by
  induction calls generalizing b w with
  | nil => exact agrees
  | cons c rest ih => exact ih (agrees.setRole c.1 c.2)

/-- A change of role leaves what is not of its socket. -/
theorem setRole_of_not_mem (b : Board) (w : World) (f : Facing) (r : SocketRole)
    (other : q ∉ socketBlocks b.corner f) : (b.setRole w f r).2.block q = w.block q ∧
      (b.setRole w f r).2.table? q = w.table? q := by
  rw [block_setRole, table?_setRole, if_neg fun h => other h.1, if_neg fun h => other h.1]
  exact ⟨rfl, rfl⟩

/-- Changes of role leave what is of no socket. -/
theorem setRoles_of_not_mem (b : Board) (w : World) (calls : List (Facing × SocketRole))
    (other : ∀ f, q ∉ socketBlocks b.corner f) : (b.setRoles w calls).2.block q = w.block q ∧
      (b.setRoles w calls).2.table? q = w.table? q := by
  induction calls generalizing b w with
  | nil => exact ⟨rfl, rfl⟩
  | cons c rest ih =>
    have first := setRole_of_not_mem b w c.1 c.2 (other c.1)
    have later := ih (b.setRole w c.1 c.2).1 (b.setRole w c.1 c.2).2 other
    exact ⟨later.1.trans first.1, later.2.trans first.2⟩

/-- **The board in memory and the board in the world stay the same.** After any calls that change
roles, the board is where it was, with the role of the last call on each side, and every block of
its square resolves to it. What is in none of its sockets is left alone all the way, and each call
changes blocks of its side only. -/
theorem agrees_after_setRoles (found : resolve w p = .ok b) (calls : List (Facing × SocketRole)) :
    (b.setRoles w calls).1 = ⟨b.corner, fun f => (calls.reverse.lookup f).getD (b.role f)⟩ ∧
    (∀ q, OnSquare b.corner q → resolve (b.setRoles w calls).2 q = .ok (b.setRoles w calls).1) ∧
    (∀ q, (∀ f, q ∉ (b.socket f).blocks) → (b.setRoles w calls).2.block q = w.block q ∧
      (b.setRoles w calls).2.table? q = w.table? q) ∧
    ∀ before f r after, calls = before ++ (f, r) :: after → ∀ q, q ∉ (b.socket f).blocks →
      (b.setRoles w (before ++ [(f, r)])).2.block q = (b.setRoles w before).2.block q := by
  refine ⟨setRoles_fst b w calls, ?_, fun q => setRoles_of_not_mem b w calls, ?_⟩
  · -- what resolves is the board in memory, with which the world still agrees
    intro q mem
    have agrees : b.Agrees w := (resolve_eq_ok_iff_agrees.1 found).2
    refine resolve_eq_ok_iff_agrees.2 ⟨?_, agrees.setRoles calls⟩
    rwa [corner_setRoles]
  · -- a call restyles blocks of its own side only
    intro before f r after _ q other
    have apart : q ∉ socketBlocks (b.setRoles w before).1.corner f := by
      rwa [corner_setRoles]
    rw [setRoles_concat]
    exact (setRole_of_not_mem _ _ f r apart).1

/-! ### A side that names another one -/

namespace Misnamed

/-- **A board whose north side has the style of a west input.** It is an input all the same. -/
def world : World :=
  (socketBlocks ⟨0, 0, 0⟩ .north).foldl (BoardSocket.restyle (.input .west)) EdgeInverter.world

def board : Board := ⟨⟨0, 0, 0⟩, fun f => if f = .north then .input else EdgeInverter.role f⟩

theorem resolve_eq : resolve world ⟨3, 0, 4⟩ = .ok board := by
  obtain ⟨mem, styles, laid, roles⟩ := resolve_eq_ok_iff.1 EdgeInverter.resolve_eq
  refine resolve_eq_ok_iff.2 ⟨mem, _, laid.foldl_restyle .north (.input .west), fun f => ?_⟩
  rw [apply_ite Style.role, ← roles]
  rfl

end Misnamed

open Misnamed in
/-- The side is made an output and emptied, and the east side is made an output in between. -/
theorem agrees_after_setRoles_misnamed : resolve world ⟨3, 0, 4⟩ = .ok board ∧
    (∀ q, OnSquare ⟨0, 0, 0⟩ q →
      resolve (board.setRoles world [(.north, .output), (.east, .output), (.north, .empty)]).2 q =
        .ok (board.setRoles world [(.north, .output), (.east, .output), (.north, .empty)]).1) ∧
    (board.setRoles world [(.north, .output), (.east, .output), (.north, .empty)]).1.role .north =
      .empty := by
  obtain ⟨roles, same, -⟩ := agrees_after_setRoles resolve_eq
    [(.north, .output), (.east, .output), (.north, .empty)]
  refine ⟨resolve_eq, same, ?_⟩
  rw [roles]
  rfl

end Board

end TorchLogic
