import TorchLogic.Proofs.Layout.World

/-!
# Tables and the blocks they belong to

A world keeps the blocks and the tables of nested circuits apart, and each way of changing it
(`World.Change`) has to keep the two in step: a table belongs to a nested circuit that stands where
the table is kept (`World.Owned`). Setting a block does so, as it drops the table of what was there.
Placing a nested circuit does, as it puts both down, and a layout starts over with a world in which
all is in step (`World.owned_of_world`).

Laying a board does not. It writes blocks and leaves the tables alone, so a table under the board
stays when its nested circuit is gone (`World.not_owned_layBoard`), and is there again for a nested
circuit that is set without a table later (`World.buried_table_returns`). That is all that can go
wrong (`World.Owned.apply_iff`): as long as no board is laid over the table of a position, the table
there belongs to a nested circuit, and once the nested circuit is gone, there is no table until one
is given (`World.owned_after`).
-/

namespace TorchLogic.World

open Board

variable {w : World} {p : Position}

/-- **Whether a table at a position belongs to a nested circuit there.** -/
def Owned (w : World) (p : Position) : Prop :=
  (w.table? p).isSome = true → (w.block p).isCircuit = true

/-! ### Changes -/

/-- **A way to change a world.** -/
inductive Change
  | layBoard (corner : Position) (sockets : List Socket)
  | setBlock (p : Position) (b : Block)
  | placeCircuit (p : Position) (facing : Facing) (table : TruthTable)
  /-- The world of a layout, if it has one, takes the place of what is there. -/
  | layout (l : Layout)

namespace Change

def apply (w : World) : Change → World
  | layBoard corner sockets => w.layBoard corner (Socket.roles sockets)
  | setBlock p b => w.setBlock p b
  | placeCircuit p facing table => w.placeCircuit p facing table
  | layout l =>
    match l.world with
    | .ok w' => w'
    | .error _ => w

/-- **Whether a change gives a position a table.** -/
def gives (p : Position) : Change → Bool
  | placeCircuit q _ _ => q = p
  | layout l =>
    match l.world with
    | .ok w => (w.table? p).isSome
    | .error _ => false
  | layBoard _ _ | setBlock _ _ => false

/-- **Whether a change lays a board over the table of a position.** -/
def Buries (w : World) (p : Position) : Change → Prop
  | layBoard corner _ => OnSquare corner p ∧ (w.table? p).isSome = true
  | setBlock _ _ | placeCircuit _ _ _ | layout _ => False

end Change

/-- **The world after changes** to the empty world, the first one first. -/
def after (changes : List Change) : World := changes.foldl Change.apply .empty

variable {c : Change}

/-! ### What each change keeps -/

theorem owned_of_table?_eq_none (bare : w.table? p = none) : w.Owned p := by
  intro some
  rw [bare] at some
  cases some

theorem Owned.setBlock (owned : w.Owned p) (q : Position) (b : Block) :
    (w.setBlock q b).Owned p := by
  unfold Owned at *
  rw [table?_setBlock, block_setBlock]
  by_cases here : q = p
  · cases circuit : b.isCircuit with
    | true => simp [here, circuit]
    | false => simp [here, circuit]
  · simpa [here] using owned

theorem Owned.placeCircuit (owned : w.Owned p) (q : Position)
    (facing : Facing) (table : TruthTable) : (w.placeCircuit q facing table).Owned p := by
  unfold Owned at *
  rw [table?_placeCircuit, block_placeCircuit]
  by_cases here : q = p
  · simp [here, Block.isCircuit]
  · simpa [here] using owned

theorem Owned.layBoard (owned : w.Owned p) {corner : Position} (role : Facing → SocketRole)
    (unburied : ¬ (OnSquare corner p ∧ (w.table? p).isSome = true)) :
    (w.layBoard corner role).Owned p := by
  unfold Owned at *
  rw [table?_layBoard]
  intro some
  rw [block_layBoard_of_not_onSquare w role fun mem => unburied ⟨mem, some⟩]
  exact owned some

/-- **In the world of a layout all is in step.** -/
theorem owned_of_world {l : Layout} (built : l.world = .ok w) : w.Owned p := by
  refine Layout.StackingKeeps.world (P := fun w => w.Owned p) ⟨?_, ?_⟩ built ?_
  · exact fun w c b _ _ owned => owned.setBlock _ b
  · exact fun w c facing table _ owned => owned.placeCircuit _ facing table
  · refine owned_of_table?_eq_none ?_
    rw [table?_layBoard, table?_empty]

/-- A table under a board belongs to nothing. -/
theorem not_owned_layBoard {corner : Position} (role : Facing → SocketRole)
    (mem : OnSquare corner p)
    (some : (w.table? p).isSome = true) : ¬ (w.layBoard corner role).Owned p := by
  intro owned
  obtain ⟨x, z, hx, hz, rfl⟩ := onSquare_iff_cell.1 mem
  have circuit := owned (by rw [table?_layBoard, some])
  rw [block_layBoard_cell w corner role hx hz] at circuit
  cases circuit

/-- **A change keeps tables and blocks in step** exactly if it lays no board over the table. -/
theorem Owned.apply_iff (owned : w.Owned p) : (c.apply w).Owned p ↔ ¬ c.Buries w p := by
  cases c with
  | layBoard corner sockets =>
    -- only laying a board puts a block where a table stays
    exact ⟨fun kept buries => not_owned_layBoard _ buries.1 buries.2 kept, owned.layBoard _⟩
  | setBlock q b => exact iff_of_true (owned.setBlock q b) id
  | placeCircuit q facing table => exact iff_of_true (owned.placeCircuit q facing table) id
  | layout l =>
    refine iff_of_true ?_ id
    dsimp only [Change.apply]
    cases built : l.world with
    | error e => exact owned
    | ok w' => exact owned_of_world built

/-- **Tables come from changes that give them.** -/
theorem table?_apply_eq_none (bare : w.table? p = none) (gives : c.gives p = false) :
    (c.apply w).table? p = none := by
  cases c with
  | layBoard corner sockets => exact (table?_layBoard w corner _ p).trans bare
  | setBlock q b =>
    rw [Change.apply, table?_setBlock, bare, ite_self]
  | placeCircuit q facing table =>
    rw [Change.gives, decide_eq_false_iff_not] at gives
    rw [Change.apply, table?_placeCircuit, if_neg gives, bare]
  | layout l =>
    -- a layout that is refused changes nothing
    dsimp only [Change.apply, Change.gives] at gives ⊢
    cases built : l.world with
    | error e => exact bare
    | ok w' =>
      rw [built] at gives
      exact Option.isNone_iff_eq_none.1 (Option.isSome_eq_false_iff.1 gives)

/-! ### What a run keeps -/

/-- **A run keeps tables and blocks in step** if no board is laid over the table on the way. -/
theorem Owned.foldl {changes : List Change} (owned : w.Owned p)
    (unburied : ∀ before c rest, changes = before ++ c :: rest →
      ¬ c.Buries (before.foldl Change.apply w) p) : (changes.foldl Change.apply w).Owned p := by
  induction changes generalizing w with
  | nil => exact owned
  | cons c rest ih =>
    refine ih (owned.apply_iff.2 (unburied [] c rest rfl)) fun before d later eq => ?_
    exact unburied (c :: before) d later (congrArg (c :: ·) eq)

theorem table?_foldl_eq_none {changes : List Change} (bare : w.table? p = none)
    (gives : ∀ c ∈ changes, c.gives p = false) :
    (changes.foldl Change.apply w).table? p = none := by
  induction changes generalizing w with
  | nil => exact bare
  | cons c rest ih =>
    exact ih (table?_apply_eq_none bare (gives c List.mem_cons_self)) fun d mem =>
      gives d (List.mem_cons_of_mem c mem)

/-- **As long as no board is laid over the table of a position**, there is a table only where a
nested circuit stands. So when something else has taken its place, a nested circuit that stands
there later has no table, until one is given. -/
theorem owned_after (changes : List Change) (p : Position)
    (unburied : ∀ before c rest, changes = before ++ c :: rest → ¬ c.Buries (after before) p) :
    (after changes).Owned p ∧
    ∀ before rest, changes = before ++ rest → ((after before).block p).isCircuit = false →
      (∀ c ∈ rest, c.gives p = false) → (after changes).table? p = none := by
  have start : empty.Owned p := owned_of_table?_eq_none (table?_empty p)
  refine ⟨start.foldl unburied, ?_⟩
  rintro before rest rfl other gives
  have owned : (after before).Owned p := start.foldl fun first c later eq =>
    unburied first c (later ++ rest) (by rw [eq, List.append_assoc, List.cons_append])
  -- What is not a nested circuit has no table, and none is given.
  have bare : (after before).table? p = none := by
    refine Option.not_isSome_iff_eq_none.1 fun some => ?_
    rw [owned some] at other
    cases other
  rw [after, List.foldl_append]
  exact table?_foldl_eq_none bare gives

open Layout (Repeater.table)

/-- A nested circuit beside a board, replaced by a solid block and set again without a table. -/
def replaced : List Change :=
  [.layBoard ⟨0, 0, 0⟩ [⟨.south, .output⟩], .placeCircuit ⟨3, 1, 3⟩ .north Repeater.table,
    .setBlock ⟨3, 1, 3⟩ .solid, .setBlock ⟨3, 1, 3⟩ (.circuit .east)]

/-- It had a table and has none. -/
theorem owned_after_replaced : (∀ before c rest, replaced = before ++ c :: rest →
      ¬ c.Buries (after before) ⟨3, 1, 3⟩) ∧
    (after (replaced.take 2)).table? ⟨3, 1, 3⟩ = some Repeater.table ∧
    (after replaced).block ⟨3, 1, 3⟩ = .circuit .east ∧
      (after replaced).table? ⟨3, 1, 3⟩ = none := by
  have unburied : ∀ before c rest, replaced = before ++ c :: rest →
      ¬ c.Buries (after before) ⟨3, 1, 3⟩ := by
    intro before c rest eq
    have mem : c ∈ replaced := eq ▸ List.mem_append_right before List.mem_cons_self
    simp only [replaced, List.mem_cons, List.not_mem_nil, or_false] at mem
    -- The board is below.
    rcases mem with rfl | rfl | rfl | rfl
    · exact fun buries => absurd buries.1 (by decide)
    all_goals exact id
  refine ⟨unburied, ?_, ?_, ?_⟩
  · exact (table?_placeCircuit _ _ _ _ _).trans (if_pos rfl)
  · exact (block_setBlock _ _ _ _).trans (if_pos rfl)
  · refine (owned_after replaced ⟨3, 1, 3⟩ unburied).2 (replaced.take 3) (replaced.drop 3) rfl ?_ ?_
    · have solid : (after (replaced.take 3)).block ⟨3, 1, 3⟩ = .solid :=
        (block_setBlock _ _ _ _).trans (if_pos rfl)
      rw [solid]
      rfl
    · decide

/-- A nested circuit with a board laid over it. -/
def buried : List Change := [.placeCircuit ⟨3, 0, 3⟩ .north Repeater.table, .layBoard ⟨0, 0, 0⟩ []]

/-- **A buried table returns.** It outlasts the nested circuit that it belongs to, and a nested
circuit that is set there later without a table has this one. -/
theorem buried_table_returns : (after buried).block ⟨3, 0, 3⟩ = .breadboard .plain ∧
    (after buried).table? ⟨3, 0, 3⟩ = some Repeater.table ∧
    (after (buried ++ [.setBlock ⟨3, 0, 3⟩ (.circuit .north)])).table? ⟨3, 0, 3⟩ =
      some Repeater.table := by
  have buried_eq : after buried =
      (empty.placeCircuit ⟨3, 0, 3⟩ .north Repeater.table).layBoard ⟨0, 0, 0⟩
        (Socket.roles []) := by
    simp only [after, buried, List.foldl_cons, List.foldl_nil, Change.apply]
  have board : (after buried).block ⟨3, 0, 3⟩ = .breadboard .plain := by
    have cell : (⟨3, 0, 3⟩ : Position) = cellAt ⟨0, 0, 0⟩ 3 3 := rfl
    rw [buried_eq, cell, block_layBoard_cell _ _ _ (by decide) (by decide)]
    rfl
  have kept : (after buried).table? ⟨3, 0, 3⟩ = some Repeater.table := by
    rw [buried_eq, table?_layBoard, table?_placeCircuit, if_pos rfl]
  refine ⟨board, kept, ?_⟩
  rw [after, List.foldl_append, ← after]
  exact (table?_setBlock _ _ _ _).trans (by rw [if_neg (by decide), kept])

end TorchLogic.World
