import TorchLogic.World.Wiring

/-!
# A world turned by a quarter

Everything turned clockwise about the vertical axis through the origin: positions move, and what
faces a way faces the next one. The turned world (`World.turn`) holds at each turned position what
the world held there, turned, and the tables of its nested circuits as they were. A wire points in
the turned world as it did, turned (`World.wirePoints_turn`).
-/

namespace TorchLogic

namespace Position

/-- **A position turned clockwise** about the vertical axis. -/
def turn (p : Position) : Position := ⟨-p.z, p.y, p.x⟩

/-- A position turned the other way. -/
def turnBack (p : Position) : Position := ⟨p.z, p.y, -p.x⟩

@[simp] theorem turnBack_turn (p : Position) : p.turn.turnBack = p := by
  simp only [turn, turnBack, Int.neg_neg]

@[simp] theorem turn_turnBack (p : Position) : p.turnBack.turn = p := by
  simp only [turn, turnBack, Int.neg_neg]

theorem turn_inj {p q : Position} : p.turn = q.turn ↔ p = q :=
  ⟨fun eq => by rw [← turnBack_turn p, eq, turnBack_turn], congrArg turn⟩

@[simp] theorem turn_above (p : Position) : p.above.turn = p.turn.above := by
  simp only [turn, above, step, offset, Int.add_zero]

@[simp] theorem turn_below (p : Position) : p.below.turn = p.turn.below := by
  simp only [turn, below, step, offset, Int.add_zero]

@[simp] theorem turn_toward (p : Position) (f : Facing) :
    (p.toward f).turn = p.turn.toward f.clockwise := by
  cases f <;>
    simp only [turn, toward, Direction.ofFacing, step, offset, Facing.clockwise, mk.injEq,
      and_true] <;>
    omega

end Position

/-! ### Blocks -/

/-- A style with the side of a socket changed. -/
def Style.mapFacing (g : Facing → Facing) : Style → Style
  | plain => plain
  | input f => input (g f)
  | output f => output (g f)

@[simp] theorem Style.role_mapFacing (g : Facing → Facing) (s : Style) :
    (s.mapFacing g).role = s.role := by
  cases s <;> rfl

namespace Block

/-- **A block that faces another way.** -/
def mapFacing (g : Facing → Facing) : Block → Block
  | breadboard style => breadboard (style.mapFacing g)
  | wallTorch f => wallTorch (g f)
  | circuit f => circuit (g f)
  | c => c

variable {g h : Facing → Facing} {c : Block}

@[simp] theorem conducts_mapFacing : (c.mapFacing g).conducts = c.conducts := by cases c <;> rfl

@[simp] theorem isWire_mapFacing : (c.mapFacing g).isWire = c.isWire := by cases c <;> rfl

@[simp] theorem isTorch_mapFacing : (c.mapFacing g).isTorch = c.isTorch := by cases c <;> rfl

@[simp] theorem isBreadboard_mapFacing : (c.mapFacing g).isBreadboard = c.isBreadboard := by
  cases c <;> rfl

theorem mapFacing_mapFacing : (c.mapFacing g).mapFacing h = c.mapFacing (h ∘ g) := by
  cases c with
  | breadboard style => cases style <;> rfl
  | _ => rfl

@[simp] theorem mapFacing_id : c.mapFacing id = c := by
  cases c with
  | breadboard style => cases style <;> rfl
  | _ => rfl

end Block

/-! ### Worlds -/

namespace World

/-- What is kept for positions, turned. -/
def turnKeys {α β : Type} (g : α → β) (m : Std.HashMap Position α) : Std.HashMap Position β :=
  .ofList (m.toList.map fun e => (e.1.turn, g e.2))

theorem getElem?_turnKeys {α β : Type} (g : α → β) (m : Std.HashMap Position α) (p : Position) :
    (turnKeys g m)[p.turn]? = m[p]?.map g := by
  unfold turnKeys
  cases kept : m[p]? with
  | some v =>
    have mem : (p.turn, g v) ∈ m.toList.map fun e => (e.1.turn, g e.2) :=
      List.mem_map_of_mem (Std.HashMap.mem_toList_iff_getElem?_eq_some.2 kept)
    refine Std.HashMap.getElem?_ofList_of_mem (beq_self_eq_true _) ?_ mem
    -- Different positions stay different.
    rw [List.pairwise_map]
    refine Std.HashMap.distinct_keys_toList.imp fun {a b} ne => ?_
    rw [beq_eq_false_iff_ne] at ne ⊢
    exact fun eq => ne (Position.turn_inj.1 eq)
  | none =>
    -- what is kept at the turned position was kept at the position
    refine Std.HashMap.getElem?_ofList_of_contains_eq_false ?_
    rw [Bool.eq_false_iff, ne_eq, List.contains_iff_mem, List.map_map, List.mem_map]
    rintro ⟨e, mem, eq⟩
    have known := Std.HashMap.mem_toList_iff_getElem?_eq_some.1 mem
    rw [Position.turn_inj.1 eq, kept] at known
    cases known

/-- **A world turned clockwise** about the vertical axis. -/
def turn (w : World) : World where
  blocks := turnKeys (Block.mapFacing Facing.clockwise) w.blocks
  tables := turnKeys id w.tables

variable {w : World} {p : Position} {f : Facing}

theorem block_turn : w.turn.block p.turn = (w.block p).mapFacing Facing.clockwise := by
  rw [block, turn, getElem?_turnKeys, block]
  cases w.blocks[p]? <;> rfl

theorem table?_turn : w.turn.table? p.turn = w.table? p := by
  rw [table?, turn, getElem?_turnKeys, Option.map_id_fun, id, table?]

/-! ### Wires -/

/-- **Where a wire points**: where it reaches, and away from what it reaches if that is all on one
side. -/
theorem wirePoints_iff : w.wirePoints p f = true ↔ w.block p = .wire ∧
    (w.wireReaches p f = true ∨ ∀ f', w.wireReaches p f' = true → f' = f.opposite) := by
  have mem (f' : Facing) : f' ∈ w.reached p ↔ w.wireReaches p f' = true := by
    rw [reached, List.mem_filter, and_iff_right (Facing.mem_all f')]
  have nodup : (w.reached p).Nodup := List.Pairwise.filter _ (by decide)
  rw [World.wirePoints, Bool.and_eq_true, Block.isWire_iff]
  refine and_congr_right fun _ => ?_
  simp only [← mem]
  -- The rules for none and for one are the second case of the statement.
  generalize w.reached p = ways at nodup
  rcases ways with _ | ⟨only, _ | ⟨other, rest⟩⟩
  · simp
  · simp only [Bool.or_eq_true, beq_iff_eq, List.mem_singleton, forall_eq]
    refine or_congr_right ⟨?_, ?_⟩
    · rintro rfl
      exact (Facing.opposite_opposite only).symm
    · rintro rfl
      exact (Facing.opposite_opposite f).symm
  · -- two ways are different, so they are not both opposite
    rw [List.contains_iff_mem]
    refine ⟨.inl, fun points => points.resolve_right fun all => ?_⟩
    have first := all only List.mem_cons_self
    have second := all other (List.mem_cons_of_mem _ List.mem_cons_self)
    rw [first, second] at nodup
    exact (List.nodup_cons.1 nodup).1 List.mem_cons_self

theorem wireReaches_turn : w.turn.wireReaches p.turn f.clockwise = w.wireReaches p f := by
  unfold wireReaches
  simp only [← Position.turn_toward, ← Position.turn_above, ← Position.turn_below, block_turn,
    table?_turn, Block.isWire_mapFacing, Block.conducts_mapFacing]
  cases w.block (p.toward f) with
  | circuit facing =>
    simp only [Block.mapFacing, Facing.opposite_clockwise, Side.relative_clockwise]
  | _ => rfl

/-- **A wire points as it did, turned.** -/
theorem wirePoints_turn : w.turn.wirePoints p.turn f.clockwise = w.wirePoints p f := by
  have wire : w.turn.block p.turn = .wire ↔ w.block p = .wire := by
    rw [block_turn, ← Block.isWire_iff, Block.isWire_mapFacing, Block.isWire_iff]
  rw [Bool.eq_iff_iff, wirePoints_iff, wirePoints_iff, wire, wireReaches_turn]
  refine and_congr_right fun _ =>
    or_congr_right ⟨fun all f' reaches => ?_, fun all f' reaches => ?_⟩
  · rw [← wireReaches_turn] at reaches
    have eq := all _ reaches
    rwa [Facing.opposite_clockwise, Facing.clockwise_inj] at eq
  · rw [← Facing.counterclockwise_clockwise f'] at reaches ⊢
    rw [wireReaches_turn] at reaches
    rw [all _ reaches, Facing.opposite_clockwise]

end World

end TorchLogic
