import TorchLogic.Proofs.Layout.Exact

/-!
# The limits of the world

The limits are for the north-west corner of the board, for the number of layers and for the level
above the last of them (`Layout.fits_iff`). What a layout puts down is up to seven blocks further
east and south than the corner, so it may exceed the limits by that much, and all of it is inside
them exactly if the corner keeps that distance (`Layout.within_limits_iff`).

A corner is a position of 32 bits, and whether a layout fits is found out by sums of 32 bits: two of
them, for the level above the last layer, before anything is asked of the corner. Such sums are told
by a parameter, as one that leaves the 32 bits may stop everything (`exactSum`) or wrap around
(`wrappedSum`). The level above the last layer does leave the 32 bits for some corners, all of which
are too high themselves (`Layout.worldLimit_lt_of_fitsUsing_eq_none`). So wrapping around does no
harm (`Layout.fitsUsing_wrappedSum`), but stopping does. Once a layout is known to fit, no sum
leaves the 32 bits any more: the limits are far inside what they hold (`Layout.offsetUsing_cellAt`,
`Layout.positionUsing_exactSum`).
-/

namespace TorchLogic

open Board

namespace Layout

variable {l : Layout} {w : World} {c : Cell} {p : Position}

/-! ### What fits -/

theorem inRange_iff {n : Int} : inRange n = true ↔ -worldLimit ≤ n ∧ n ≤ worldLimit := by
  rw [inRange, Bool.and_eq_true, decide_eq_true_iff, decide_eq_true_iff]

/-- **The corner, the number of layers and the level above the last one** decide whether a layout
fits. -/
theorem fits_iff : l.fits = true ↔
    (-worldLimit ≤ l.origin.x ∧ l.origin.x ≤ worldLimit) ∧
      (-worldLimit ≤ l.origin.y ∧ l.origin.y + l.layers.length + 1 ≤ worldLimit) ∧
      (-worldLimit ≤ l.origin.z ∧ l.origin.z ≤ worldLimit) ∧
      (l.layers.length : Int) ≤ worldLimit := by
  simp only [fits, Bool.and_eq_true, inRange_iff, decide_eq_true_iff]
  unfold worldLimit
  omega

/-- A layout is refused for its corner exactly if it does not fit. -/
theorem world_eq_originOutOfRange_iff :
    l.world = .error (.originOutOfRange p) ↔ l.fits = false ∧ p = l.origin := by
  constructor
  · intro failed
    rcases l.world_outcome with ⟨e, place, failed', first⟩ | ⟨-, s, -, built⟩
    · rw [failed] at failed'
      cases failed'
      -- No other defect is reported in this way.
      obtain ⟨defect, -⟩ := first
      cases defect with
      | corner out => exact ⟨out, rfl⟩
    · rw [failed] at built
      cases built
  · rintro ⟨out, rfl⟩
    rw [world, out]
    rfl

/-! ### Where the blocks of a layout are -/

/-- **Whether a position is within the limits.** -/
def WithinLimits (p : Position) : Prop :=
  (-worldLimit ≤ p.x ∧ p.x ≤ worldLimit) ∧ (-worldLimit ≤ p.y ∧ p.y ≤ worldLimit) ∧
    -worldLimit ≤ p.z ∧ p.z ≤ worldLimit

/-- **Every block of a layout** is on the board or at a cell. -/
theorem IsWorld.onSquare_or_cell (world : l.IsWorld w) (block : w.block p ≠ .air) :
    OnSquare l.origin p ∨ ∃ c, l.Holds c ∧ l.position c = p := by
  by_contra! nowhere
  exact block (world.air p nowhere.1 nowhere.2)

/-- Blocks are up to seven further east and south than the corner, and up to one layer for each that
there is above it. -/
theorem IsWorld.bounds (world : l.IsWorld w) (block : w.block p ≠ .air) :
    (l.origin.x ≤ p.x ∧ p.x ≤ l.origin.x + 7) ∧
      (l.origin.y ≤ p.y ∧ p.y ≤ l.origin.y + l.layers.length) ∧
      l.origin.z ≤ p.z ∧ p.z ≤ l.origin.z + 7 := by
  rcases world.onSquare_or_cell block with square | ⟨c, holds, rfl⟩
  · unfold OnSquare at square
    omega
  · rw [world.position c holds]
    obtain ⟨hl, hr, hc⟩ := holds
    unfold gridSize at hr hc
    dsimp only [Position.offset]
    omega

/-- The south-east corner of the board is a block. -/
theorem IsWorld.block_corner (world : l.IsWorld w) : w.block (cellAt l.origin 7 7) ≠ .air := by
  have board := world.board.isBreadboard (onSquare_iff_cell.2 ⟨7, 7, by decide, by decide, rfl⟩)
  intro air
  rw [air] at board
  cases board

/-- **The blocks of a layout that has a world** exceed the limits by seven at most, to the east and
to the south. All of them are within the limits exactly if the corner is seven away from both. -/
theorem within_limits_iff (built : l.world = .ok w) :
    (∀ p, w.block p ≠ .air →
      (-worldLimit ≤ p.x ∧ p.x ≤ worldLimit + 7) ∧ (-worldLimit ≤ p.y ∧ p.y < worldLimit) ∧
        -worldLimit ≤ p.z ∧ p.z ≤ worldLimit + 7) ∧
    ((∀ p, w.block p ≠ .air → WithinLimits p) ↔
      l.origin.x + 7 ≤ worldLimit ∧ l.origin.z + 7 ≤ worldLimit) := by
  have world := isWorld_of_world built
  have corner := fits_iff.1 (sound_of_world built).1.fits
  refine ⟨fun p block => ?_, fun within => ?_, fun away p block => ?_⟩
  · -- the board reaches seven blocks east and south of its corner
    have bounds := world.bounds block
    omega
  · -- the block of the board that is farthest from the corner
    have last := within _ world.block_corner
    unfold WithinLimits at last
    dsimp only [cellAt, Position.offset] at last
    omega
  · have bounds := world.bounds block
    unfold WithinLimits
    omega

/-- The nested repeater as far up, north and east as it fits into the limits. -/
theorem within_limits_iff_repeater : ∃ w,
    Layout.world { Repeater.layout with origin := ⟨29999993, 29999998, -30000000⟩ } = .ok w ∧
      ∀ p, w.block p ≠ .air → WithinLimits p := by
  refine ⟨_, rfl, ?_⟩
  refine (within_limits_iff (l := { Repeater.layout with origin :=
    ⟨29999993, 29999998, -30000000⟩ }) rfl).2.2 ?_
  decide

/-- A board without sockets and without layers, by its corner. -/
def bare (corner : Position) : Layout := ⟨corner, fun _ => none, [], []⟩

/-- **A board whose corner is on the limit in the east** is not refused, and leaves the limits. -/
theorem eastern_board_leaves_limits : ∃ w, (bare ⟨30000000, 0, 0⟩).world = .ok w ∧
    w.block ⟨30000007, 0, 7⟩ ≠ .air ∧ ¬ WithinLimits ⟨30000007, 0, 7⟩ := by
  refine ⟨_, rfl, (isWorld_of_world (l := bare ⟨30000000, 0, 0⟩) rfl).block_corner, ?_⟩
  rintro ⟨⟨-, east⟩, -⟩
  exact absurd east (by decide)

end Layout

/-! ### Sums of 32 bits -/

/-- **The numbers that 32 bits hold**, the highest of which is the sign. -/
def IsWord (n : Int) : Prop := -2147483648 ≤ n ∧ n < 2147483648

instance {n : Int} : Decidable (IsWord n) := inferInstanceAs (Decidable (_ ∧ _))

/-- **The sum of two words**, or none if it leaves the 32 bits. -/
def exactSum (a b : Int) : Option Int := if IsWord (a + b) then some (a + b) else none

/-- **The sum of two words**, wrapped around. -/
def wrappedSum (a b : Int) : Option Int := some ((a + b).bmod 4294967296)

section Sums

variable {a b : Int}

theorem exactSum_eq_none_iff : exactSum a b = none ↔ ¬ IsWord (a + b) := by
  rw [exactSum]
  split <;> simp [*]

theorem exactSum_eq (word : IsWord (a + b)) : exactSum a b = some (a + b) := if_pos word

end Sums

/-- **The position a given way off**, by given sums. -/
def Position.offsetUsing (sum : Int → Int → Option Int) (p : Position) (dx dy dz : Int) :
    Option Position := do
  let x ← sum p.x dx
  let y ← sum p.y dy
  let z ← sum p.z dz
  some ⟨x, y, z⟩

theorem Position.offsetUsing_exactSum {p : Position} {dx dy dz : Int} (hx : IsWord (p.x + dx))
    (hy : IsWord (p.y + dy)) (hz : IsWord (p.z + dz)) :
    p.offsetUsing exactSum dx dy dz = some (p.offset dx dy dz) := by
  rw [offsetUsing, exactSum_eq hx, exactSum_eq hy, exactSum_eq hz]
  rfl

namespace Layout

variable {l : Layout} {c : Cell}

/-! ### Whether a layout fits, by sums of 32 bits -/

/-- **The level above the last layer**, by given sums, unless there are too many layers to ask. -/
def topUsing (sum : Int → Int → Option Int) (l : Layout) : Option (Option Int) :=
  if (l.layers.length : Int) ≤ worldLimit then do
    let height ← sum l.origin.y l.layers.length
    let top ← sum height 1
    some (some top)
  else some none

/-- **Whether a layout fits**, by given sums. The level above the last layer is worked out before
anything is asked of the corner. -/
def fitsUsing (sum : Int → Int → Option Int) (l : Layout) : Option Bool := do
  let top ← l.topUsing sum
  some (inRange l.origin.x && inRange l.origin.y && inRange l.origin.z && top.any inRange)

/-- **Where a cell is in the world**, by given sums. -/
def positionUsing (sum : Int → Int → Option Int) (l : Layout) (c : Cell) : Option Position := do
  let up ← sum (coordinate c.layer) 1
  l.origin.offsetUsing sum (coordinate c.column) up (coordinate c.row)

section Guard

/-- Nothing is added up for too many layers. -/
theorem topUsing_of_many {sum : Int → Int → Option Int}
    (many : ¬ (l.layers.length : Int) ≤ worldLimit) : l.topUsing sum = some none := by
  rw [topUsing, if_neg many]

/-- The answer is right if the level above the last layer is, at least for a corner that may be
within the limits. -/
theorem fitsUsing_eq {sum : Int → Int → Option Int} {top : Option Int}
    (found : l.topUsing sum = some top) (right : inRange l.origin.y = true →
      top = if (l.layers.length : Int) ≤ worldLimit then some (l.origin.y + l.layers.length + 1)
        else none) :
    l.fitsUsing sum = some l.fits := by
  rw [fitsUsing, found, fits]
  cases level : inRange l.origin.y with
  | false => simp
  | true =>
    rw [right level]
    by_cases few : (l.layers.length : Int) ≤ worldLimit <;> simp [few]

variable (word : IsWord l.origin.y)

include word

/-- **The level above the last layer by exact sums**: the first of them is never the one that fails.
-/
theorem topUsing_exactSum (few : (l.layers.length : Int) ≤ worldLimit) : l.topUsing exactSum =
    if IsWord (l.origin.y + l.layers.length + 1) then some (some (l.origin.y + l.layers.length + 1))
    else none := by
  rw [topUsing, if_pos few]
  by_cases height : IsWord (l.origin.y + l.layers.length)
  · rw [exactSum_eq height, Option.bind_eq_bind, Option.bind_some, exactSum]
    split <;> rfl
  · have top : ¬ IsWord (l.origin.y + l.layers.length + 1) := by
      unfold IsWord at word height ⊢
      omega
    rw [exactSum_eq_none_iff.2 height, if_neg top]
    rfl

/-- **The sums leave the 32 bits** exactly if the level above the last layer does, and there are not
too many layers to ask. -/
theorem fitsUsing_exactSum_eq_none_iff : l.fitsUsing exactSum = none ↔
    (l.layers.length : Int) ≤ worldLimit ∧ ¬ IsWord (l.origin.y + l.layers.length + 1) := by
  by_cases few : (l.layers.length : Int) ≤ worldLimit
  · rw [fitsUsing, topUsing_exactSum word few]
    split <;> simp [*]
  · simp [fitsUsing, topUsing, few]

/-- **Sums that stay within the 32 bits** find out whether the layout fits. -/
theorem fitsUsing_exactSum {answer : Bool} (found : l.fitsUsing exactSum = some answer) :
    answer = l.fits := by
  -- Where the sums have an answer at all they are the sums.
  have same : l.fitsUsing exactSum = some l.fits := by
    by_cases few : (l.layers.length : Int) ≤ worldLimit
    · have top := topUsing_exactSum word few
      split at top
      · refine fitsUsing_eq top fun _ => ?_
        rw [if_pos few]
      · rw [fitsUsing, top] at found
        cases found
    · -- with so many layers there is no sum
      exact fitsUsing_eq (topUsing_of_many few) fun _ => (if_neg few).symm
  rw [same] at found
  exact (Option.some.inj found).symm

/-- A corner for which the sums leave the 32 bits is too high. -/
theorem worldLimit_lt_of_fitsUsing_eq_none (stopped : l.fitsUsing exactSum = none) :
    worldLimit < l.origin.y := by
  obtain ⟨few, out⟩ := (fitsUsing_exactSum_eq_none_iff word).1 stopped
  unfold IsWord worldLimit at *
  omega

omit word in
/-- **Sums that wrap around** find out whether the layout fits. -/
theorem fitsUsing_wrappedSum (l : Layout) : l.fitsUsing wrappedSum = some l.fits := by
  by_cases few : (l.layers.length : Int) ≤ worldLimit
  · have top : l.topUsing wrappedSum =
        some (some (((l.origin.y + l.layers.length).bmod 4294967296 + 1).bmod 4294967296)) := by
      rw [topUsing, if_pos few]
      rfl
    refine fitsUsing_eq top fun level => ?_
    rw [if_pos few, Option.some.injEq]
    -- Nothing wraps for a corner within the limits.
    rw [inRange_iff] at level
    unfold worldLimit at few level
    rw [Int.bmod_eq_of_le (n := l.origin.y + l.layers.length) (by omega) (by omega),
      Int.bmod_eq_of_le (by omega) (by omega)]
  · exact fitsUsing_eq (topUsing_of_many few) fun _ => (if_neg few).symm

end Guard

/-! ### Positions by sums of 32 bits -/

section Positions

variable (fits : l.fits = true)

include fits

/-- **The blocks of the board are laid without leaving the 32 bits.** -/
theorem offsetUsing_cellAt {x z : Nat} (hx : x < 8) (hz : z < 8) :
    l.origin.offsetUsing exactSum x 0 z = some (cellAt l.origin x z) := by
  have corner := fits_iff.1 fits
  unfold worldLimit at corner
  refine Position.offsetUsing_exactSum ?_ ?_ ?_ <;> unfold IsWord <;> omega

/-- **The position of a cell is found without leaving the 32 bits**, and each of its numbers is its
own coordinate. -/
theorem positionUsing_exactSum (holds : l.Holds c) :
    (coordinate c.layer = c.layer ∧ coordinate c.row = c.row ∧ coordinate c.column = c.column) ∧
      l.positionUsing exactSum c = some (l.position c) := by
  have corner := fits_iff.1 fits
  obtain ⟨hl, hr, hc⟩ := holds
  unfold worldLimit at corner
  unfold gridSize at hr hc
  have layer : coordinate c.layer = c.layer := coordinate_eq (by omega)
  have row : coordinate c.row = c.row := coordinate_eq (by omega)
  have column : coordinate c.column = c.column := coordinate_eq (by omega)
  refine ⟨⟨layer, row, column⟩, ?_⟩
  -- A cell of a layer is one above the board, so its height is at least one.
  have up : exactSum (coordinate c.layer) 1 = some (coordinate c.layer + 1) := by
    refine exactSum_eq ?_
    unfold IsWord
    omega
  rw [positionUsing, up]
  refine Position.offsetUsing_exactSum ?_ ?_ ?_ <;> unfold IsWord <;> omega

end Positions

/-- **A layout is built by sums of 32 bits** as it is by unbounded ones. There is one exception: the
level above the last layer need not be a word if the corner is too high already. -/
theorem sums_exact (l : Layout) (word : IsWord l.origin.y) :
    (l.fitsUsing exactSum = none ↔
      (l.layers.length : Int) ≤ worldLimit ∧ ¬ IsWord (l.origin.y + l.layers.length + 1)) ∧
    (l.fitsUsing exactSum = none → worldLimit < l.origin.y) ∧
    (∀ answer, l.fitsUsing exactSum = some answer → answer = l.fits) ∧
    l.fitsUsing wrappedSum = some l.fits ∧
    (∀ p, l.world = .error (.originOutOfRange p) ↔ l.fits = false ∧ p = l.origin) ∧
    (l.fits = true →
      (∀ x z : Nat, x < 8 → z < 8 →
        l.origin.offsetUsing exactSum x 0 z = some (cellAt l.origin x z)) ∧
      ∀ c, l.Holds c →
        (coordinate c.layer = c.layer ∧ coordinate c.row = c.row ∧ coordinate c.column = c.column) ∧
        l.positionUsing exactSum c = some (l.position c)) :=
  ⟨fitsUsing_exactSum_eq_none_iff word, worldLimit_lt_of_fitsUsing_eq_none word,
    fun _ => fitsUsing_exactSum word, l.fitsUsing_wrappedSum,
    fun _ => world_eq_originOutOfRange_iff,
    fun fits => ⟨fun _ _ => offsetUsing_cellAt fits, fun _ => positionUsing_exactSum fits⟩⟩

/-- The highest corner of 32 bits is refused, and wrapped sums know that it must be. -/
theorem sums_exact_highest : IsWord (bare ⟨0, 2147483647, 0⟩).origin.y ∧
    (bare ⟨0, 2147483647, 0⟩).fitsUsing wrappedSum = some false ∧
    (bare ⟨0, 2147483647, 0⟩).world = .error (.originOutOfRange ⟨0, 2147483647, 0⟩) := by
  have word : IsWord (bare ⟨0, 2147483647, 0⟩).origin.y := by decide
  have out : (bare ⟨0, 2147483647, 0⟩).fits = false := by decide
  obtain ⟨-, -, -, wrapped, refused, -⟩ := sums_exact (bare ⟨0, 2147483647, 0⟩) word
  exact ⟨word, wrapped.trans (congrArg some out), (refused _).2 ⟨out, rfl⟩⟩

/-- **The level above the highest corner of 32 bits is no word**, so exact sums stop where the
corner should be refused. -/
theorem highest_corner_overflows :
    IsWord (bare ⟨0, 2147483647, 0⟩).origin.y ∧
      (bare ⟨0, 2147483647, 0⟩).fitsUsing exactSum = none := by
  decide

end Layout

end TorchLogic
