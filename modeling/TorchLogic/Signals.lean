import TorchLogic.Side

/-!
# Signals

One on/off value for each of the four sides. The value is total: a side that nobody mentions is
off. Signals have a compact form, a number below sixteen whose bit `i` belongs to the `i`-th side
clockwise from the front (`Signals.toByte`, `Signals.ofByte`).

Everything about signals is said through `Signals.get`: two signals that agree on every side are
equal (`Signals.ext_get`), and each way to build signals has one lemma that reads it back.
-/

namespace TorchLogic

/-- **The state of each side.** -/
structure Signals where
  front : Bool
  right : Bool
  back : Bool
  left : Bool
  deriving DecidableEq

namespace Signals

def off : Signals := ⟨false, false, false, false⟩

def get (m : Signals) : Side → Bool
  | .front => m.front
  | .right => m.right
  | .back => m.back
  | .left => m.left

/-- The same signals with one side changed. -/
def set (m : Signals) (side : Side) (value : Bool) : Signals :=
  match side with
  | .front => { m with front := value }
  | .right => { m with right := value }
  | .back => { m with back := value }
  | .left => { m with left := value }

/-- The signals whose sides are given by a function. -/
def ofFn (f : Side → Bool) : Signals := ⟨f .front, f .right, f .back, f .left⟩

/-- The signals that a list of assignments makes, starting from off; a later one wins. -/
def ofEntries (entries : List (Side × Bool)) : Signals :=
  entries.foldl (fun m e => m.set e.1 e.2) off

/-- Whether any side is on. -/
def anyOn (m : Signals) : Bool := m.front || m.right || m.back || m.left

/-- The compact form: bit `i` is the `i`-th side. -/
def toByte (m : Signals) : Nat :=
  m.front.toNat + 2 * m.right.toNat + 4 * m.back.toNat + 8 * m.left.toNat

/-- Reads the compact form; bits above the fourth are ignored. -/
def ofByte (n : Nat) : Signals := ⟨n.testBit 0, n.testBit 1, n.testBit 2, n.testBit 3⟩

/-- Moves every value to the next side clockwise. -/
def turn (m : Signals) : Signals := ⟨m.left, m.front, m.right, m.back⟩

/-- A one-line rendering that names each side. -/
def render (m : Signals) : String :=
  let entry (label : String) (value : Bool) := label ++ ": " ++ (if value then "true" else "false")
  "\x7b" ++ ", ".intercalate
    [entry "Front" m.front, entry "Right" m.right, entry "Back" m.back, entry "Left" m.left]
    ++ "\x7d"

/-! ### Reading back -/

theorem ext_get {m n : Signals} (h : ∀ s, m.get s = n.get s) : m = n := by
  cases m; cases n
  have hf := h .front; have hr := h .right; have hb := h .back; have hl := h .left
  simp only [get] at hf hr hb hl
  simp [hf, hr, hb, hl]

@[simp] theorem get_off (s : Side) : off.get s = false := by cases s <;> rfl

@[simp] theorem get_set (m : Signals) (s t : Side) (value : Bool) :
    (m.set s value).get t = if s = t then value else m.get t := by
  cases s <;> cases t <;> rfl

@[simp] theorem get_ofFn (f : Side → Bool) (s : Side) : (ofFn f).get s = f s := by
  cases s <;> rfl

@[simp] theorem ofFn_get (m : Signals) : ofFn m.get = m := rfl

@[simp] theorem get_turn (m : Signals) (s : Side) : m.turn.get s.clockwise = m.get s := by
  cases s <;> rfl

@[simp] theorem ofByte_toByte (m : Signals) : ofByte m.toByte = m := by
  obtain ⟨a, b, c, d⟩ := m
  cases a <;> cases b <;> cases c <;> cases d <;> rfl

theorem toByte_lt (m : Signals) : m.toByte < 16 := by
  obtain ⟨a, b, c, d⟩ := m
  cases a <;> cases b <;> cases c <;> cases d <;> decide

end Signals

end TorchLogic
