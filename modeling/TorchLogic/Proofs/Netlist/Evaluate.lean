import TorchLogic.Counting
import TorchLogic.Netlist.Evaluate
import TorchLogic.Proofs.Fallible
import TorchLogic.Proofs.Netlist.Feedback
import TorchLogic.Proofs.Netlist.Reduce
import TorchLogic.Proofs.TruthTable.Apply

/-!
# Evaluation solves the equations of a netlist

Each node demands a state of itself, given the states of the others (`Netlist.required`): a board
input its given state, a torch that none of its drivers is on, an output of a nested circuit what
the table says of its inputs, and so on. An assignment that meets all of these demands wherever an
output could notice is a solution (`Netlist.Solves`).

On a netlist without feedback there is exactly one, and evaluation finds it. Both are inductions
along the drivers. The step is that evaluation with one unit of fuel more does what is required, if
it finds the states of the nodes that it asks for (`Netlist.WellFormed.signalWithin_succ`); what is
asked for lies strictly upstream, so a number of units above the number of nodes upstream is always
enough (`Netlist.upstream`).
-/

namespace TorchLogic.Netlist

open Relation

variable {stage : Stage} {g : Netlist stage} {id owner : Nat}

/-! ### The equations -/

/-- **The states of the inputs of a nested circuit**, side by side. -/
def childSignals (g : Netlist stage) (owner : Nat) (v : NodeId → Bool) : Signals :=
  Signals.ofFn fun side => g.ids.any fun child =>
    decide (g.component? child = some (.circuitInput side owner)) && v child

/-- **The state that a node must have** when the board inputs have given states, by their places,
and the nodes that drive it have the states `v`. -/
def required (g : Netlist stage) (given : Nat → Bool) (v : NodeId → Bool) (id : NodeId) : Bool :=
  match g.component? id with
  | some (.input _) => given (g.inputs.idxOf id)
  | some (.output _) => (g.drivers id).any v
  | some (.circuitInput _ _) => (g.drivers id).any v
  | some .torch => !(g.drivers id).any v
  | some (.circuitOutput side owner) =>
    match g.component? owner with
    | some (.circuit table) => (table.apply (g.childSignals owner v)).get side
    | _ => false
  | _ => false

/-- **A solution** gives every node on which an output depends the state that it must have. A nested
circuit has no state of its own. -/
def Solves (g : Netlist stage) (given : Nat → Bool) (v : NodeId → Bool) : Prop :=
  ∀ id, g.Observed id → g.isCircuit id = false → v id = g.required given v id

/-! ### What a node asks for -/

/-- The nodes whose states a node is worked out from. -/
def asked (g : Netlist stage) (id : Nat) : List Nat :=
  match g.component? id with
  | some (.circuitOutput _ owner) => g.drivers owner
  | _ => g.drivers id

theorem asked_circuitOutput {side : Side} (h : g.component? id = some (.circuitOutput side owner)) :
    g.asked id = g.drivers owner := by
  rw [asked, h]

theorem isCircuit_eq_true_iff :
    g.isCircuit id = true ↔ ∃ t, g.component? id = some (.circuit t) := by
  unfold isCircuit
  cases g.component? id with
  | none => simp
  | some c => cases c <;> simp [Component.isCircuit]

namespace WellFormed

/-- What is asked for lies upstream, and is no circuit itself. -/
theorem asked_upstream (h : g.WellFormed) {p : Nat} (mem : p ∈ g.asked id) :
    TransGen g.Drives p id ∧ g.isCircuit p = false := by
  by_cases child : ∃ side owner, g.component? id = some (.circuitOutput side owner)
  -- An output child asks past its circuit, for the input children.
  · obtain ⟨side, owner, hid⟩ := child
    rw [asked_circuitOutput hid] at mem
    obtain ⟨edge, t, i, ho, -⟩ := h.circuitOutput id side owner hid
    obtain ⟨side, hp⟩ := h.circuitInput_of_drives ho mem
    exact ⟨.tail (.single mem) edge, by rw [isCircuit, hp]; rfl⟩
  · have edge : p ∈ g.drivers id := by
      unfold asked at mem
      split at mem
      case h_1 side owner hid =>
        exact absurd ⟨side, owner, hid⟩ child
      case h_2 => exact mem
    refine ⟨.single edge, ?_⟩
    rw [← Bool.not_eq_true, isCircuit_eq_true_iff]
    rintro ⟨t, hp⟩
    -- A circuit drives nothing but its output children.
    obtain ⟨c, d, hc, hd, legal⟩ := h.sealed p id edge
    rw [hp, Option.some.injEq] at hc
    subst hc
    cases d with
    | circuitOutput side owner => exact child ⟨side, owner, hd⟩
    | _ => cases legal

theorem get_childSignals (h : g.WellFormed) {a : Nat} {side : Side}
    (ha : g.component? a = some (.circuitInput side owner)) (v : NodeId → Bool) :
    (g.childSignals owner v).get side = v a := by
  rw [childSignals, Signals.get_ofFn, Bool.eq_iff_iff, List.any_eq_true]
  refine ⟨?_, ?_⟩
  · -- what is on is an input child for the side, of which there is one only
    rintro ⟨b, -, on⟩
    rw [Bool.and_eq_true, decide_eq_true_eq] at on
    rw [h.circuitInput_unique ha on.1]
    exact on.2
  · -- and the child is among the nodes that are gone through
    intro on
    refine ⟨a, mem_ids.2 (lt_size_of_component? ha), ?_⟩
    rw [Bool.and_eq_true, decide_eq_true_eq]
    exact ⟨ha, on⟩

theorem get_childSignals_of_none {side : Side} (v : NodeId → Bool)
    (none : ∀ a, g.component? a ≠ some (.circuitInput side owner)) :
    (g.childSignals owner v).get side = false := by
  rw [childSignals, Signals.get_ofFn, List.any_eq_false]
  intro a _ on
  rw [Bool.and_eq_true, decide_eq_true_eq] at on
  exact none a on.1

/-- **What is required of a node** depends on nothing but what it asks for. -/
theorem required_congr (h : g.WellFormed) (given : Nat → Bool) {v w : NodeId → Bool}
    (same : ∀ p ∈ g.asked id, v p = w p) : g.required given v id = g.required given w id := by
  -- Drivers count only by whether any of them is on.
  have any {l : List Nat} (sub : ∀ p ∈ l, v p = w p) : l.any v = l.any w := by
    induction l with
    | nil => rfl
    | cons p rest ih =>
      rw [List.any_cons, List.any_cons, sub p List.mem_cons_self,
        ih fun q mem => sub q (List.mem_cons_of_mem _ mem)]
  unfold required
  cases hid : g.component? id with
  | none => rfl
  | some c =>
    cases c with
    | circuitOutput side owner =>
      -- Side by side: an input child is asked for, and a side without one is off.
      have children : g.childSignals owner v = g.childSignals owner w := by
        refine Signals.ext_get fun side => ?_
        by_cases child : ∃ a, g.component? a = some (.circuitInput side owner)
        · obtain ⟨a, ha⟩ := child
          rw [h.get_childSignals ha, h.get_childSignals ha]
          refine same a ?_
          rw [asked_circuitOutput hid]
          exact (h.circuitInput a side owner ha).1
        · have none (a : Nat) : g.component? a ≠ some (.circuitInput side owner) :=
            fun ha => child ⟨a, ha⟩
          rw [get_childSignals_of_none v none, get_childSignals_of_none w none]
      simp only [children]
    | input f => rfl
    | wire => rfl
    | circuit t => rfl
    | output f => exact any (by simpa [asked, hid] using same)
    | circuitInput side owner => exact any (by simpa [asked, hid] using same)
    | torch =>
      show (!(g.drivers id).any v) = !(g.drivers id).any w
      rw [any (by simpa [asked, hid] using same)]

/-- Of the states that the board inputs are given, only those at the places of inputs count. -/
theorem required_congr_given (h : g.WellFormed) {given given' : Nat → Bool} {v : NodeId → Bool}
    (same : ∀ place < g.inputs.length, given place = given' place) :
    g.required given v id = g.required given' v id := by
  unfold required
  cases hid : g.component? id with
  | none => rfl
  | some c =>
    cases c with
    | input f => exact same _ (List.idxOf_lt_length_of_mem (h.mem_inputs.2 ⟨f, hid⟩))
    | _ => rfl

end WellFormed

/-! ### One step of evaluation -/

/-- The state of an input at one of the first 64 places is its bit of the word. -/
theorem stateAt_eq (word : UInt64) {place : Nat} (lt : place < 64) :
    stateAt word place = word.toNat.testBit place := by
  have small : place.toUInt64.toNat = place := by
    rw [Nat.toUInt64, UInt64.toNat_ofNat']
    exact Nat.mod_eq_of_lt (Nat.lt_trans lt (by decide))
  rw [stateAt, Nat.testBit, Bool.eq_iff_iff, bne_iff_ne, bne_iff_ne, ne_eq, ne_eq,
    ← UInt64.toNat_inj, UInt64.toNat_and, UInt64.toNat_shiftRight, small, Nat.mod_eq_of_lt lt,
    Nat.and_comm]
  rfl

namespace WellFormed

/-- Entries for the input children of a circuit make up the states of its inputs. -/
theorem ofEntries_children (h : g.WellFormed) (v : NodeId → Bool) {children : List (Side × NodeId)}
    (exact : ∀ side child,
      (side, child) ∈ children ↔ g.component? child = some (.circuitInput side owner)) :
    Signals.ofEntries (children.map fun c => (c.1, v c.2)) = g.childSignals owner v := by
  -- An entry is the state of an input child.
  have entry (side : Side) (state : Bool) :
      (side, state) ∈ children.map (fun c => (c.1, v c.2)) ↔
        ∃ child, g.component? child = some (.circuitInput side owner) ∧ v child = state := by
    rw [List.mem_map]
    refine ⟨?_, ?_⟩
    · rintro ⟨⟨side', child⟩, mem, eq⟩
      rw [Prod.mk.injEq] at eq
      obtain ⟨rfl, rfl⟩ := eq
      exact ⟨child, (exact side' child).1 mem, rfl⟩
    · rintro ⟨child, hc, rfl⟩
      exact ⟨(side, child), (exact side child).2 hc, rfl⟩
  -- A side has one input child at most, so the entries agree on it.
  refine Signals.ext_get fun side => ?_
  by_cases child : ∃ a, g.component? a = some (.circuitInput side owner)
  · obtain ⟨a, ha⟩ := child
    rw [h.get_childSignals ha]
    refine Signals.get_ofEntries_of_mem ((entry side _).2 ⟨a, ha, rfl⟩) fun other mem => ?_
    obtain ⟨b, hb, rfl⟩ := (entry side other).1 mem
    rw [h.circuitInput_unique ha hb]
  · have none (a : Nat) : g.component? a ≠ some (.circuitInput side owner) :=
      fun ha => child ⟨a, ha⟩
    rw [get_childSignals_of_none v none]
    refine Signals.get_ofEntries_of_not_mem fun state mem => ?_
    obtain ⟨a, ha, -⟩ := (entry side state).1 mem
    exact none a ha

/-- **One step of evaluation** does what is required of a node, if it finds the states that the node
asks for. -/
theorem signalWithin_succ {g : Netlist .reduced} (h : g.WellFormed) {word : UInt64} {fuel : Nat}
    {v : NodeId → Bool} (stands : id < g.size) (plain : g.isCircuit id = false)
    (known : ∀ p ∈ g.asked id, g.signalWithin word fuel p = .ok (v p)) :
    g.signalWithin word (fuel + 1) id = .ok (g.required (stateAt word) v id) := by
  obtain ⟨c, hid⟩ := Option.isSome_iff_exists.1 (component?_isSome.2 stands)
  -- What the components that add up their drivers have in common.
  have powered (direct : g.asked id = g.drivers id) :
      (g.drivers id).anyM (g.signalWithin word fuel) = .ok ((g.drivers id).any v) :=
    anyM_eq_ok fun p mem => known p (direct ▸ mem)
  rw [signalWithin, component_eq_ok_iff.2 hid]
  unfold required
  cases c with
  | circuit t => simp [isCircuit, hid, Component.isCircuit] at plain
  | wire => exact absurd hid (h.no_wire rfl id)
  | input f =>
    -- An input is given its bit of the word.
    have mem : id ∈ g.inputs := h.mem_inputs.2 ⟨f, hid⟩
    simp only [hid, bind, Except.bind, idxOf?_eq_some_iff.2 ⟨mem, rfl⟩]
  | output f =>
    -- What else is no torch is on if one of its drivers is.
    simp only [hid]
    exact powered (by rw [asked, hid])
  | circuitInput side owner =>
    simp only [hid]
    exact powered (by rw [asked, hid])
  | torch =>
    simp only [hid, bind, Except.bind, powered (by rw [asked, hid])]
  | circuitOutput side owner =>
    obtain ⟨-, t, i, ho, -⟩ := h.circuitOutput id side owner hid
    obtain ⟨children, ok, exact⟩ := h.circuitInputs_eq ho
    have table : g.circuitTable owner = .ok t := by
      rw [circuitTable, component_eq_ok_iff.2 ho]
      rfl
    -- The input children are asked one by one, and none of them fails.
    have states : (children.mapM fun child => do
        let state ← g.signalWithin word fuel child.2
        .ok (child.1, state)) = .ok (children.map fun c => (c.1, v c.2)) := by
      refine mapM_eq_ok fun c mem => ?_
      have edge : c.2 ∈ g.asked id := by
        rw [asked_circuitOutput hid]
        exact (h.circuitInput c.2 c.1 owner ((exact c.1 c.2).1 mem)).1
      simp only [known c.2 edge, bind, Except.bind]
    simp only [hid, ho, table, ok, bind, Except.bind] at states ⊢
    rw [states, ← h.ofEntries_children v exact]

end WellFormed

/-! ### The solution -/

open Classical in
/-- **How many nodes lie upstream of a node.** -/
noncomputable def upstream (g : Netlist stage) (id : Nat) : Nat :=
  g.ids.countP fun a => decide (TransGen g.Drives a id)

theorem upstream_le_size (g : Netlist stage) (id : Nat) : g.upstream id ≤ g.size := by
  classical
  refine Nat.le_trans (List.countP_le_length) ?_
  rw [ids, List.length_range]

theorem WellFormed.upstream_lt (h : g.WellFormed) {p : Nat} (acc : Acc g.Drives id)
    (path : TransGen g.Drives p id) : g.upstream p < g.upstream id := by
  classical
  obtain ⟨next, edge, -⟩ := TransGen.head'_iff.1 path
  -- The node `p` itself counts for `id`, but not for `p`.
  have noLoop := not_onLoop_of_acc (acc_of_reflTransGen acc path.to_reflTransGen)
  refine countP_lt_of_mem (mem_ids.2 (h.lt_of_mem_drivers edge).1) (fun a up => ?_)
    (decide_eq_true path) (decide_eq_false noLoop)
  exact decide_eq_true ((of_decide_eq_true up).trans path)

theorem WellFormed.lt_of_observed (h : g.WellFormed) (observed : g.Observed id) : id < g.size := by
  obtain ⟨output, mem, path⟩ := observed
  rcases ReflTransGen.cases_head path with rfl | ⟨next, edge, -⟩
  · obtain ⟨f, stands⟩ := h.mem_outputs.1 mem
    exact lt_size_of_component? stands
  · exact (h.lt_of_mem_drivers edge).1

theorem Observed.of_transGen {p : Nat} (observed : g.Observed id) (path : TransGen g.Drives p id) :
    g.Observed p := by
  obtain ⟨output, mem, rest⟩ := observed
  exact ⟨output, mem, path.to_reflTransGen.trans rest⟩

/-- **There is at most one solution.** -/
theorem Solves.unique (h : g.WellFormed) (acyclic : g.isAcyclic = true) {given : Nat → Bool}
    {v w : NodeId → Bool} (hv : g.Solves given v) (hw : g.Solves given w)
    (observed : g.Observed id) (plain : g.isCircuit id = false) : v id = w id := by
  -- The induction is along whatever lies upstream, for not only drivers are asked.
  have acc : Acc (TransGen g.Drives) id := (acc_of_isAcyclic acyclic observed).transGen
  induction acc with
  | intro id _ ih =>
    rw [hv id observed plain, hw id observed plain]
    refine h.required_congr given fun p mem => ?_
    obtain ⟨path, plain⟩ := h.asked_upstream mem
    exact ih p path (observed.of_transGen path) plain

section Settled

variable {g : Netlist .reduced} {word : UInt64}

/-- The signal that evaluation finds, or off if there is none. -/
def settled (g : Netlist .reduced) (word : UInt64) (id : NodeId) : Bool :=
  match g.signal id word with
  | .ok state => state
  | .error _ => false

theorem settled_eq {state : Bool} (ok : g.signal id word = .ok state) :
    g.settled word id = state := by
  rw [settled, ok]

/-- **Evaluation finds what is required**, with any fuel above the number of nodes upstream. -/
theorem WellFormed.settled_of_acc (h : g.WellFormed) (acc : Acc (TransGen g.Drives) id)
    (stands : id < g.size) (plain : g.isCircuit id = false) :
    g.settled word id = g.required (stateAt word) (g.settled word) id ∧
      ∀ fuel, g.upstream id < fuel → g.signalWithin word fuel id = .ok (g.settled word id) := by
  induction acc with
  | intro id up ih =>
    -- One unit of fuel pays for one step upstream.
    have step (fuel : Nat) (enough : g.upstream id < fuel + 1) :
        g.signalWithin word (fuel + 1) id =
          .ok (g.required (stateAt word) (g.settled word) id) := by
      refine h.signalWithin_succ stands plain fun p mem => ?_
      obtain ⟨path, plain⟩ := h.asked_upstream mem
      obtain ⟨next, edge, -⟩ := TransGen.head'_iff.1 path
      have acc : Acc g.Drives id := Subrelation.accessible TransGen.single (Acc.intro id up)
      have less := h.upstream_lt acc path
      exact (ih p path (h.lt_of_mem_drivers edge).1 plain).2 fuel (by omega)
    -- The fuel that evaluation is given is enough, and what it finds is what any such fuel gives.
    have found := settled_eq (step g.size (Nat.lt_succ_of_le (g.upstream_le_size id)))
    refine ⟨found, fun fuel enough => ?_⟩
    obtain ⟨fuel, rfl⟩ : ∃ k, fuel = k + 1 := ⟨fuel - 1, by omega⟩
    rw [step fuel enough, found]

variable (h : g.WellFormed) (acyclic : g.isAcyclic = true)

include h acyclic

/-- **Evaluation finds a signal wherever an output could notice**, with any fuel above the number of
nodes. -/
theorem signalWithin_eq_settled (word : UInt64) (observed : g.Observed id)
    (plain : g.isCircuit id = false) {fuel : Nat} (enough : g.size < fuel) :
    g.signalWithin word fuel id = .ok (g.settled word id) := by
  have acc := (acc_of_isAcyclic acyclic observed).transGen
  exact (h.settled_of_acc acc (h.lt_of_observed observed) plain).2 fuel
    (Nat.lt_of_le_of_lt (g.upstream_le_size id) enough)

variable (few : g.inputs.length < 64)

include few

/-- **What evaluation finds is a solution.** -/
theorem solves_settled (word : UInt64) : g.Solves word.toNat.testBit (g.settled word) := by
  intro id observed plain
  have acc := (acc_of_isAcyclic acyclic observed).transGen
  rw [(h.settled_of_acc acc (h.lt_of_observed observed) plain).1]
  exact h.required_congr_given fun place lt => stateAt_eq word (Nat.lt_trans lt few)

/-- **Evaluation finds the solution**, with any fuel above the number of nodes. -/
theorem signalWithin_eq_of_solves {v : NodeId → Bool} (solves : g.Solves word.toNat.testBit v)
    (observed : g.Observed id) (plain : g.isCircuit id = false) {fuel : Nat}
    (enough : g.size < fuel) : g.signalWithin word fuel id = .ok (v id) := by
  rw [← Solves.unique h acyclic (solves_settled h acyclic few word) solves observed plain]
  exact signalWithin_eq_settled h acyclic word observed plain enough

end Settled

end TorchLogic.Netlist
