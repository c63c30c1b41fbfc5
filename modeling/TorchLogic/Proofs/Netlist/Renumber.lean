import Mathlib.Data.List.Basic
import Mathlib.Data.List.Induction
import Mathlib.Order.Monotone.Defs
import Mathlib.Order.Nat
import TorchLogic.Proofs.Netlist.WellFormed

/-!
# Renumbering the nodes that are kept

Reduction gives a node that is not a wire its place among such nodes as its number
(`Netlist.renumbered`). That keeps the order (`Netlist.strictMonoOn_renumbered`), and it keeps nodes
adjacent that have no wire between them (`Netlist.renumbered_add`), so that the block of a nested
circuit stays one.

In a well-formed netlist the owner of a child is a circuit, which is never a wire, so every
component can be renumbered: the kept nodes come out as a netlist of loose components
(`Netlist.WellFormed.keptNodes_eq`).
-/

namespace TorchLogic

/-- **A component with the number of its circuit changed.** -/
def Component.renumber (new : Nat → Nat) : Component → Component
  | circuitInput side owner => circuitInput side (new owner)
  | circuitOutput side owner => circuitOutput side (new owner)
  | c => c

namespace Component

variable {new : Nat → Nat} {c : Component}

theorem renumber_eq_circuit_iff {t : TruthTable} : c.renumber new = circuit t ↔ c = circuit t := by
  cases c <;> simp [renumber]

theorem renumber_eq_circuitInput_iff {side : Side} {owner : Nat} :
    c.renumber new = circuitInput side owner ↔
      ∃ old, c = circuitInput side old ∧ new old = owner := by
  cases c <;> simp [renumber]

theorem renumber_eq_circuitOutput_iff {side : Side} {owner : Nat} :
    c.renumber new = circuitOutput side owner ↔
      ∃ old, c = circuitOutput side old ∧ new old = owner := by
  cases c <;> simp [renumber]

@[simp] theorem isInput_renumber : (c.renumber new).isInput = c.isInput := by
  cases c <;> rfl

@[simp] theorem isOutput_renumber : (c.renumber new).isOutput = c.isOutput := by
  cases c <;> rfl

end Component

/-- An edge that respects the seals still does when its ends and their circuits are renumbered. -/
theorem Sealing.fault?_renumber {new : Nat → Nat} {a b : Nat} {c d : Component}
    (legal : fault? a b c d = none) :
    fault? (new a) (new b) (c.renumber new) (d.renumber new) = none := by
  cases c <;> cases d <;> simp_all [fault?, Component.renumber]

namespace Netlist

section Loose

variable {stage : Stage}

/-! ### Loose components -/

/-- **The netlist of unconnected components.** -/
def loose (cs : List Component) : Netlist stage := cs.foldl push empty

theorem loose_concat (cs : List Component) (c : Component) :
    (loose (cs ++ [c]) : Netlist stage) = (loose cs).push c := by
  rw [loose, List.foldl_concat, loose]

@[simp] theorem size_loose (cs : List Component) : (loose cs : Netlist stage).size = cs.length := by
  induction cs using List.reverseRecOn with
  | nil => rfl
  | append_singleton cs c ih => rw [loose_concat, size_push, ih, List.length_append]; rfl

@[simp] theorem component?_loose (cs : List Component) (id : Nat) :
    (loose cs : Netlist stage).component? id = cs[id]? := by
  induction cs using List.reverseRecOn with
  | nil => rfl
  | append_singleton cs c ih =>
    rw [loose_concat, component?_push, ih, size_loose]
    split
    case isTrue eq =>
      rw [eq, List.getElem?_concat_length]
    case isFalse ne =>
      rcases Nat.lt_or_gt_of_ne ne with lt | gt
      · -- a node before the last
        rw [List.getElem?_append_left lt]
      · -- no node at all
        rw [List.getElem?_eq_none (Nat.le_of_lt gt), List.getElem?_eq_none]
        rw [List.length_append]
        exact gt

@[simp] theorem drivers_loose (cs : List Component) (id : Nat) :
    (loose cs : Netlist stage).drivers id = [] := by
  induction cs using List.reverseRecOn with
  | nil => simp [loose, empty, drivers]
  | append_singleton cs c ih => rw [loose_concat, drivers_push, ih]

theorem EdgesKept.loose (cs : List Component) : (loose cs : Netlist stage).EdgesKept := by
  induction cs using List.reverseRecOn with
  | nil => exact .empty
  | append_singleton cs c ih => rw [loose_concat]; exact ih.push c

theorem inputs_loose (cs : List Component) :
    (loose cs : Netlist stage).inputs =
      (loose cs : Netlist stage).ids.filter fun id =>
        ((loose cs : Netlist stage).component? id).any Component.isInput := by
  induction cs using List.reverseRecOn with
  | nil => rfl
  | append_singleton cs c ih =>
    rw [loose_concat, ids_filter_push, ← ih]
    cases c <;> simp [push, Component.isInput]

theorem outputs_loose (cs : List Component) :
    (loose cs : Netlist stage).outputs =
      (loose cs : Netlist stage).ids.filter fun id =>
        ((loose cs : Netlist stage).component? id).any Component.isOutput := by
  induction cs using List.reverseRecOn with
  | nil => rfl
  | append_singleton cs c ih =>
    rw [loose_concat, ids_filter_push, ← ih]
    cases c <;> simp [push, Component.isOutput]

end Loose

/-! ### The new numbers -/

variable {g : Netlist .wired} {a b id : Nat}

theorem isWire_iff {stage : Stage} {g : Netlist stage} :
    g.isWire id = true ↔ g.component? id = some .wire := by
  unfold isWire
  cases g.component? id with
  | none => simp
  | some c => cases c <;> simp [Component.isWire]

theorem mem_kept : id ∈ g.kept ↔ ∃ c, g.component? id = some c ∧ c ≠ .wire := by
  rw [kept, List.mem_filter, mem_ids, ← component?_isSome, Bool.not_eq_true',
    ← Bool.not_eq_true, isWire_iff]
  cases g.component? id with
  | none => simp
  | some c => simp

theorem nodup_kept (g : Netlist .wired) : g.kept.Nodup := List.nodup_range.filter _

/-- The first place of a number in a list, with and without the word on whether there is one. -/
theorem idxOf?_eq_some_iff {l : List Nat} {n k : Nat} :
    l.idxOf? n = some k ↔ n ∈ l ∧ l.idxOf n = k := by
  rw [List.idxOf?, List.findIdx?_eq_some_iff_findIdx_eq, ← List.idxOf, ← List.idxOf_lt_length_iff]
  refine ⟨?_, ?_⟩
  · rintro ⟨lt, rfl⟩
    exact ⟨lt, rfl⟩
  · rintro ⟨lt, rfl⟩
    exact ⟨lt, rfl⟩

/-- **The number of a node after reduction**, which is its place among the kept nodes. -/
def renumbered (g : Netlist .wired) (id : Nat) : Nat := g.kept.idxOf id

theorem renumbered?_eq_some_iff {k : Nat} :
    g.renumbered? id = some k ↔ id ∈ g.kept ∧ g.renumbered id = k :=
  idxOf?_eq_some_iff

theorem renumbered?_eq_none_iff : g.renumbered? id = none ↔ id ∉ g.kept :=
  List.idxOf?_eq_none_iff

/-- The new number counts the kept nodes that come before. -/
theorem renumbered_eq_countP (mem : id ∈ g.kept) :
    g.renumbered id = (List.range id).countP fun k => !g.isWire k := by
  have lt : id < g.size := mem_ids.1 (List.mem_filter.1 mem).1
  -- What comes before the node, and the rest, which starts with it.
  have split : g.kept = ((List.range id).filter fun k => !g.isWire k) ++
      (((List.range (g.size - id)).map (id + ·)).filter fun k => !g.isWire k) := by
    rw [← List.filter_append, ← List.range_add, Nat.add_sub_cancel' (Nat.le_of_lt lt)]
    rfl
  have fresh : id ∉ (List.range id).filter fun k => !g.isWire k := by simp
  have first (rest : List Nat) : (id :: rest).filter (fun k => !g.isWire k) =
      id :: rest.filter fun k => !g.isWire k := List.filter_cons_of_pos (List.mem_filter.1 mem).2
  obtain ⟨m, hm⟩ : ∃ m, g.size - id = m + 1 := ⟨g.size - id - 1, by omega⟩
  rw [renumbered, split, List.idxOf_append_of_notMem fresh, hm, List.range_succ_eq_map,
    List.map_cons, Nat.add_zero, first, List.idxOf_cons_self, Nat.add_zero,
    List.countP_eq_length_filter]

theorem renumbered_lt (ha : a ∈ g.kept) (hb : b ∈ g.kept) (lt : a < b) :
    g.renumbered a < g.renumbered b := by
  rw [renumbered_eq_countP ha, renumbered_eq_countP hb]
  -- The node `a` is kept itself, so it counts for `b` and not for `a`.
  have step : (List.range (a + 1)).countP (fun k => !g.isWire k) =
      (List.range a).countP (fun k => !g.isWire k) + 1 := by
    rw [List.range_succ, List.countP_append, List.countP_singleton,
      if_pos (List.mem_filter.1 ha).2]
  have le : (List.range (a + 1)).countP (fun k => !g.isWire k) ≤
      (List.range b).countP fun k => !g.isWire k :=
    (List.range_sublist.2 lt).countP_le
  omega

theorem strictMonoOn_renumbered (g : Netlist .wired) :
    StrictMonoOn g.renumbered {id | id ∈ g.kept} :=
  fun _ ha _ hb lt => renumbered_lt ha hb lt

theorem renumbered_inj (ha : a ∈ g.kept) : g.renumbered a = g.renumbered b ↔ a = b :=
  List.idxOf_inj ha

/-- Nodes without a wire between them stay as far apart as they were. -/
theorem renumbered_add {k : Nat} (block : ∀ i ≤ k, id + i ∈ g.kept) :
    g.renumbered (id + k) = g.renumbered id + k := by
  induction k with
  | zero => rfl
  | succ k ih =>
    have here := block k (Nat.le_succ k)
    have before := ih fun i le => block i (Nat.le_succ_of_le le)
    rw [renumbered_eq_countP here] at before
    rw [renumbered_eq_countP (block (k + 1) (Nat.le_refl _)), ← Nat.add_assoc, List.range_succ,
      List.countP_append, List.countP_singleton, if_pos (List.mem_filter.1 here).2, before,
      Nat.add_assoc]

theorem map_renumbered_kept (g : Netlist .wired) :
    g.kept.map g.renumbered = List.range g.kept.length := by
  refine List.ext_getElem (by simp) fun i hi _ => ?_
  rw [List.getElem_map, List.getElem_range, renumbered, (nodup_kept g).idxOf_getElem]

/-! ### The kept nodes -/

/-- The component that a kept node comes out as. -/
def keptComponent (g : Netlist .wired) (id : Nat) : Component :=
  ((g.component? id).getD .wire).renumber g.renumbered

theorem keptComponent_eq {c : Component} (h : g.component? id = some c) :
    g.keptComponent id = c.renumber g.renumbered := by
  rw [keptComponent, h, Option.getD_some]

namespace WellFormed

theorem renumberedComponent_eq (h : g.WellFormed) {c : Component} (hc : g.component? id = some c) :
    g.renumberedComponent c = .ok (c.renumber g.renumbered) := by
  -- A circuit is no wire, so its number is never missing.
  have owner_kept {owner : Nat} {t : TruthTable} (ho : g.component? owner = some (.circuit t)) :
      g.renumberedOwner owner = .ok (g.renumbered owner) := by
    have stays := renumbered?_eq_some_iff.2 ⟨mem_kept.2 ⟨_, ho, Component.noConfusion⟩, rfl⟩
    rw [renumberedOwner, stays]
  cases c with
  | circuitInput side owner =>
    obtain ⟨-, t, i, ho, -⟩ := h.circuitInput id side owner hc
    rw [renumberedComponent, owner_kept ho]
    rfl
  | circuitOutput side owner =>
    obtain ⟨-, t, i, ho, -⟩ := h.circuitOutput id side owner hc
    rw [renumberedComponent, owner_kept ho]
    rfl
  | _ => rfl

/-- **The kept nodes come out as loose components.** -/
theorem keptNodes_eq (h : g.WellFormed) :
    g.keptNodes = .ok (loose (g.kept.map g.keptComponent)) := by
  -- The fold is followed from any netlist, and over any list of kept nodes.
  have fold (l : List NodeId) (sub : ∀ id ∈ l, id ∈ g.kept) (r : Netlist .reduced) :
      l.foldlM (fun r id => do
        let c ← g.component id
        let c ← g.renumberedComponent c
        .ok (r.push c)) r =
      (.ok ((l.map g.keptComponent).foldl Netlist.push r) : Except NetlistError _) := by
    induction l generalizing r with
    | nil => rfl
    | cons id rest ih =>
      -- A kept node has a component, which is put down as the next one.
      obtain ⟨c, hc, -⟩ := mem_kept.1 (sub id List.mem_cons_self)
      rw [List.foldlM_cons, component_eq_ok_iff.2 hc]
      simp only [bind, Except.bind, h.renumberedComponent_eq hc]
      rw [List.map_cons, List.foldl_cons, keptComponent_eq hc]
      exact ih (fun id mem => sub id (List.mem_cons_of_mem _ mem)) _
  exact fold g.kept (fun _ mem => mem) Netlist.empty

end WellFormed

end Netlist

end TorchLogic
