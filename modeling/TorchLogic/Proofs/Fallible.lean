/-!
# Steps that may fail

A step that succeeded is followed by the next one (`ok_bind`). A loop over a list whose steps may
fail succeeds if each of its steps does. A loop that only looks things up gives what its steps give
(`anyM_eq_ok`, `mapM_eq_ok`, `flatMapM_eq_ok`), and comes apart where its list does
(`flatMapM_append`, `flatMapM_flatMap`). A loop that builds something up keeps an invariant, which
may speak of the part of the list that was done (`foldlM_ok_of_append`, `foldlM_ok`).

The other way round, what succeeded did so step by step (`of_bind_eq_ok`), and a loop that succeeded
has kept what each of its steps keeps (`of_foldlM_eq_ok`, `of_foldlM_eq_ok_of_append`). Giving other
names to the errors of a loop is giving them to those of its steps (`mapM_mapError`,
`anyM_mapError`).

Where a step can tell from what it is given, and not from what was built so far, that it fails, the
loop fails with the first such fault (`foldlM_findSome?`). A loop in a loop is one loop
(`foldlM_flatMap`).
-/

namespace TorchLogic

theorem ok_bind {α β ε : Type} (x : α) (next : α → Except ε β) : (Except.ok x >>= next) = next x :=
  rfl

theorem mapError_ok {α ε δ : Type} (f : ε → δ) (x : α) :
    (Except.ok x : Except ε α).mapError f = .ok x :=
  rfl

theorem mapError_bind {α β ε δ : Type} (f : ε → δ) (x : Except ε α) (next : α → Except ε β) :
    (x >>= next).mapError f = x.mapError f >>= fun a => (next a).mapError f := by
  cases x <;> rfl

/-- Naming the errors of a loop anew is naming those of its steps anew. -/
theorem mapM_mapError {α β ε δ : Type} (f : ε → δ) (k : α → Except ε β) (l : List α) :
    (l.mapM fun x => (k x).mapError f) = (l.mapM k).mapError f := by
  induction l with
  | nil => rfl
  | cons x rest ih =>
    rw [List.mapM_cons, List.mapM_cons, ih, mapError_bind]
    cases k x with
    | error e => rfl
    | ok y => cases rest.mapM k <;> rfl

theorem anyM_mapError {α ε δ : Type} (f : ε → δ) (k : α → Except ε Bool) (l : List α) :
    (l.anyM fun x => (k x).mapError f) = (l.anyM k).mapError f := by
  induction l with
  | nil => rfl
  | cons x rest ih =>
    rw [List.anyM, List.anyM, ih, mapError_bind]
    cases k x with
    | error e => rfl
    | ok found => cases found <;> rfl

theorem anyM_eq_ok {α ε : Type} {f : α → Except ε Bool} {v : α → Bool} {l : List α}
    (known : ∀ x ∈ l, f x = .ok (v x)) : l.anyM f = .ok (l.any v) := by
  induction l with
  | nil => rfl
  | cons x rest ih =>
    -- If this one is on, the rest is not looked at, and need not be.
    have later := ih fun y mem => known y (List.mem_cons_of_mem _ mem)
    rw [List.anyM, known x List.mem_cons_self, List.any_cons]
    cases v x with
    | true => rfl
    | false => rw [Bool.false_or]; exact later

theorem mapM_eq_ok {α β ε : Type} {f : α → Except ε β} {v : α → β} {l : List α}
    (known : ∀ x ∈ l, f x = .ok (v x)) : l.mapM f = .ok (l.map v) := by
  induction l with
  | nil => rfl
  | cons x rest ih =>
    have later := ih fun y mem => known y (List.mem_cons_of_mem _ mem)
    rw [List.mapM_cons, known x List.mem_cons_self, later]
    rfl

theorem flatMapM_eq_ok {α β ε : Type} {f : α → Except ε (List β)} {v : α → List β} {l : List α}
    (known : ∀ x ∈ l, f x = .ok (v x)) : l.flatMapM f = .ok (l.flatMap v) := by
  -- The loop keeps what it has found so far in reverse.
  have loop (found : List (List β)) :
      List.flatMapM.loop f l found = .ok (found.reverse.flatten ++ l.flatMap v) := by
    induction l generalizing found with
    | nil =>
      rw [List.flatMap_nil, List.append_nil]
      rfl
    | cons x rest ih =>
      have later := ih (fun y mem => known y (List.mem_cons_of_mem _ mem)) (v x :: found)
      rw [List.flatMapM.loop, known x List.mem_cons_self]
      refine later.trans ?_
      rw [List.reverse_cons, List.flatten_concat, List.append_assoc, List.flatMap_cons]
  exact loop []

theorem flatMapM_singleton {α β ε : Type} (f : α → Except ε (List β)) (a : α) :
    [a].flatMapM f = f a := by
  rw [List.flatMapM_cons, List.flatMapM_nil]
  cases f a with
  | error e => rfl
  | ok l => exact congrArg Except.ok (List.append_nil l)

theorem flatMapM_append {α β ε : Type} (f : α → Except ε (List β)) (l l' : List α) :
    (l ++ l').flatMapM f = (do
      let first ← l.flatMapM f
      let second ← l'.flatMapM f
      .ok (first ++ second)) := by
  induction l with
  | nil =>
    rw [List.nil_append, List.flatMapM_nil]
    cases l'.flatMapM f <;> rfl
  | cons a rest ih =>
    rw [List.cons_append, List.flatMapM_cons, List.flatMapM_cons, ih]
    -- The first failure is the failure of either side.
    cases f a with
    | error e => rfl
    | ok found =>
      cases rest.flatMapM f with
      | error e => rfl
      | ok first =>
        cases l'.flatMapM f with
        | error e => rfl
        | ok second => exact congrArg Except.ok (List.append_assoc found first second).symm

/-- What is looked up for a list of lists is looked up list by list. -/
theorem flatMapM_flatMap {α β γ ε : Type} (f : α → List β) (k : β → Except ε (List γ))
    (l : List α) : (l.flatMap f).flatMapM k = l.flatMapM fun a => (f a).flatMapM k := by
  induction l with
  | nil => rfl
  | cons a rest ih =>
    rw [List.flatMap_cons, flatMapM_append, ih, List.flatMapM_cons]
    rfl

theorem of_bind_eq_ok {α β ε : Type} {x : Except ε α} {next : α → Except ε β} {b : β}
    (h : (x >>= next) = .ok b) : ∃ a, x = .ok a ∧ next a = .ok b := by
  cases x with
  | error e => cases h
  | ok a => exact ⟨a, rfl, h⟩

theorem of_mapError_eq_ok {α ε δ : Type} {f : ε → δ} {x : Except ε α} {a : α}
    (h : x.mapError f = .ok a) : x = .ok a := by
  cases x with
  | error e => cases h
  | ok a' => exact congrArg Except.ok (Except.ok.inj h)

/-- What a fold that succeeded has kept may speak of the part that was done. -/
theorem of_foldlM_eq_ok_of_append {α β ε : Type} {k : β → α → Except ε β} {P : List α → β → Prop}
    {l : List α} {x x' : β} (folded : l.foldlM k x = .ok x') (start : P [] x)
    (next : ∀ done a rest x x', l = done ++ a :: rest → P done x → k x a = .ok x' →
      P (done ++ [a]) x') :
    P l x' := by
  -- The induction is on what is left, with any part before it done.
  have whole (rest : List α) : ∀ done x, l = done ++ rest → rest.foldlM k x = .ok x' → P done x →
      P l x' := by
    induction rest with
    | nil =>
      intro done x eq folded start
      cases folded
      rw [List.append_nil] at eq
      exact eq ▸ start
    | cons a rest ih =>
      intro done x eq folded start
      rw [List.foldlM_cons] at folded
      obtain ⟨x₁, stepped, left⟩ := of_bind_eq_ok folded
      exact ih _ x₁ (eq.trans (List.append_cons ..)) left (next done a rest x x₁ eq start stepped)
  exact whole l [] x rfl folded start

theorem of_foldlM_eq_ok {α β ε : Type} {k : β → α → Except ε β} {P : β → Prop} {l : List α}
    {x x' : β} (done : l.foldlM k x = .ok x') (start : P x)
    (next : ∀ a ∈ l, ∀ x x', P x → k x a = .ok x' → P x') : P x' := by
  refine of_foldlM_eq_ok_of_append (P := fun _ => P) done start fun before a rest x x₁ eq => ?_
  exact next a (eq ▸ List.mem_append_right before List.mem_cons_self) x x₁

/-- A fold that succeeded does so in the same way with steps that succeed wherever its steps do. -/
theorem foldlM_eq_ok_of_imp {α β ε : Type} {k k' : β → α → Except ε β} {l : List α} {x x' : β}
    (same : ∀ a x x', k x a = .ok x' → k' x a = .ok x') (done : l.foldlM k x = .ok x') :
    l.foldlM k' x = .ok x' := by
  induction l generalizing x with
  | nil => exact done
  | cons a rest ih =>
    rw [List.foldlM_cons] at done ⊢
    obtain ⟨x₁, stepped, left⟩ := of_bind_eq_ok done
    rw [same a x x₁ stepped]
    exact ih left

theorem foldlM_flatMap {α β γ ε : Type} (f : α → List γ) (k : β → γ → Except ε β) (l : List α)
    (x : β) : (l.flatMap f).foldlM k x = l.foldlM (fun x a => (f a).foldlM k x) x := by
  induction l generalizing x with
  | nil => rfl
  | cons a rest ih =>
    rw [List.flatMap_cons, List.foldlM_append, List.foldlM_cons]
    exact bind_congr ih

/-- **A fold whose steps have faults** fails with the first one, and succeeds if there is none. As
long as it goes on, it keeps an invariant, told of the part that was done. -/
theorem foldlM_findSome? {α β ε : Type} {k : β → α → Except ε β} {fault : α → Option ε}
    {P : List α → β → Prop} {l : List α} {x : β} (start : P [] x)
    (next : ∀ done a rest x, l = done ++ a :: rest → P done x →
      (∃ e, fault a = some e ∧ k x a = .error e) ∨
      (fault a = none ∧ ∃ x', k x a = .ok x' ∧ P (done ++ [a]) x')) :
    (∃ e, l.findSome? fault = some e ∧ l.foldlM k x = .error e) ∨
    (l.findSome? fault = none ∧ ∃ x', l.foldlM k x = .ok x' ∧ P l x') := by
  -- The induction is on what is left, with any part before it done.
  have whole (rest : List α) : ∀ done x, l = done ++ rest → P done x →
      (∃ e, rest.findSome? fault = some e ∧ rest.foldlM k x = .error e) ∨
      (rest.findSome? fault = none ∧ ∃ x', rest.foldlM k x = .ok x' ∧ P l x') := by
    induction rest with
    | nil =>
      intro done x eq start
      rw [List.append_nil] at eq
      exact .inr ⟨rfl, x, rfl, eq ▸ start⟩
    | cons a rest ih =>
      intro done x eq start
      rw [List.findSome?_cons, List.foldlM_cons]
      rcases next done a rest x eq start with ⟨e, fault?, failed⟩ | ⟨fault?, x₁, stepped, start₁⟩
      · -- the first fault is here
        rw [fault?, failed]
        exact .inl ⟨e, rfl, rfl⟩
      · -- or it is in what is left
        rw [fault?, stepped]
        exact ih _ x₁ (eq.trans (List.append_cons ..)) start₁
  exact whole l [] x rfl start

/-- A fold that may fail succeeds if each step keeps an invariant, told of the part that was done.
-/
theorem foldlM_ok_of_append {α β ε : Type} {k : β → α → Except ε β}
    {P : List α → β → Prop} {l : List α} {x : β} (start : P [] x)
    (next : ∀ done a rest x, l = done ++ a :: rest → P done x →
      ∃ x', k x a = .ok x' ∧ P (done ++ [a]) x') :
    ∃ x', l.foldlM k x = .ok x' ∧ P l x' := by
  -- No step has a fault.
  rcases @foldlM_findSome? α β ε k (fun _ => none) P l x start fun done a rest x eq kept =>
    .inr ⟨rfl, next done a rest x eq kept⟩ with ⟨e, fault, -⟩ | ⟨-, kept⟩
  · obtain ⟨a, -, eq⟩ := List.exists_of_findSome?_eq_some fault
    cases eq
  · exact kept

/-- Over a list without repetition, a step is not among those that were done. -/
theorem foldlM_ok {α β ε : Type} {k : β → α → Except ε β} {P : List α → β → Prop} {l : List α}
    {x : β} (nodup : l.Nodup) (start : P [] x)
    (next : ∀ done a x, a ∈ l → a ∉ done → P done x →
      ∃ x', k x a = .ok x' ∧ P (done ++ [a]) x') :
    ∃ x', l.foldlM k x = .ok x' ∧ P l x' := by
  refine foldlM_ok_of_append start fun done a rest x eq kept => ?_
  rw [eq, List.nodup_append] at nodup
  have left : a ∈ l := eq ▸ List.mem_append_right done List.mem_cons_self
  exact next done a x left (fun mem => nodup.2.2 a mem a List.mem_cons_self rfl) kept

end TorchLogic
