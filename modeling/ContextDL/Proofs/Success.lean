/-
Computations that may fail, taken apart where they succeed.

A chain of steps succeeds if each step does; `bind_eq_ok` gives the value in
between. With it a success is split into the successes of the parts, and no
proof has to go through the failures. Where the failure itself is asked for,
`bind_eq_error` says which step it came from.
-/

namespace ContextDL

variable {ε β γ : Type}

/-- Two steps succeed if the first does, and the second on its value. -/
@[simp]
theorem bind_eq_ok {x : Except ε β} {f : β → Except ε γ} {c : γ} :
    (x >>= f) = .ok c ↔ ∃ b, x = .ok b ∧ f b = .ok c := by
  cases x <;> simp [bind, Except.bind]

/-- Two steps fail if the first does, or the second on the value of the
first. -/
theorem bind_eq_error {x : Except ε β} {f : β → Except ε γ} {e : ε} :
    (x >>= f) = .error e ↔
      x = .error e ∨ ∃ b, x = .ok b ∧ f b = .error e := by
  cases x <;> simp [bind, Except.bind]

/-- A computation succeeds exactly if it does not fail. -/
theorem exists_eq_ok_iff {x : Except ε β} :
    (∃ b, x = .ok b) ↔ ∀ e, x ≠ .error e := by
  cases x <;> simp

/-- A value succeeds as itself. -/
@[simp]
theorem pure_eq_ok {b c : β} : (pure b : Except ε β) = .ok c ↔ b = c := by
  simp [pure, Except.pure]

/-- A mapped computation succeeds if the computation does. -/
@[simp]
theorem map_eq_ok {x : Except ε β} {f : β → γ} {c : γ} :
    f <$> x = .ok c ↔ ∃ b, x = .ok b ∧ f b = c := by
  cases x <;> simp [Functor.map, Except.map]

/-- What is left of a computation that failed is nothing. -/
theorem toOption_eq_some {x : Except ε β} {b : β} :
    x.toOption = some b ↔ x = .ok b := by
  cases x <;> simp [Except.toOption]

/-- A failure on a list is the failure of a member. -/
theorem exists_of_mapM_eq_error {f : β → Except ε γ} {xs : List β} {e : ε}
    (h : xs.mapM f = .error e) : ∃ x ∈ xs, f x = .error e := by
  induction xs with
  | nil => cases h
  | cons x xs ih =>
    rw [List.mapM_cons] at h
    rcases bind_eq_error.1 h with first | ⟨y, -, h⟩
    · exact ⟨x, List.mem_cons_self, first⟩
    rcases bind_eq_error.1 h with others | ⟨ys, -, h⟩
    · obtain ⟨z, hz, failed⟩ := ih others
      exact ⟨z, List.mem_cons_of_mem x hz, failed⟩
    · cases h

theorem mapM_eq_ok_nil {f : β → Except ε γ} {xs : List β} :
    xs.mapM f = .ok [] ↔ xs = [] := by
  cases xs with
  | nil => simp
  | cons x xs => simp [List.mapM_cons]

/-- The first result comes from the first member. -/
theorem mapM_eq_ok_cons {f : β → Except ε γ} {xs : List β} {y : γ}
    {ys : List γ} :
    xs.mapM f = .ok (y :: ys) ↔
      ∃ x rest, xs = x :: rest ∧ f x = .ok y ∧ rest.mapM f = .ok ys := by
  cases xs with
  | nil => simp
  | cons x xs =>
    rw [List.mapM_cons]
    simp only [bind_eq_ok, pure_eq_ok]
    constructor
    · intro h
      obtain ⟨_, hx, _, hxs, hend⟩ := h
      cases hend
      exact ⟨x, xs, rfl, hx, hxs⟩
    · intro h
      obtain ⟨_, _, hlist, hx, hxs⟩ := h
      cases hlist
      exact ⟨y, hx, ys, hxs, rfl⟩

/-- Every member has a result, and every result comes from a member. -/
theorem exists_of_mapM_eq_ok {f : β → Except ε γ} {xs : List β} {ys : List γ}
    (h : xs.mapM f = .ok ys) :
    (∀ x ∈ xs, ∃ y ∈ ys, f x = .ok y) ∧ ∀ y ∈ ys, ∃ x ∈ xs, f x = .ok y := by
  induction ys generalizing xs with
  | nil =>
    cases mapM_eq_ok_nil.1 h
    simp
  | cons y ys ih =>
    obtain ⟨x, rest, rfl, hx, hrest⟩ := mapM_eq_ok_cons.1 h
    obtain ⟨results, sources⟩ := ih hrest
    constructor
    · intro z hz
      rcases List.mem_cons.1 hz with rfl | hz
      · exact ⟨y, List.mem_cons_self, hx⟩
      · obtain ⟨w, hw, run⟩ := results z hz
        exact ⟨w, List.mem_cons_of_mem _ hw, run⟩
    · intro w hw
      rcases List.mem_cons.1 hw with rfl | hw
      · exact ⟨x, List.mem_cons_self, hx⟩
      · obtain ⟨z, hz, run⟩ := sources w hw
        exact ⟨z, List.mem_cons_of_mem _ hz, run⟩

/-- A list succeeds if every member does, with what is left of the members. -/
theorem mapM_eq_ok_filterMap {f : β → Except ε γ} {xs : List β}
    {ys : List γ} :
    xs.mapM f = .ok ys ↔
      (∀ x ∈ xs, ∃ y, f x = .ok y) ∧
        xs.filterMap (fun x => (f x).toOption) = ys := by
  induction xs generalizing ys with
  | nil => simp
  | cons x xs ih =>
    rw [List.mapM_cons, List.forall_mem_cons, List.filterMap_cons]
    simp only [bind_eq_ok, pure_eq_ok, ih]
    cases f x with
    | error e => simp
    | ok y =>
      constructor
      · intro h
        obtain ⟨_, first, _, ⟨rest, rfl⟩, rfl⟩ := h
        cases first
        exact ⟨⟨⟨y, rfl⟩, rest⟩, rfl⟩
      · intro h
        obtain ⟨⟨-, rest⟩, rfl⟩ := h
        exact ⟨y, rfl, _, ⟨rest, rfl⟩, rfl⟩

/-- If a step succeeds on the members of a list under a condition, and then
with a known value, it succeeds on the list if all members meet the
condition, and then with the list of the values. -/
theorem mapM_eq_ok {f : β → Except ε γ} {fits : β → Prop} {value : β → γ}
    {xs : List β} {ys : List γ}
    (step : ∀ x ∈ xs, ∀ y, f x = .ok y ↔ fits x ∧ value x = y) :
    xs.mapM f = .ok ys ↔ (∀ x ∈ xs, fits x) ∧ xs.map value = ys := by
  induction xs generalizing ys with
  | nil => simp
  | cons x xs ih =>
    rw [List.mapM_cons, bind_eq_ok, List.forall_mem_cons, List.map_cons]
    simp only [bind_eq_ok, pure_eq_ok]
    have head := step x List.mem_cons_self
    have tail := fun zs => @ih zs fun x' h =>
      step x' (List.mem_cons_of_mem _ h)
    constructor
    · intro run
      obtain ⟨y, hy, zs, hzs, rfl⟩ := run
      obtain ⟨fits_x, rfl⟩ := (head y).1 hy
      obtain ⟨fits_xs, rfl⟩ := (tail zs).1 hzs
      exact ⟨⟨fits_x, fits_xs⟩, rfl⟩
    · intro h
      obtain ⟨⟨fits_x, fits_xs⟩, rfl⟩ := h
      exact ⟨value x, (head _).2 ⟨fits_x, rfl⟩, xs.map value,
        (tail _).2 ⟨fits_xs, rfl⟩, rfl⟩

end ContextDL
