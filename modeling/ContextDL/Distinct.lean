/-
Lists without repetition.

`List.eraseDups` keeps the first occurrence of every member, in order. It
leaves no repetition (`nodup_eraseDups`), changes nothing where there is none
(`eraseDups_of_nodup`), and may come before or after other members are left out
(`filter_eraseDups`). So the parts of a list may have lost their repetitions
before they are put together (`eraseDups_append_eraseDups`).

Where all pairs of a list with one key have one value, every pair is found under
its key (`lookup_eq_some_iff_of_unique`), so it is where no key is repeated
(`lookup_eq_some_iff_mem`).
-/

namespace ContextDL

variable {α : Type} [BEq α] [LawfulBEq α]

/-- Leaving out repetitions leaves none. -/
theorem nodup_eraseDups (xs : List α) : xs.eraseDups.Nodup := by
  match xs with
  | [] => simp
  | x :: xs =>
    rw [List.eraseDups_cons, List.nodup_cons]
    exact ⟨by simp [List.mem_eraseDups], nodup_eraseDups _⟩
termination_by xs.length
decreasing_by exact Nat.lt_succ_of_le (List.length_filter_le _ _)

/-- Where nothing is repeated nothing is left out. -/
theorem eraseDups_of_nodup {xs : List α} (distinct : xs.Nodup) :
    xs.eraseDups = xs := by
  induction xs with
  | nil => rfl
  | cons x xs ih =>
    obtain ⟨new, rest⟩ := List.nodup_cons.1 distinct
    have others : xs.filter (fun b => !b == x) = xs := by
      rw [List.filter_eq_self]
      intro b hb
      have apart : b ≠ x := fun same => new (same ▸ hb)
      simpa using apart
    rw [List.eraseDups_cons, others, ih rest]

/-- Members may be left out before the repetitions are, or after them. -/
theorem filter_eraseDups (p : α → Bool) (xs : List α) :
    xs.eraseDups.filter p = (xs.filter p).eraseDups := by
  match xs with
  | [] => rfl
  | x :: xs =>
    have others := filter_eraseDups p (xs.filter fun b => !b == x)
    rw [List.filter_filter] at others
    rw [List.eraseDups_cons]
    by_cases h : p x = true
    · rw [List.filter_cons_of_pos h, List.filter_cons_of_pos h, others,
        List.eraseDups_cons, List.filter_filter]
      simp only [Bool.and_comm]
    · rw [List.filter_cons_of_neg h, List.filter_cons_of_neg h, others]
      -- what passes the test is not `x`, which does not
      congr 1
      refine List.filter_congr fun b _ => ?_
      by_cases same : b = x
      · simp [same, h]
      · simp [same]
termination_by xs.length
decreasing_by exact Nat.lt_succ_of_le (List.length_filter_le _ _)

/-- Repetitions that are left out of two lists need not be looked for again
when the lists are put together. -/
theorem eraseDups_append_eraseDups (xs ys : List α) :
    (xs.eraseDups ++ ys.eraseDups).eraseDups = (xs ++ ys).eraseDups := by
  have known : ys.eraseDups.removeAll xs.eraseDups =
      (ys.removeAll xs).eraseDups := by
    unfold List.removeAll
    rw [← filter_eraseDups]
    refine List.filter_congr fun y _ => ?_
    rw [Bool.eq_iff_iff]
    simp [List.mem_eraseDups]
  rw [List.eraseDups_append, List.eraseDups_append, known,
    eraseDups_of_nodup (nodup_eraseDups xs),
    eraseDups_of_nodup (nodup_eraseDups _)]

-- ===================================================================== lookups

variable {β : Type} {entries : List (α × β)} {name : α} {a : β}

/-- What a lookup finds is an entry. -/
theorem mem_of_lookup_eq_some (found : entries.lookup name = some a) :
    (name, a) ∈ entries := by
  obtain ⟨front, back, rfl, -⟩ := List.lookup_eq_some_iff.1 found
  exact List.mem_append_right front List.mem_cons_self

/-- Where all entries of a key have one value, a lookup finds it. -/
theorem lookup_eq_some_iff_of_unique
    (unique : ∀ b c, (name, b) ∈ entries → (name, c) ∈ entries → b = c) :
    entries.lookup name = some a ↔ (name, a) ∈ entries := by
  constructor
  · exact mem_of_lookup_eq_some
  · intro entry
    cases found : entries.lookup name with
    | none =>
      have absent := List.lookup_eq_none_iff.1 found _ entry
      simp at absent
    | some b => rw [unique b a (mem_of_lookup_eq_some found) entry]

/-- Where no key comes twice, a lookup finds the entry of its key. -/
theorem lookup_eq_some_iff_mem (nodup : (entries.map Prod.fst).Nodup) :
    entries.lookup name = some a ↔ (name, a) ∈ entries := by
  induction entries with
  | nil => simp
  | cons entry entries ih =>
    obtain ⟨key, b⟩ := entry
    rw [List.map_cons, List.nodup_cons] at nodup
    rw [List.lookup_cons, List.mem_cons, Prod.mk.injEq]
    by_cases same : name = key
    · subst same
      have absent : (name, a) ∉ entries := fun ha =>
        nodup.1 (List.mem_map.2 ⟨_, ha, rfl⟩)
      simp [absent, eq_comm]
    · rw [beq_false_of_ne same]
      simp [same, ih nodup.2]

end ContextDL
