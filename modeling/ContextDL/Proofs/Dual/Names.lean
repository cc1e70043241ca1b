/-
Names under dual marks.

A name is told by two things: the name without its marks, and how many marks
there are (`Iri.iterate_dual_undual`). The marks all stand in front of the local
name, so neither of the two depends on how the IRI was cut. What a set without
marked names addresses is then a member with any number of marks
(`isAddressed_iff_isMarkedMember`). The rewriting finds the member by taking the
marks off and asking whether the rest is an IRI; for a member it is.
-/
import ContextDL.Proofs.Meaning.Dualizing
import Mathlib.Logic.Function.Iterate

namespace ContextDL

namespace Iri

/-- A dual name is the dual of a name. -/
theorem exists_dual_eq {name : Iri} (h : name.isDual = true) :
    ∃ base : Iri, base.dual = name := by
  obtain ⟨rest, marked⟩ := List.isPrefixOf_iff_prefix.1 h
  have parts : split (name.space ++ rest) = (name.space, rest) := by
    refine split_eq (isSpace_split _) fun c hc => ?_
    have within : c ∈ name.localName := by
      rw [← marked]
      exact List.mem_append_right _ hc
    exact isBreak_eq_false_of_mem_split within
  refine ⟨⟨String.ofList (name.space ++ rest)⟩, chars_injective ?_⟩
  rw [dual, space, localName, chars, chars, String.toList_ofList,
    String.toList_ofList, parts, List.append_assoc, marked]
  exact space_append_localName name

/-- A name without a mark has nothing to take off. -/
theorem undual_eq_self {name : Iri} (h : name.isDual = false) :
    name.undual = name ∧ name.marks = 0 := by
  rw [isDual] at h
  have unmarked (rest : List Char) :
      name.localName ≠ 'D' :: 'U' :: 'A' :: 'L' :: '.' :: rest := by
    intro same
    simp [same, dualMark] at h
  have stripped : stripDual name.localName = name.localName := by
    rw [stripDual.eq_def]
    split
    · next rest same => exact absurd same (unmarked rest)
    · rfl
  have uncounted : countMarks name.localName = 0 := by
    rw [countMarks.eq_def]
    split
    · next rest same => exact absurd same (unmarked rest)
    · rfl
  refine ⟨chars_injective ?_, uncounted⟩
  rw [undual, stripped, chars, String.toList_ofList, space_append_localName]

/-- The names without marks are those that are no dual names. -/
theorem marks_eq_zero_iff {name : Iri} :
    name.marks = 0 ↔ name.isDual = false := by
  cases h : name.isDual with
  | false => exact iff_of_true (undual_eq_self h).2 rfl
  | true =>
    obtain ⟨base, rfl⟩ := exists_dual_eq h
    rw [marks_dual]
    exact iff_of_false (Nat.succ_ne_zero _) Bool.noConfusion

@[simp]
theorem undual_iterate_dual (name : Iri) (k : Nat) :
    (dual^[k] name).undual = name.undual := by
  induction k generalizing name with
  | zero => rfl
  | succ k ih => rw [Function.iterate_succ_apply, ih, undual_dual]

@[simp]
theorem marks_iterate_dual (name : Iri) (k : Nat) :
    (dual^[k] name).marks = name.marks + k := by
  induction k generalizing name with
  | zero => rfl
  | succ k ih =>
    rw [Function.iterate_succ_apply, ih, marks_dual, Nat.add_right_comm,
      Nat.add_assoc]

/-- The marks of a name, put in front of the name without them, make up the
name. -/
theorem iterate_dual_undual (name : Iri) :
    dual^[name.marks] name.undual = name := by
  induction marked : name.marks generalizing name with
  | zero => exact (undual_eq_self (marks_eq_zero_iff.1 marked)).1
  | succ k ih =>
    cases h : name.isDual with
    | false =>
      rw [(undual_eq_self h).2] at marked
      cases marked
    | true =>
      obtain ⟨base, rfl⟩ := exists_dual_eq h
      rw [marks_dual, Nat.add_right_cancel_iff] at marked
      rw [undual_dual, Function.iterate_succ_apply', ih base marked]

end Iri

-- ============================================================= marked members

/-- A member of a set with some marks in front of it, or none. -/
def IsMarkedMember (addressed : List Iri) (name : Iri) : Prop :=
  ∃ base ∈ addressed, ∃ k, Iri.dual^[k] base = name

variable {addressed : List Iri} {name : Iri}

theorem isMarkedMember_of_mem (h : name ∈ addressed) :
    IsMarkedMember addressed name :=
  ⟨name, h, 0, rfl⟩

/-- Marks do not lead out of the marked members. -/
theorem IsMarkedMember.iterate_dual (h : IsMarkedMember addressed name)
    (k : Nat) : IsMarkedMember addressed (Iri.dual^[k] name) := by
  obtain ⟨base, member, j, rfl⟩ := h
  exact ⟨base, member, k + j, Function.iterate_add_apply ..⟩

/-- No more marks were put in front than there are. -/
instance : Decidable (IsMarkedMember addressed name) :=
  decidable_of_iff
    (∃ base ∈ addressed, ∃ k ∈ List.range (name.marks + 1),
      Iri.dual^[k] base = name)
    ⟨fun ⟨base, member, k, _, made⟩ => ⟨base, member, k, made⟩,
      fun ⟨base, member, k, made⟩ => ⟨base, member, k, by
        rw [List.mem_range, ← made, Iri.marks_iterate_dual]
        omega, made⟩⟩

/-- A set of valid names without marks, as naming concepts are. -/
def IsUnmarked (addressed : List Iri) : Prop :=
  ∀ name ∈ addressed, name.IsValid ∧ name.isDual = false

/-- An unmarked set addresses its marked members. -/
theorem isAddressed_iff_isMarkedMember (plain : IsUnmarked addressed) :
    isAddressed addressed name = true ↔ IsMarkedMember addressed name := by
  rw [isAddressed_iff]
  constructor
  · rintro (member | ⟨-, -, member⟩)
    · exact isMarkedMember_of_mem member
    · exact ⟨name.undual, member, name.marks, name.iterate_dual_undual⟩
  · rintro ⟨base, member, k, rfl⟩
    obtain ⟨valid, unmarked⟩ := plain base member
    cases k with
    | zero => exact .inl member
    | succ k =>
      right
      rw [Function.iterate_succ_apply', Iri.undual_dual,
        Iri.undual_iterate_dual, (Iri.undual_eq_self unmarked).1]
      exact ⟨Iri.isDual_dual _, valid, member⟩

end ContextDL
