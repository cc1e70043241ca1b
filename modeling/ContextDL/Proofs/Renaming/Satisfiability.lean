/-
Renaming keeps satisfiability: a model of the ontology before a renaming makes
one of the ontology after it, and the other way round.

Both models are pulled back, along maps that go in opposite directions.

- A copy that was made is an image of the original statements under the map
  that takes a name to its copy. So a model of the result, pulled back along
  this map for any one copy, satisfies what was copied; the rest mentions no
  renamed name and does not notice.
- A model of the original, pulled back along the map that takes every copy of
  a name to the name (`Ontology.original`), serves all copies at once. The map
  is well defined because copies tell their names, and it leaves the names of
  the original alone because no copy that was made uses any of them.

The second argument needs every statement that mentions a renamed name to be
copied, so no statement may be addressed by a concept.
-/
import ContextDL.Proofs.Renaming.Copies

namespace ContextDL

universe u

namespace Ontology

variable {o : Ontology} {names : List Iri} {separator : String}
  {copy copies : Nat}

/-- Some interpretation makes all logical axioms true. -/
def Satisfiable (o : Ontology) : Prop :=
  ∃ (α : Type u) (I : Interpretation α),
    ∀ a ∈ o.axioms, a.isLogical = true → a.Satisfied I

-- =============================================================== unused names

/-- A copy that can be made gives every renamed name of the ontology a name
that the ontology does not use. -/
theorem HasCopy.unused (possible : o.HasCopy names separator copy)
    (plain : ∀ s ∈ o.statements, s.definedBy = []) {n : Iri} (hn : n ∈ names)
    (used : o.signature.contains n = true) :
    o.signature.contains (n.numbered separator copy) = false := by
  obtain ⟨a, ha, hna⟩ := Signature.contains_unionAll.1 used
  obtain ⟨s, hs, rfl⟩ := List.mem_map.1 ha
  have copied := (isCopied_iff (plain s hs)).2 ⟨n, hn, hna⟩
  exact (possible s hs copied n hna hn).2

-- =================================================================== originals

/-- A name is the copy of another, in a copy that can be made. -/
def IsCopyOf (o : Ontology) (names : List Iri) (separator : String)
    (renamed name : Iri) : Prop :=
  name ∈ names ∧ o.signature.contains name = true ∧
    ∃ copy, o.HasCopy names separator copy ∧
      renamed = name.numbered separator copy

open Classical in
/-- The name that a name is a copy of, or the name itself. -/
noncomputable def original (o : Ontology) (names : List Iri)
    (separator : String) (renamed : Iri) : Iri :=
  if copied : ∃ name, o.IsCopyOf names separator renamed name then
    copied.choose
  else renamed

/-- The original of a copy is the name that was copied. -/
theorem original_numbered (plain : EndsPlain separator)
    (possible : o.HasCopy names separator copy) {n : Iri} (hn : n ∈ names)
    (used : o.signature.contains n = true) :
    o.original names separator (n.numbered separator copy) = n := by
  have copied : ∃ name,
      o.IsCopyOf names separator (n.numbered separator copy) name :=
    ⟨n, hn, used, copy, possible, rfl⟩
  unfold original
  rw [dif_pos copied]
  obtain ⟨-, -, i, -, same⟩ := copied.choose_spec
  exact (Iri.numbered_injective plain same).1.symm

/-- A name that the ontology uses is its own original. -/
theorem original_of_used (plain : ∀ s ∈ o.statements, s.definedBy = [])
    {n : Iri} (used : o.signature.contains n = true) :
    o.original names separator n = n := by
  unfold original
  refine dif_neg fun copied => ?_
  obtain ⟨name, hname, hused, i, possible, rfl⟩ := copied
  rw [possible.unused plain hname hused] at used
  cases used

/-- A reserved class is its own original. -/
theorem original_of_isReserved {n : Iri} (reserved : n.isReserved = true) :
    o.original names separator n = n := by
  unfold original
  refine dif_neg fun copied => ?_
  obtain ⟨name, -, -, i, -, rfl⟩ := copied
  rw [Iri.isReserved_numbered] at reserved
  cases reserved

/-- Copying a name of the ontology and going back to the original leads
nowhere else. -/
theorem original_target (ends : EndsPlain separator)
    (plain : ∀ s ∈ o.statements, s.definedBy = [])
    (possible : o.HasCopy names separator copy) {n : Iri}
    (used : o.signature.contains n = true) :
    o.original names separator
      ((o.copyPlan names separator copy).target n) = n := by
  unfold CopyPlan.target
  split
  case isTrue hn => exact original_numbered ends possible hn used
  case isFalse hn => exact original_of_used plain used

-- ================================================================== two models

/-- A model of the result is a model of the original, if every name is read
like its copy. -/
theorem satisfied_pull_target {α : Type u} {J : Interpretation α}
    (plain : ∀ s ∈ o.statements, s.definedBy = [])
    (merged : 0 < (o.rename names separator copies).tally.mergedCopies)
    (first : 1 ≤ copy) (last : copy ≤ copies)
    (possible : o.HasCopy names separator copy)
    (model : ∀ a ∈ (o.rename names separator copies).ontology.axioms,
      a.isLogical = true → a.Satisfied J) :
    ∀ a ∈ o.axioms, a.isLogical = true →
      a.Satisfied (J.pull (o.copyPlan names separator copy).target) := by
  intro a ha logical
  obtain ⟨s, hs, rfl⟩ := List.mem_map.1 ha
  cases copied : isCopied names s with
  | true =>
    rw [← Axiom.satisfied_mapNames]
    refine model _ ((mem_axioms_rename merged).2 (.inr ?_)) (by simpa)
    exact ⟨copy, first, last, possible, s, hs, copied, rfl⟩
  | false =>
    have kept := model s.body
      ((mem_axioms_rename merged).2 (.inl ⟨s, hs, copied, rfl⟩)) logical
    refine (Axiom.satisfied_pull fun n hn => ?_).2 kept
    -- what is not copied mentions no renamed name
    refine if_neg fun renamed => ?_
    have mentioned : isCopied names s = true :=
      (isCopied_iff (plain s hs)).2 ⟨n, renamed, hn⟩
    rw [copied] at mentioned
    cases mentioned

/-- A model of the original is a model of the result, if every copy is read
like its original. -/
theorem satisfied_pull_original {α : Type u} {I : Interpretation α}
    (ends : EndsPlain separator)
    (plain : ∀ s ∈ o.statements, s.definedBy = [])
    (merged : 0 < (o.rename names separator copies).tally.mergedCopies)
    (model : ∀ a ∈ o.axioms, a.isLogical = true → a.Satisfied I) :
    ∀ a ∈ (o.rename names separator copies).ontology.axioms,
      a.isLogical = true →
        a.Satisfied (I.pull (o.original names separator)) := by
  intro a ha logical
  rcases (mem_axioms_rename merged).1 ha with
    ⟨s, hs, -, rfl⟩ | ⟨copy, -, -, possible, s, hs, -, rfl⟩
  · refine (Axiom.satisfied_pull fun n hn => ?_).2
      (model _ (List.mem_map_of_mem hs) logical)
    exact original_of_used plain (contains_signature hs hn)
  · rw [Axiom.satisfied_mapNames,
      Interpretation.pull_pull fun n => original_of_isReserved]
    rw [Axiom.isLogical_mapNames] at logical
    refine (Axiom.satisfied_pull fun n hn => ?_).2
      (model _ (List.mem_map_of_mem hs) logical)
    exact original_target ends plain possible (contains_signature hs hn)

/-- A renaming that makes some copy keeps satisfiability, if no statement is
addressed and the separator ends in no digit. -/
theorem satisfiable_rename_iff
    (plain : ∀ s ∈ o.statements, s.definedBy = [])
    (ends : EndsPlain separator)
    (merged : 0 < (o.rename names separator copies).tally.mergedCopies) :
    Satisfiable.{u} (o.rename names separator copies).ontology ↔
      Satisfiable.{u} o := by
  constructor
  · intro h
    obtain ⟨α, J, model⟩ := h
    obtain ⟨copy, first, last, possible⟩ := exists_hasCopy merged
    exact ⟨α, _,
      satisfied_pull_target plain merged first last possible model⟩
  · intro h
    obtain ⟨α, I, model⟩ := h
    exact ⟨α, _, satisfied_pull_original ends plain merged model⟩

/-- A flexible role, an inclusion over it, and a rigid assertion. One of the
names that two copies of the role would have is used already. -/
def flexibleRole : Ontology :=
  .ofAxioms
    [.roleAssertion (.named ⟨"http://e/r"⟩) (.named ⟨"http://e/a"⟩)
        (.named ⟨"http://e/b"⟩),
      .subClassOf (.atom ⟨"http://e/C"⟩)
        (.restrict (.atMost 1) (.inverse ⟨"http://e/r"⟩) .top),
      .classAssertion (.atom ⟨"http://e/r_2"⟩) (.named ⟨"http://e/a"⟩)]

/-- Three copies of the role are asked for, and two of them made. -/
theorem satisfiable_rename_flexibleRole :
    (∀ s ∈ flexibleRole.statements, s.definedBy = []) ∧ EndsPlain "_" ∧
    0 < (flexibleRole.rename [⟨"http://e/r"⟩] "_" 3).tally.mergedCopies ∧
    (Satisfiable.{0} (flexibleRole.rename [⟨"http://e/r"⟩] "_" 3).ontology ↔
      Satisfiable.{0} flexibleRole) := by
  have plain : ∀ s ∈ flexibleRole.statements, s.definedBy = [] := by
    decide +kernel
  have ends : EndsPlain "_" := ⟨'_', by decide +kernel, by decide⟩
  have merged :
      0 < (flexibleRole.rename [⟨"http://e/r"⟩] "_" 3).tally.mergedCopies := by
    decide +kernel
  exact ⟨plain, ends, merged, satisfiable_rename_iff plain ends merged⟩

end Ontology

end ContextDL
