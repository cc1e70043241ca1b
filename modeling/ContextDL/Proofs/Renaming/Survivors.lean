/-
Which of the renamed names are left.

A renaming takes every statement away that mentions one of the names and is not
addressed. So a name can only come back with a copy, and it does if it is
itself the copy of a name (`Ontology.survivors_rename`). A copy is checked
against the names that the ontology had before, and never against the names
that are renamed; a name that the ontology did not mention is free to be given.

With the flexible names of a whole model this can happen in a branch that
mentions `X`, where another branch mentions `X_1`.
-/
import ContextDL.Proofs.Renaming.Disjointness
import ContextDL.Proofs.Renaming.Names

namespace ContextDL

namespace Ontology

variable {o : Ontology} {names : List Iri} {separator : String}
  {copy copies : Nat} {n : Iri}

-- ================================================================= given names

/-- What a possible copy gives was not mentioned before. -/
theorem Gives.unused (possible : o.isPossible names separator copy = true)
    (given : o.Gives names separator copy n) :
    o.signature.contains n = false := by
  obtain ⟨name, renamed, rfl⟩ := (gives_iff possible).1 given
  exact (renamed.admits possible renamed.1).2

/-- A renamed name in the image of a copied statement is given by the copy: the
other names of the image are none of those that are renamed. -/
theorem gives_of_mem_image {t : Statement} (ht : t ∈ o.copied names)
    (possible : o.isPossible names separator copy = true) (hn : n ∈ names)
    (mentioned : (t.mapNames
      (o.copyPlan names separator copy).target).signature.contains n = true) :
    o.Gives names separator copy n := by
  obtain ⟨k, source, rfl⟩ :=
    (isImage_target t).contains_iff.1 mentioned
  by_cases renamed : k ∈ names
  · refine (gives_iff possible).2 ⟨k, ⟨renamed, t, ht, source⟩, ?_⟩
    exact (target_of_mem renamed).symm
  · rw [target_of_notMem renamed] at hn
    exact absurd hn renamed

/-- What a copy gives is mentioned in the image of a copied statement. -/
theorem Gives.exists_image (possible : o.isPossible names separator copy = true)
    (given : o.Gives names separator copy n) :
    ∃ t ∈ o.copied names, (t.mapNames
      (o.copyPlan names separator copy).target).signature.contains n =
        true := by
  obtain ⟨name, ⟨renamed, t, ht, mentioned⟩, rfl⟩ :=
    (gives_iff possible).1 given
  refine ⟨t, ht, (isImage_target t).contains_iff.2 ?_⟩
  exact ⟨name, mentioned, target_of_mem renamed⟩

-- =================================================================== survivors

/-- After a renaming that reports a copy, the statements that mention one of
the names without being addressed mention it because a copy gives it. -/
theorem exists_mentions_rename_iff
    (merged : 0 < (o.rename names separator copies).tally.mergedCopies)
    (hn : n ∈ names) :
    (∃ s ∈ (o.rename names separator copies).ontology.statements,
      s.definedBy = [] ∧ s.signature.contains n = true) ↔
        ∃ copy ∈ o.possibleCopies names separator copies,
          o.Gives names separator copy n := by
  constructor
  · rintro ⟨s, hs, plain, mentioned⟩
    rcases (mem_statements_rename_iff merged).1 hs with
      ⟨-, kept⟩ | ⟨copy, possible, t, ht, rfl⟩
    · have copied := (isCopied_iff plain).2 ⟨n, hn, mentioned⟩
      rw [kept] at copied
      cases copied
    · exact ⟨copy, possible,
        gives_of_mem_image ht (mem_possibleCopies.1 possible).2 hn mentioned⟩
  · rintro ⟨copy, possible, given⟩
    obtain ⟨t, ht, mentioned⟩ :=
      given.exists_image (mem_possibleCopies.1 possible).2
    refine ⟨_, (mem_statements_rename_iff merged).2
      (.inr ⟨copy, possible, t, ht, rfl⟩), ?_, mentioned⟩
    show t.definedBy = []
    exact definedBy_of_isCopied (List.mem_filter.1 ht).2

/-- After a renaming that reports a copy, a name that the ontology mentioned
before is mentioned by addressed statements only. Any other name of those that
are renamed is mentioned by another statement exactly if a merged copy gives
it; so no name is left but in addressed statements exactly if no copy gives
one. -/
theorem survivors_rename
    (merged : 0 < (o.rename names separator copies).tally.mergedCopies) :
    let left := (o.rename names separator copies).ontology.statements
    let possible := o.possibleCopies names separator copies
    (∀ s ∈ left, ∀ n ∈ names, o.signature.contains n = true →
      s.signature.contains n = true → s.definedBy ≠ []) ∧
    (∀ n ∈ names,
      (∃ s ∈ left, s.definedBy = [] ∧ s.signature.contains n = true) ↔
        ∃ i ∈ possible, o.Gives names separator i n) ∧
    ((∀ s ∈ left, ∀ n ∈ names, s.signature.contains n = true →
      s.definedBy ≠ []) ↔
        ∀ n ∈ names, ∀ i ∈ possible, ¬ o.Gives names separator i n) := by
  intro left possible
  refine ⟨?_, fun n hn => exists_mentions_rename_iff merged hn, ?_, ?_⟩
  · intro s hs n hn used mentioned plain
    obtain ⟨copy, hcopy, given⟩ :=
      (exists_mentions_rename_iff merged hn).1 ⟨s, hs, plain, mentioned⟩
    have unused := given.unused (mem_possibleCopies.1 hcopy).2
    rw [used] at unused
    cases unused
  · intro addressed n hn i hi given
    obtain ⟨s, hs, plain, mentioned⟩ :=
      (exists_mentions_rename_iff merged hn).2 ⟨i, hi, given⟩
    exact addressed s hs n hn mentioned plain
  · intro apart s hs n hn mentioned plain
    obtain ⟨i, hi, given⟩ :=
      (exists_mentions_rename_iff merged hn).1 ⟨s, hs, plain, mentioned⟩
    exact apart n hn i hi given

/-- An inclusion and an addressed assertion of one class. -/
def oneClass : Ontology :=
  let x : Concept := .atom ⟨"e:X"⟩
  { iri := none
    statements :=
      [.plain (.subClassOf x (.atom ⟨"e:A"⟩)),
        ⟨.classAssertion x (.named ⟨"e:a"⟩), [.definedBy ⟨"e:N"⟩]⟩]
    notes := .empty }

/-- Two copies are made of the class and of a name that is its first copy.
The class is left in the addressed assertion only. -/
theorem survivors_rename_oneClass :
    let names : List Iri := [⟨"e:X"⟩, ⟨"e:X_1"⟩]
    let left := (oneClass.rename names "_" 2).ontology.statements
    0 < (oneClass.rename names "_" 2).tally.mergedCopies ∧
    (∀ s ∈ left, ∀ n ∈ names, oneClass.signature.contains n = true →
      s.signature.contains n = true → s.definedBy ≠ []) ∧
    ∃ i ∈ oneClass.possibleCopies names "_" 2,
      oneClass.Gives names "_" i ⟨"e:X_1"⟩ := by
  intro names left
  have merged : 0 < (oneClass.rename names "_" 2).tally.mergedCopies := by
    decide +kernel
  obtain ⟨used, given, -⟩ :=
    @survivors_rename oneClass names "_" 2 merged
  refine ⟨merged, used, (given ⟨"e:X_1"⟩ (by decide)).1 ?_⟩
  decide +kernel

/-- The first copy is left in an inclusion that is not addressed, although it
is one of the names. -/
theorem not_addressed_rename_oneClass :
    let names : List Iri := [⟨"e:X"⟩, ⟨"e:X_1"⟩]
    let r := oneClass.rename names "_" 2
    0 < r.tally.mergedCopies ∧
      ¬ ∀ s ∈ r.ontology.statements, ∀ n ∈ names,
        s.signature.contains n = true → s.definedBy ≠ [] := by
  decide +kernel

end Ontology

end ContextDL
