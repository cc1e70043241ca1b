/-
What a renaming does, exactly.

A renaming is told by two lists: the statements that it copies
(`Ontology.copied`), and the numbers of the copies that can be made of every
one of them (`Ontology.possibleCopies`). One statement that cannot be copied
is enough to lose a copy, and nothing is left of it then but a warning.

# From runs to lists

`Merging` tells a run by its results. A result is a copy exactly at the
possible numbers (`toOption_copyOf`), and the copy is then the image of the
copied statements, whatever the other copies are (`copiesMade_eq_map`). So
every possible copy adds as many statements as are taken away in the end, and
the counts of a renaming are products.

# What is not changed

The name of the ontology and the notes on entities stay, in every case. The
notes on a statement stay with its copies (`Statement.mapNames`).
-/
import ContextDL.Proofs.Renaming.Copies

namespace ContextDL

variable {o : Ontology} {names : List Iri} {separator : String}
  {copy copies : Nat}

namespace Ontology

-- ============================================================= possible copies

/-- The statements that a renaming copies, in order. -/
def copied (o : Ontology) (names : List Iri) : List Statement :=
  o.statements.filter (isCopied names)

/-- Every statement that is copied can be copied with this number. -/
def isPossible (o : Ontology) (names : List Iri) (separator : String)
    (copy : Nat) : Bool :=
  (o.copied names).all fun s =>
    ((o.copyPlan names separator copy).statement s).isOk

/-- The numbers of the copies that can be made, in increasing order. -/
def possibleCopies (o : Ontology) (names : List Iri) (separator : String)
    (copies : Nat) : List Nat :=
  (List.range' 1 copies).filter (o.isPossible names separator)

/-- The copied statements under the names of one copy. -/
def copyImage (o : Ontology) (names : List Iri) (separator : String)
    (copy : Nat) : List Statement :=
  (o.copied names).map
    (Statement.mapNames (o.copyPlan names separator copy).target)

@[simp]
theorem length_copyImage :
    (o.copyImage names separator copy).length = (o.copied names).length :=
  List.length_map _

/-- The numbers run from one. -/
theorem mem_possibleCopies :
    copy ∈ o.possibleCopies names separator copies ↔
      (1 ≤ copy ∧ copy ≤ copies) ∧
        o.isPossible names separator copy = true := by
  unfold possibleCopies
  rw [List.mem_filter, List.mem_range'_1]
  exact and_congr_left fun _ => by omega

/-- What is possible for every statement is possible for the ontology. -/
theorem isPossible_iff :
    o.isPossible names separator copy = true ↔
      o.HasCopy names separator copy := by
  have succeeds (s : Statement) :
      ((o.copyPlan names separator copy).statement s).isOk = true ↔
        (o.copyPlan names separator copy).Fits s.signature := by
    constructor
    · intro h
      cases run : (o.copyPlan names separator copy).statement s with
      | error reason =>
        rw [run] at h
        cases h
      | ok t => exact (CopyPlan.statement_eq_ok.1 run).1
    · intro fits
      rw [CopyPlan.statement_eq_ok.2 ⟨fits, rfl⟩]
      rfl
  unfold isPossible HasCopy
  rw [List.all_eq_true]
  simp only [succeeds, copied, List.mem_filter, and_imp]

/-- A possible copy takes every copied statement to its image. -/
theorem statement_eq_ok_of_isPossible
    (possible : o.isPossible names separator copy = true) {s : Statement}
    (hs : s ∈ o.copied names) :
    (o.copyPlan names separator copy).statement s =
      .ok (s.mapNames (o.copyPlan names separator copy).target) := by
  obtain ⟨stated, isCopied⟩ := List.mem_filter.1 hs
  exact CopyPlan.statement_eq_ok.2
    ⟨isPossible_iff.1 possible s stated isCopied, rfl⟩

-- ============================================================= what copies add

/-- A result is a copy exactly where one is possible. -/
theorem toOption_copyOf (copy : Nat) :
    (o.copyOf names separator copy).toOption =
      if o.isPossible names separator copy then
        some (o.copyImage names separator copy)
      else none := by
  cases run : o.copyOf names separator copy with
  | ok ss =>
    obtain ⟨possible, rfl⟩ := copyOf_eq_ok.1 run
    rw [if_pos (isPossible_iff.2 possible)]
    rfl
  | error reason =>
    rw [if_neg]
    · rfl
    · intro possible
      have := copyOf_eq_ok.2 ⟨isPossible_iff.1 possible, rfl⟩
      rw [run] at this
      cases this

/-- Made are the images for the possible numbers. -/
theorem copiesMade_eq_map :
    o.copiesMade names separator copies =
      (o.possibleCopies names separator copies).map
        (o.copyImage names separator) := by
  unfold copiesMade possibleCopies
  simp only [toOption_copyOf]
  rw [← List.filterMap_eq_map, List.filterMap_filter]
  rfl

/-- Every copy adds as many statements as are copied. -/
theorem length_flatten_copiesMade :
    (o.copiesMade names separator copies).flatten.length =
      (o.possibleCopies names separator copies).length *
        (o.copied names).length := by
  rw [copiesMade_eq_map]
  simp [List.length_flatten, Function.comp_def]

/-- What is not copied stays, and what is copied goes. -/
theorem length_filter_not_isCopied :
    (o.statements.filter (!isCopied names ·)).length =
      o.statements.length - (o.copied names).length := by
  have parts := List.length_eq_length_filter_add (l := o.statements)
    (isCopied names)
  unfold copied
  omega

-- ====================================================================== effect

/-- What a renaming does where something is asked of it: the images of the
possible copies take the place of what is copied, if there are any. -/
theorem rename_eq (asked : copies ≠ 0) (named : names ≠ []) :
    let possible := o.possibleCopies names separator copies
    let removed := if possible = [] then 0 else (o.copied names).length
    (o.rename names separator copies).ontology =
        (if possible = [] then o
        else o.withCopies names (possible.map (o.copyImage names separator))) ∧
      (o.rename names separator copies).tally =
        ⟨possible.length, copies - possible.length, removed,
          possible.length * (o.copied names).length,
          o.statements.countP (isSpared names)⟩ := by
  intro possible removed
  have made : Renaming.made (o.copyResults names separator copies) =
      possible.map (o.copyImage names separator) :=
    made_copyResults.trans copiesMade_eq_map
  have added : (possible.map (o.copyImage names separator)).flatten.length =
      possible.length * (o.copied names).length := by
    rw [← copiesMade_eq_map, length_flatten_copiesMade]
  have skipped :
      (Renaming.skips (o.copyResults names separator copies)).length =
        copies - possible.length := by
    have parts := Renaming.length_made_add_length_skips
      (o.copyResults names separator copies)
    rw [made, List.length_map, copyResults, List.length_map,
      List.length_range'] at parts
    exact Nat.eq_sub_of_add_eq' parts
  by_cases failed : possible = []
  · obtain ⟨ontology, tally⟩ := rename_of_made_eq_nil asked named
      (made.trans (by rw [failed]; rfl))
    rw [ontology, tally, skipped]
    simp [removed, failed]
  · have someMade : Renaming.made (o.copyResults names separator copies) ≠
        [] := by
      rw [made]
      simpa using failed
    obtain ⟨ontology, tally⟩ := rename_of_made asked named someMade
    rw [ontology, tally, skipped, made, added, List.length_map]
    simp [removed, failed, copied]

/-- The statements after a renaming, told by the possible copies and what is
copied. -/
theorem mem_statements_rename_iff {s : Statement}
    (merged : 0 < (o.rename names separator copies).tally.mergedCopies) :
    s ∈ (o.rename names separator copies).ontology.statements ↔
      (s ∈ o.statements ∧ isCopied names s = false) ∨
        ∃ copy ∈ o.possibleCopies names separator copies,
          ∃ t ∈ o.copied names,
            t.mapNames (o.copyPlan names separator copy).target = s := by
  simp only [mem_statements_rename merged, mem_possibleCopies, isPossible_iff,
    copied, List.mem_filter, and_assoc]

end Ontology

/-- The possible copies have taken the place of what they copy, and the tally
says so. -/
structure Renaming.Replaces (r : Renaming) (o : Ontology) (names : List Iri)
    (separator : String) (copies : Nat) : Prop where
  iri : r.ontology.iri = o.iri
  notes : r.ontology.notes = o.notes
  unchanged : o.possibleCopies names separator copies = [] → r.ontology = o
  replaced : o.possibleCopies names separator copies ≠ [] →
    r.ontology.statements =
      o.statements.filter (!Ontology.isCopied names ·) ++
        (o.possibleCopies names separator copies).flatMap
          (o.copyImage names separator)
  merged : r.tally.mergedCopies =
    (o.possibleCopies names separator copies).length
  skipped : r.tally.mergedCopies + r.tally.skippedCopies = copies
  removed : r.tally.removedAxioms =
    if 0 < r.tally.mergedCopies then (o.copied names).length else 0
  added : r.tally.addedAxioms =
    r.tally.mergedCopies * (o.copied names).length
  addressed : r.tally.addressedAxioms =
    o.statements.countP (Ontology.isSpared names)
  enough : r.tally.removedAxioms ≤ o.statements.length
  left : r.ontology.statements.length =
    o.statements.length - r.tally.removedAxioms + r.tally.addedAxioms

namespace Ontology

/-- Where a copy and a name are asked for, a renaming replaces. -/
theorem replaces_rename (asked : copies ≠ 0) (named : names ≠ []) :
    (o.rename names separator copies).Replaces o names separator copies := by
  obtain ⟨ontology, tally⟩ := @rename_eq o names separator copies asked named
  have fewer : (o.possibleCopies names separator copies).length ≤ copies := by
    refine Nat.le_trans (List.length_filter_le _ _) (Nat.le_of_eq ?_)
    exact List.length_range'
  have part : (o.copied names).length ≤ o.statements.length :=
    List.length_filter_le _ _
  exact
    { iri := by
        rw [ontology]
        split <;> rfl
      notes := by
        rw [ontology]
        split <;> rfl
      unchanged := fun failed => by rw [ontology, if_pos failed]
      replaced := fun made => by
        rw [ontology, if_neg made]
        rfl
      merged := by rw [tally]
      skipped := by
        rw [tally]
        exact Nat.add_sub_of_le fewer
      removed := by
        rw [tally]
        by_cases failed : o.possibleCopies names separator copies = [] <;>
          simp [failed, List.length_pos_iff]
      added := by rw [tally]
      addressed := by rw [tally]
      enough := by
        rw [tally]
        dsimp only
        split
        · exact Nat.zero_le _
        · exact part
      left := by
        rw [ontology, tally]
        dsimp only
        by_cases failed : o.possibleCopies names separator copies = []
        · simp [failed]
        · rw [if_neg failed, if_neg failed, withCopies, List.length_append,
            length_filter_not_isCopied, ← copiesMade_eq_map,
            length_flatten_copiesMade] }

/-- The exact effect of a renaming. Without copies or names nothing is done.
Else the copies that succeed for every copied statement take its place, each
with the statements that it makes and their notes, and the counts are right. -/
theorem rename_effect (o : Ontology) (names : List Iri) (separator : String)
    (copies : Nat) :
    (copies = 0 ∨ names = [] →
      (o.rename names separator copies).ontology = o ∧
        (o.rename names separator copies).tally = ⟨0, 0, 0, 0, 0⟩) ∧
    (1 ≤ copies → names ≠ [] →
      (o.rename names separator copies).Replaces o names separator copies ∧
        ∀ i ∈ o.possibleCopies names separator copies,
          ∀ s ∈ o.copied names,
            let renamed := s.mapNames (o.copyPlan names separator i).target
            (o.copyPlan names separator i).statement s = .ok renamed ∧
              renamed.notes = s.notes) := by
  refine ⟨fun nothing => ?_, fun asked named => ⟨?_, ?_⟩⟩
  · rw [rename_of_nothing nothing]
    exact ⟨rfl, rfl⟩
  · exact replaces_rename (Nat.one_le_iff_ne_zero.1 asked) named
  · intro i possible s hs
    exact ⟨statement_eq_ok_of_isPossible (mem_possibleCopies.1 possible).2 hs,
      rfl⟩

/-- A flexible role with an inclusion over it that is stated twice, with the
notes of a global statement, a statement that a concept addresses, and a rigid
assertion, whose class has the name of a copy of the role. -/
def sharedRole : Ontology :=
  let r : Iri := ⟨"http://e/r"⟩
  let inclusion := .subClassOf (.atom ⟨"http://e/C"⟩)
    (.restrict .universal (.named r) (.atom ⟨"http://e/D"⟩))
  { iri := some ⟨"http://e/"⟩
    statements :=
      [⟨inclusion, [.objectGlobal]⟩,
        ⟨.transitive r, [.definedBy ⟨"http://e/N"⟩]⟩,
        .plain (.classAssertion (.atom ⟨"http://e/r2"⟩)
          (.named ⟨"http://e/a"⟩)),
        ⟨inclusion, [.objectGlobal]⟩]
    notes := .empty }

/-- The second of three copies fails. Each of the others takes the place of
both inclusions. -/
theorem rename_effect_sharedRole :
    1 ≤ 3 ∧ [(⟨"http://e/r"⟩ : Iri)] ≠ [] ∧
    (sharedRole.rename [⟨"http://e/r"⟩] "" 3).Replaces sharedRole
      [⟨"http://e/r"⟩] "" 3 ∧
    sharedRole.possibleCopies [⟨"http://e/r"⟩] "" 3 = [1, 3] ∧
    (sharedRole.rename [⟨"http://e/r"⟩] "" 3).tally = ⟨2, 1, 2, 4, 1⟩ := by
  have asked : 1 ≤ 3 := by decide
  have named : [(⟨"http://e/r"⟩ : Iri)] ≠ [] := by decide
  exact ⟨asked, named,
    ((rename_effect sharedRole [⟨"http://e/r"⟩] "" 3).2 asked named).1,
    by decide +kernel, by decide +kernel⟩

end Ontology

end ContextDL
