/-
Merging the copies of a renaming.

One step of a run merges a copy or skips one (`Renaming.merge`). A whole run is
told by the results that it goes through (`Renaming.foldl_merge`): the copies
among them stand behind the statements in their order, and the failures have
left nothing but their number and their warnings. So a copy that fails halfway
leaves no trace of what it had made.

The marks that are looked at in the end were set before the run. They are as
many as there were statements, and a run only adds statements behind them; so
a mark still stands at the statement that it was set for, and no copy is taken
away (`Ontology.dropMarked_extend`). Two equal statements have a mark each.

`Ontology.rename_of_made` and `Ontology.rename_of_made_eq_nil` put the two
together: what a renaming is where some copy was made, and where none was.
-/
import ContextDL.Renaming
import Mathlib.Data.List.Basic

namespace ContextDL

namespace Renaming

-- ========================================================================= run

/-- The copies among some results. -/
def made (results : List (Except Failure (List Statement))) :
    List (List Statement) :=
  results.filterMap Except.toOption

/-- The warnings of the failures among some results. -/
def skips (results : List (Except Failure (List Statement))) : List Warning :=
  results.filterMap fun
    | .ok _ => none
    | .error reason => some (.skipped reason)

variable {results : List (Except Failure (List Statement))}

@[simp]
theorem made_ok (copy : List Statement) :
    made (.ok copy :: results) = copy :: made results := rfl

@[simp]
theorem made_error (reason : Failure) :
    made (.error reason :: results) = made results := rfl

@[simp]
theorem skips_ok (copy : List Statement) :
    skips (.ok copy :: results) = skips results := rfl

@[simp]
theorem skips_error (reason : Failure) :
    skips (.error reason :: results) = .skipped reason :: skips results := rfl

/-- Every result is a copy or a failure. -/
theorem length_made_add_length_skips
    (results : List (Except Failure (List Statement))) :
    (made results).length + (skips results).length = results.length := by
  induction results with
  | nil => rfl
  | cons result results ih =>
    cases result with
    | ok copy =>
      rw [made_ok, skips_ok, List.length_cons, List.length_cons]
      omega
    | error reason =>
      rw [made_error, skips_error, List.length_cons, List.length_cons]
      omega

/-- A run adds the copies that were made, in order, and counts them, and it
counts and reports the others. -/
theorem foldl_merge (results : List (Except Failure (List Statement)))
    (r : Renaming) :
    results.foldl merge r =
      { ontology := r.ontology.extend (made results).flatten
        tally :=
          { r.tally with
            mergedCopies := r.tally.mergedCopies + (made results).length
            skippedCopies := r.tally.skippedCopies + (skips results).length
            addedAxioms :=
              r.tally.addedAxioms + (made results).flatten.length }
        warnings := r.warnings ++ skips results } := by
  induction results generalizing r with
  | nil => simp [made, skips, Ontology.extend]
  | cons result results ih =>
    rw [List.foldl_cons, ih]
    cases result with
    | ok copy =>
      simp [merge, Ontology.extend, Nat.add_assoc, Nat.add_comm 1]
    | error reason => simp [merge, Nat.add_assoc, Nat.add_comm 1]

end Renaming

namespace Ontology

-- ======================================================================= marks

/-- Where every statement has its own mark and more statements stand behind
the last mark, those that are not marked are left, and the ones behind. -/
theorem dropMarked_extend (o : Ontology) (marked : Statement → Bool)
    (behind : List Statement) :
    (o.extend behind).dropMarked (o.statements.map marked) =
      { o with statements := o.statements.filter (!marked ·) ++ behind } := by
  have front : ∀ p ∈ o.statements.zipIdx,
      (!(o.statements.map marked).getD p.2 false) = !marked p.1 := by
    intro p hp
    have place : o.statements[p.2]? = some p.1 :=
      List.mem_zipIdx_iff_getElem?.1 hp
    rw [List.getD_eq_getElem?_getD, List.getElem?_map, place]
    rfl
  have back : ∀ p ∈ behind.zipIdx o.statements.length,
      (!(o.statements.map marked).getD p.2 false) = true := by
    intro p hp
    have place : (o.statements.map marked).length ≤ p.2 := by
      rw [List.length_map]
      exact List.le_snd_of_mem_zipIdx hp
    rw [List.getD_eq_getElem?_getD, List.getElem?_eq_none place]
    rfl
  have unmarked : (o.statements.zipIdx.filter fun p => !marked p.1).map (·.1) =
      o.statements.filter (!marked ·) :=
    calc
      _ = (o.statements.zipIdx.map (·.1)).filter (!marked ·) :=
        List.filter_map.symm
      _ = _ := by rw [List.zipIdx_map_fst]
  unfold dropMarked extend
  dsimp only
  rw [List.zipIdx_append, Nat.zero_add, List.filter_append, List.map_append,
    List.filter_congr front, unmarked, List.filter_eq_self.2 back,
    List.zipIdx_map_fst]

-- ====================================================================== result

variable {o : Ontology} {names : List Iri} {separator : String} {copies : Nat}

/-- What comes of each copy that a renaming tries to make. -/
def copyResults (o : Ontology) (names : List Iri) (separator : String)
    (copies : Nat) : List (Except Renaming.Failure (List Statement)) :=
  (List.range' 1 copies).map (o.copyOf names separator)

/-- The ontology in which copies have taken the place of what they copy. -/
def withCopies (o : Ontology) (names : List Iri)
    (copies : List (List Statement)) : Ontology :=
  { o with
    statements := o.statements.filter (!isCopied names ·) ++ copies.flatten }

/-- Without copies or names nothing is done. -/
theorem rename_of_nothing (h : copies = 0 ∨ names = []) :
    o.rename names separator copies = .start o 0 := by
  unfold rename
  rw [if_pos (by simpa using h)]

/-- A renaming merges all copies and then looks at the marks. -/
theorem rename_eq_finish (asked : copies ≠ 0) (named : names ≠ []) :
    let results := o.copyResults names separator copies
    let spared := o.statements.countP (isSpared names)
    o.rename names separator copies =
      Renaming.finish
        { ontology := o.extend (Renaming.made results).flatten
          tally :=
            { mergedCopies := (Renaming.made results).length
              skippedCopies := (Renaming.skips results).length
              removedAxioms := 0
              addedAxioms := (Renaming.made results).flatten.length
              addressedAxioms := spared }
          warnings :=
            (Renaming.start o spared).warnings ++ Renaming.skips results }
        (o.statements.map (isCopied names)) := by
  intro results spared
  unfold rename
  rw [if_neg (by simp [asked, named])]
  dsimp only
  rw [Renaming.foldl_merge]
  simp only [Renaming.start, Nat.zero_add]
  rfl

/-- Where no copy was made, the ontology is as it was. -/
theorem rename_of_made_eq_nil (asked : copies ≠ 0) (named : names ≠ [])
    (failed : Renaming.made (o.copyResults names separator copies) = []) :
    (o.rename names separator copies).ontology = o ∧
      (o.rename names separator copies).tally =
        ⟨0, (Renaming.skips (o.copyResults names separator copies)).length, 0,
          0, o.statements.countP (isSpared names)⟩ := by
  rw [rename_eq_finish asked named, failed]
  unfold Renaming.finish
  rw [if_pos (by rfl)]
  exact ⟨by simp [extend], rfl⟩

/-- Where a copy was made, the copies take the place of what was copied. -/
theorem rename_of_made (asked : copies ≠ 0) (named : names ≠ [])
    (made : Renaming.made (o.copyResults names separator copies) ≠ []) :
    let results := o.copyResults names separator copies
    (o.rename names separator copies).ontology =
        o.withCopies names (Renaming.made results) ∧
      (o.rename names separator copies).tally =
        ⟨(Renaming.made results).length, (Renaming.skips results).length,
          (o.statements.filter (isCopied names)).length,
          (Renaming.made results).flatten.length,
          o.statements.countP (isSpared names)⟩ := by
  intro results
  have parts := List.length_eq_length_filter_add (l := o.statements)
    (isCopied names)
  rw [rename_eq_finish asked named]
  unfold Renaming.finish
  rw [if_neg (by simpa using made)]
  dsimp only
  rw [dropMarked_extend]
  refine ⟨rfl, ?_⟩
  rw [Renaming.Tally.mk.injEq]
  refine ⟨rfl, rfl, ?_, rfl, rfl⟩
  simp only [extend, List.length_append]
  omega

end Ontology

end ContextDL
