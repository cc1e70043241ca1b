/-
Both polarities of one naming concept.

A branch asks for the axioms that are kept under its positive concepts and
under the dual names of its negative ones (`ContextBase.AsksFor`). Its type is
built so that no concept is positive and negative, but a positive concept may
be a dual name itself, and the lists of a type know nothing of dual names.

So there is one way to ask for an axiom and for its negation, to have a naming
concept and its dual name both positive (`ContextBase.asksForBoth_iff`), and it
is open for every naming concept of every model. The object ontology of such a
branch is made all the same, and nothing satisfies it
(`ContextBase.not_models_of_asksForBoth`). A branch of naming concepts alone
never asks for both.
-/
import ContextDL.Proofs.Context.Selection
import ContextDL.Proofs.Meaning.Negation

namespace ContextDL.ContextBase

universe u

variable {m : ContextBase} {supply left : Supply} {o : Ontology} {b : Branch}
  {ss : List Statement} {n : Iri}

-- ============================================================= both polarities

/-- A branch asks for the axiom of a concept and for its negation. -/
def AsksForBoth (m : ContextBase) (b : Branch) (n : Iri) : Prop :=
  m.AsksFor b n ∧ m.AsksFor b n.dual

/-- An axiom and its negation are asked for exactly if the concept and its dual
name are both positive. -/
theorem asksForBoth_iff (split : IsSplit supply ss m left)
    (naming : n ∈ m.namingConcepts) :
    m.AsksForBoth b n ↔ n ∈ b.positive ∧ n.dual ∈ b.positive := by
  rw [AsksForBoth, asksFor_iff split naming, asksFor_dual_iff naming]
  refine and_congr_right fun positive => or_iff_left ?_
  -- the concept is positive, so this branch does not have it negative
  exact b.disjoint n positive

/-- A branch of naming concepts does not ask for both. -/
theorem not_asksForBoth (split : IsSplit supply ss m left)
    (naming : n ∈ m.namingConcepts)
    (concepts : ∀ c ∈ b.positive, c ∈ m.namingConcepts) :
    ¬ m.AsksForBoth b n := by
  rw [asksForBoth_iff split naming]
  intro both
  exact split.ne_dual (concepts _ both.2) n rfl

/-- What asks for an axiom and its negation has both, and is satisfied by
nothing. -/
theorem not_models_of_asksForBoth (split : IsSplit supply ss m left)
    (naming : n ∈ m.namingConcepts) (both : m.AsksForBoth b n) {α : Type u}
    (I : Interpretation α) : ¬ I.Models (m.selection b).axioms := by
  intro models
  obtain ⟨d, hd, rfl⟩ := List.mem_map.1 naming
  have body : d.body ∈ (m.selection b).axioms :=
    mem_selection.2 (.inr ⟨_, both.1, split.definition?_eq hd⟩)
  have negation : d.negation ∈ (m.selection b).axioms :=
    mem_selection.2 (.inr ⟨_, both.2, split.definition?_dual hd⟩)
  obtain ⟨_, _, made⟩ := split.negated.exists_made hd
  exact Axiom.not_satisfied_of_negation made (models _ negation)
    (models _ body)

/-- A naming concept and its dual name make a branch, which is admitted. -/
theorem exists_asksForBoth (split : IsSplit supply ss m left)
    (naming : n ∈ m.namingConcepts) :
    ∃ b v, Branch.ofLists [n, n.dual] [] = .ok b ∧
      m.branchOntology b = .ok v ∧ m.AsksForBoth b n := by
  obtain ⟨b, made⟩ := @Branch.exists_ofLists [n, n.dual] [] (by simp)
  have mem := Branch.mem_ofLists made
  have admits : m.Admits b := by
    refine ⟨fun c hc => ?_, fun c hc => ?_⟩
    · rcases List.mem_pair.1 ((mem c).1.1 hc) with rfl | rfl
      · exact .inl naming
      · exact .inr ⟨n, naming, rfl⟩
    · exact absurd ((mem c).2.1 hc) List.not_mem_nil
  refine ⟨b, _, made, branchOntology_eq_ok_iff.2 ⟨admits, rfl⟩, ?_⟩
  rw [asksForBoth_iff split naming, (mem _).1, (mem _).1]
  simp

-- ================================================================== conclusion

/-- Which branches with an object ontology ask for an axiom and for its
negation: those that have the concept and its dual name both positive. There is
such a branch for every naming concept; nothing satisfies its object ontology;
and no branch whose positive concepts are naming concepts is one. -/
theorem asksForBoth_iff_positive
    (built : ofOntology supply o = .ok (m, left))
    (naming : n ∈ m.namingConcepts) :
    (∃ b v, Branch.ofLists [n, n.dual] [] = .ok b ∧
      m.branchOntology b = .ok v ∧ m.AsksForBoth b n) ∧
    ∀ ps ns b v, Branch.ofLists ps ns = .ok b → m.branchOntology b = .ok v →
      (m.AsksForBoth b n ↔ n ∈ ps ∧ n.dual ∈ ps) ∧
      ((∀ c ∈ ps, c ∈ m.namingConcepts) → ¬ m.AsksForBoth b n) ∧
      (m.AsksForBoth b n →
        ∀ {α : Type u} (I : Interpretation α), ¬ I.Models v.axioms) := by
  have split := isSplit_of_ofOntology built
  refine ⟨exists_asksForBoth split naming, fun ps ns b v made found => ?_⟩
  have mem := Branch.mem_ofLists made
  obtain ⟨-, rfl⟩ := branchOntology_eq_ok_iff.1 found
  refine ⟨?_, fun concepts => ?_, fun both _ I => ?_⟩
  · rw [asksForBoth_iff split naming, (mem _).1, (mem _).1]
  · exact not_asksForBoth split naming fun c hc => concepts c ((mem c).1.1 hc)
  · exact not_models_of_asksForBoth split naming both I

/-- The concept of the inclusion in the mixed document is positive, and so is
its dual name; the other concept is negative. -/
theorem mixedModel_asksForBoth :
    ofOntology .full mixedDocument = .ok (mixedModel, ⟨1⟩) ∧
      ⟨"e#M"⟩ ∈ mixedModel.namingConcepts ∧
      ∃ b v, Branch.ofLists [⟨"e#M"⟩, ⟨"e#DUAL.M"⟩] [⟨"e:N"⟩] = .ok b ∧
        mixedModel.branchOntology b = .ok v ∧
        mixedModel.AsksForBoth b ⟨"e#M"⟩ ∧
        ∀ {α : Type} (I : Interpretation α), ¬ I.Models v.axioms := by
  have built : ofOntology .full mixedDocument = .ok (mixedModel, ⟨1⟩) := by
    decide +kernel
  have naming : ⟨"e#M"⟩ ∈ mixedModel.namingConcepts := by decide
  have name : Iri.dual ⟨"e#M"⟩ = ⟨"e#DUAL.M"⟩ := by decide +kernel
  let b : Branch :=
    { positive := [⟨"e#M"⟩, ⟨"e#DUAL.M"⟩], negative := [⟨"e:N"⟩]
      positive_nodup := by decide, negative_nodup := by decide
      disjoint := by decide }
  have made : Branch.ofLists [⟨"e#M"⟩, ⟨"e#DUAL.M"⟩] [⟨"e:N"⟩] = .ok b :=
    Branch.ofLists_eq_ok.2 ⟨by decide, by decide +kernel, by decide +kernel⟩
  have found : mixedModel.branchOntology b = .ok (mixedModel.selection b) := by
    decide +kernel
  obtain ⟨-, branches⟩ := asksForBoth_iff_positive built naming
  obtain ⟨asks, -, unsatisfied⟩ := branches _ _ _ _ made found
  have both : mixedModel.AsksForBoth b ⟨"e#M"⟩ :=
    asks.2 ⟨by decide, by rw [name]; decide⟩
  exact ⟨built, naming, b, _, made, found, both, unsatisfied both⟩

/-- One addressed inclusion. -/
def singleDefinition : Ontology :=
  (Ontology.empty none).extend
    [⟨.subClassOf (.atom ⟨"e:#A"⟩) (.atom ⟨"e:#B"⟩), [.definedBy ⟨"e:#N"⟩]⟩]

/-- The model of this statement. -/
def singleModel : ContextBase where
  iri := none
  metaAxioms := []
  definitions :=
    [⟨⟨"e:#N"⟩, .subClassOf (.atom ⟨"e:#A"⟩) (.atom ⟨"e:#B"⟩),
        .classAssertion (.inter [.atom ⟨"e:#A"⟩, .compl (.atom ⟨"e:#B"⟩)])
          (.anonymous (.fresh 0))⟩]
  globals := []
  rigid := []

/-- Its concept and the dual name of the concept are positive. -/
def conceptAndDual : Branch where
  positive := [⟨"e:#N"⟩, ⟨"e:#DUAL.N"⟩]
  negative := []
  positive_nodup := by decide
  negative_nodup := List.nodup_nil
  disjoint _ _ := List.not_mem_nil

/-- No concept is positive and negative in this branch, and it selects the
inclusion and the negation of the inclusion. -/
theorem singleModel_selects_both :
    ofOntology .full singleDefinition = .ok (singleModel, ⟨1⟩) ∧
      ⟨"e:#N"⟩ ∈ singleModel.namingConcepts ∧
      Branch.ofLists [⟨"e:#N"⟩, ⟨"e:#DUAL.N"⟩] [] = .ok conceptAndDual ∧
      singleModel.branchOntology conceptAndDual =
        .ok ⟨[], [.subClassOf (.atom ⟨"e:#A"⟩) (.atom ⟨"e:#B"⟩),
          .classAssertion (.inter [.atom ⟨"e:#A"⟩, .compl (.atom ⟨"e:#B"⟩)])
            (.anonymous (.fresh 0))], []⟩ ∧
      singleModel.AsksForBoth conceptAndDual ⟨"e:#N"⟩ := by
  have built : ofOntology .full singleDefinition =
      .ok (singleModel, ⟨1⟩) := by decide +kernel
  have naming : ⟨"e:#N"⟩ ∈ singleModel.namingConcepts := by decide
  have made : Branch.ofLists [⟨"e:#N"⟩, ⟨"e:#DUAL.N"⟩] [] =
      .ok conceptAndDual :=
    Branch.ofLists_eq_ok.2 ⟨by decide, by decide +kernel, by decide +kernel⟩
  refine ⟨built, naming, made, by decide +kernel, ?_⟩
  apply (asksForBoth_iff (isSplit_of_ofOntology built) naming).2
  exact ⟨by decide, by decide +kernel⟩

end ContextDL.ContextBase
