/-
Context models of renamed documents.

A renaming does not copy what is addressed, and a copy is addressed no more
than what it was made of. So it leaves the addressed statements of a document
where they are (`Ontology.filter_isDefinition_rename`), and nothing else
decides the registry of the model (`ContextBase.exists_sameNaming`). This holds
even if naming concepts are renamed: the meta level then speaks of their
copies, and the definitions are found under the old names.
-/
import ContextDL.Proofs.Context.Registration
import ContextDL.Proofs.Renaming.Effect

namespace ContextDL

namespace Ontology

open Statement

variable {names : List Iri}

-- ======================================================== addressed statements

/-- What is copied defines nothing. -/
theorem isDefinition_of_isCopied {s : Statement}
    (copied : isCopied names s = true) : s.isDefinition = false := by
  rw [isDefinition, definedBy_of_isCopied copied]
  rfl

/-- Nor do the copies of it. -/
theorem filter_isDefinition_copyImage (o : Ontology) (names : List Iri)
    (separator : String) (copy : Nat) :
    (o.copyImage names separator copy).filter isDefinition = [] := by
  rw [List.filter_eq_nil_iff]
  intro s hs
  obtain ⟨t, ht, rfl⟩ := List.mem_map.1 hs
  have none := isDefinition_of_isCopied (List.mem_filter.1 ht).2
  -- the copy has the notes of what it was made of
  show ¬ t.isDefinition = true
  rw [none]
  exact Bool.false_ne_true

/-- A renaming leaves the addressed statements as they are, in their order. -/
theorem filter_isDefinition_rename (o : Ontology) (names : List Iri)
    (separator : String) (copies : Nat) :
    (o.rename names separator copies).ontology.statements.filter isDefinition =
      o.statements.filter isDefinition := by
  obtain ⟨-, ontology⟩ | ⟨-, ontology⟩ := rename_cases o names separator copies
  · rw [ontology]
  · have kept : (o.statements.filter (!isCopied names ·)).filter isDefinition =
        o.statements.filter isDefinition := by
      rw [List.filter_filter]
      refine List.filter_congr fun s _ => ?_
      cases copied : isCopied names s with
      | false => simp
      | true => simp [isDefinition_of_isCopied copied]
    have added : (o.copiesMade names separator copies).flatten.filter
        isDefinition = [] := by
      rw [copiesMade_eq_map, List.filter_flatten, List.map_map,
        List.flatten_eq_nil_iff]
      intro ss hss
      obtain ⟨copy, -, rfl⟩ := List.mem_map.1 hss
      exact filter_isDefinition_copyImage o names separator copy
    rw [ontology, withCopies, List.filter_append, kept, added, List.append_nil]

end Ontology

namespace ContextBase

-- ====================================================================== models

variable {m : ContextBase} {supply left : Supply} {o : Ontology}

/-- A document that has a model has one after every renaming, with the same
naming concepts, dual names, definitions and rigid entities. Only the
individuals that negations make up may be others. -/
theorem exists_sameNaming_rename
    (built : ofOntology supply o = .ok (m, left)) (names : List Iri)
    (separator : String) (copies : Nat) (supply' : Supply) :
    ∃ m' left',
      ofOntology supply' (o.rename names separator copies).ontology =
        .ok (m', left') ∧ m.SameNaming m' :=
  exists_sameNaming built (o.filter_isDefinition_rename names separator copies)
    (o.rigid_rename names separator copies) supply'

/-- Two copies are made of a naming concept and of an individual that the
definitions speak of. The negation of an inclusion has a new witness. -/
theorem exists_sameNaming_rename_mixedDocument :
    ofOntology .full mixedDocument = .ok (mixedModel, ⟨1⟩) ∧
    (mixedDocument.rename [⟨"e:N"⟩, ⟨"e:a"⟩] "_" 2).tally.mergedCopies = 2 ∧
    ∃ m' left',
      ofOntology ⟨7⟩ (mixedDocument.rename [⟨"e:N"⟩, ⟨"e:a"⟩] "_" 2).ontology =
        .ok (m', left') ∧ mixedModel.SameNaming m' := by
  have built : ofOntology .full mixedDocument = .ok (mixedModel, ⟨1⟩) := by
    decide +kernel
  exact ⟨built, by decide +kernel,
    exists_sameNaming_rename built [⟨"e:N"⟩, ⟨"e:a"⟩] "_" 2 ⟨7⟩⟩

end ContextBase

end ContextDL
