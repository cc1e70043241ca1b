/-
Renamed branches: what all branches share, and what is a branch's own.

A branch says of its names whether they are rigid, and a renaming gives copies
to the names that it is told. The model brings the two together: every class
and property of a branch is one of the model, and is flexible there if it is
not labelled rigid (`ContextBase.mem_flexibleNames`). So in a renamed branch
every class and every property is shared, or a copy of a flexible name, and the
labels tell which (`ContextBase.shared_or_own_rename`).

# Names of more than one kind

A flexible name may be a class, a property and an individual at once. A
renaming renames it as each of these, and what is a class in the end was one
before or is the copy of one.

# Names of other branches

A copy is checked against the names of the branch only. So it may have a name
that other branches use, even a rigid one; the branch did not mention the name,
has no label for it, and the name is its own.
-/
import ContextDL.Proofs.Context.Selection
import ContextDL.Proofs.Renaming.Names
import Mathlib.Logic.Basic

namespace ContextDL

namespace ContextBase

variable {m : ContextBase} {b : Branch} {v : BranchOntology} {a : Axiom}
  {x : Iri}

-- ========================================================== names of a model

/-- The classes and properties of the object level that are labelled rigid. -/
theorem mem_rigid_names :
    x ∈ m.rigidClasses ∨ x ∈ m.rigidProperties ↔
      m.objectSignature.IsPredicate x ∧ x ∈ m.rigid := by
  simp [rigidClasses, rigidProperties, Signature.IsPredicate, or_and_right]

/-- The others are flexible. -/
theorem mem_flexibleNames :
    x ∈ m.flexibleNames ↔
      m.objectSignature.IsPredicate x ∧ x ∉ m.rigid := by
  simp [flexibleNames, flexibleClasses, flexibleProperties,
    Signature.IsPredicate, or_and_right]

/-- The classes and properties of a branch are those of the object level. -/
theorem isPredicate_objectSignature (found : m.branchOntology b = .ok v)
    (mentioned : v.signature.IsPredicate x) :
    m.objectSignature.IsPredicate x := by
  obtain ⟨-, rfl⟩ := branchOntology_eq_ok_iff.1 found
  obtain ⟨a, ha, hx⟩ := Signature.isPredicate_unionAll.1 mentioned
  exact Signature.isPredicate_unionAll.2 ⟨a, mem_of_mem_selection ha, hx⟩

end ContextBase

-- ============================================================ after a renaming

namespace Ontology

variable {o : Ontology} {names : List Iri} {separator : String}
  {copies : Nat} {x : Iri}

/-- Where no statement is addressed, a class or property that is left after a
renaming was there before and is none of the names, or is the copy of one and
was not there. -/
theorem kept_or_copied_of_isPredicate
    (plain : ∀ s ∈ o.statements, s.definedBy = [])
    (merged : 0 < (o.rename names separator copies).tally.mergedCopies)
    (predicate :
      (o.rename names separator copies).ontology.signature.IsPredicate x) :
    (o.signature.IsPredicate x ∧ x ∉ names) ∨
      (∃ y ∈ names, ∃ i ∈ o.possibleCopies names separator copies,
        y.copyName separator i = .ok x) ∧ o.signature.contains x = false := by
  have before {s : Statement} {y : Iri} (hs : s ∈ o.statements)
      (hy : s.signature.IsPredicate y) : o.signature.IsPredicate y :=
    Signature.isPredicate_unionAll.2 ⟨s.body, List.mem_map_of_mem hs, hy⟩
  obtain ⟨a, ha, hx⟩ := Signature.isPredicate_unionAll.1 predicate
  obtain ⟨s, hs, rfl⟩ := List.mem_map.1 ha
  rcases (mem_statements_rename_iff merged).1 hs with
    ⟨stated, kept⟩ | ⟨i, hi, t, ht, rfl⟩
  · refine .inl ⟨before stated hx, fun renamed => ?_⟩
    have copied := (isCopied_iff (plain s stated)).2 ⟨x, renamed, hx.contains⟩
    rw [kept] at copied
    cases copied
  · obtain ⟨stated, copied⟩ := List.mem_filter.1 ht
    obtain ⟨y, hy, rfl⟩ := (isImage_target t).isPredicate_iff.1 hx
    by_cases renamed : y ∈ names
    · have possible := isPossible_iff.1 (mem_possibleCopies.1 hi).2
      obtain ⟨valid, unused⟩ := possible t stated copied y hy.contains renamed
      rw [target_of_mem renamed]
      exact .inr ⟨⟨y, renamed, i, hi, Iri.copyName_eq_ok.2 ⟨valid, rfl⟩⟩,
        unused⟩
    · rw [target_of_notMem renamed]
      exact .inl ⟨before stated hy, renamed⟩

/-- A renaming leaves every entity rigid that was, and makes no other one
rigid. -/
theorem isRigid_rename :
    (o.rename names separator copies).ontology.isRigid x = o.isRigid x := by
  rw [Bool.eq_iff_iff, isRigid, isRigid, ← EntityNotes.mem_rigid,
    ← EntityNotes.mem_rigid]
  exact iff_of_eq (congrArg (x ∈ ·) (o.rigid_rename names separator copies))

end Ontology

-- ============================================================ renamed branches

namespace ContextBase

variable {m : ContextBase} {b : Branch} {v : BranchOntology}
  {separator : String} {copies : Nat} {x : Iri}

/-- A name that a branch shares with the others: it is rigid in the model, was
mentioned before the renaming, and is labelled rigid after it. -/
structure IsShared (m : ContextBase) (o renamed : Ontology) (x : Iri) :
    Prop where
  rigid : x ∈ m.rigidClasses ∨ x ∈ m.rigidProperties
  used : o.signature.contains x = true
  labelled : renamed.isRigid x = true

/-- A name that a branch has for its own: a merged copy of a flexible name,
which was not mentioned before the renaming and is not labelled rigid. -/
structure IsOwn (m : ContextBase) (o renamed : Ontology) (separator : String)
    (copies : Nat) (x : Iri) : Prop where
  copied : ∃ y ∈ m.flexibleNames,
    ∃ i ∈ o.possibleCopies m.flexibleNames separator copies,
      y.copyName separator i = .ok x
  unused : o.signature.contains x = false
  unlabelled : renamed.isRigid x = false

/-- A renamed branch has the labels that the model gives to its names. -/
theorem isRigid_rename_branch (found : m.branchOntology b = .ok v)
    (names : List Iri) :
    (v.toOntology.rename names separator copies).ontology.isRigid x = true ↔
      x ∈ m.rigid ∧ v.toOntology.signature.contains x = true := by
  obtain ⟨-, rfl⟩ := branchOntology_eq_ok_iff.1 found
  rw [Ontology.isRigid_rename, Ontology.isRigid, ← EntityNotes.mem_rigid,
    BranchOntology.signature_toOntology]
  exact BranchOntology.mem_rigid_toOntology _

/-- After the flexible names of a model are renamed in one of its branches,
every class and every property that is left is shared with the other branches
or the branch's own, and never both. -/
theorem shared_or_own_rename (found : m.branchOntology b = .ok v)
    (separator : String) (copies : Nat)
    (merged : 0 < (v.toOntology.rename m.flexibleNames separator
      copies).tally.mergedCopies) :
    let o := v.toOntology
    let renamed := (o.rename m.flexibleNames separator copies).ontology
    ∀ x, x ∈ renamed.signature.classes ∨ x ∈ renamed.signature.properties →
      Xor (m.IsShared o renamed x) (m.IsOwn o renamed separator copies x) := by
  intro o renamed x left
  have plain : ∀ s ∈ o.statements, s.definedBy = [] := by
    intro s hs
    rw [BranchOntology.statements_toOntology] at hs
    obtain ⟨a, -, rfl⟩ := List.mem_map.1 hs
    rfl
  have labels := @isRigid_rename_branch m b v separator copies x found
    m.flexibleNames
  rcases Ontology.kept_or_copied_of_isPredicate plain merged left with
    ⟨kept, notFlexible⟩ | ⟨copied, unused⟩
  · have object : m.objectSignature.IsPredicate x := by
      apply isPredicate_objectSignature found
      rw [← BranchOntology.signature_toOntology]
      exact kept
    have rigid : x ∈ m.rigid := by
      by_contra flexible
      exact notFlexible (mem_flexibleNames.2 ⟨object, flexible⟩)
    have used := kept.contains
    left
    refine ⟨⟨mem_rigid_names.2 ⟨object, rigid⟩, used,
      labels.2 ⟨rigid, used⟩⟩, fun own => ?_⟩
    rw [own.unused] at used
    cases used
  · have unlabelled : renamed.isRigid x = false := by
      rw [← Bool.not_eq_true]
      intro labelled
      have used := (labels.1 labelled).2
      rw [unused] at used
      cases used
    right
    refine ⟨⟨copied, unused, unlabelled⟩, fun shared => ?_⟩
    have used := shared.used
    rw [unused] at used
    cases used

/-- A rigid class, and a flexible role which is an individual and a class as
well. The first copy of the role has the name of another rigid class, which
only the second definition mentions. -/
def acquaintance : Ontology :=
  let knows : Iri := ⟨"e:knows"⟩
  let someone : Concept := .restrict .existential (.named knows) (.atom knows)
  let a : Individual := .named ⟨"e:a"⟩
  { iri := none
    statements :=
      [⟨.subClassOf (.atom ⟨"e:Person"⟩) someone, [.objectGlobal]⟩,
        ⟨.roleAssertion (.named knows) a (.named knows),
          [.definedBy ⟨"e:First"⟩]⟩,
        ⟨.classAssertion (.atom ⟨"e:knows_1"⟩) a, [.definedBy ⟨"e:Second"⟩]⟩]
    notes :=
      (EntityNotes.empty.add ⟨"e:Person"⟩ .rigid).add ⟨"e:knows_1"⟩ .rigid }

/-- The model of these statements. -/
def acquaintanceModel : ContextBase :=
  let knows : Iri := ⟨"e:knows"⟩
  let someone : Concept := .restrict .existential (.named knows) (.atom knows)
  let a : Individual := .named ⟨"e:a"⟩
  { iri := none
    metaAxioms := []
    definitions :=
      [⟨⟨"e:First"⟩, .roleAssertion (.named knows) a (.named knows),
          .noRoleAssertion (.named knows) a (.named knows)⟩,
        ⟨⟨"e:Second"⟩, .classAssertion (.atom ⟨"e:knows_1"⟩) a,
          .classAssertion (.compl (.atom ⟨"e:knows_1"⟩)) a⟩]
    globals := [.subClassOf (.atom ⟨"e:Person"⟩) someone]
    rigid := [⟨"e:Person"⟩, ⟨"e:knows_1"⟩] }

/-- The branch in which the first definition holds. -/
def firstHolds : Branch where
  positive := [⟨"e:First"⟩]
  negative := []
  positive_nodup := List.nodup_singleton _
  negative_nodup := List.nodup_nil
  disjoint := fun _ _ => List.not_mem_nil

/-- Two copies of the role are made in a branch that does not mention the
second definition. -/
theorem shared_or_own_rename_acquaintance :
    ∃ v,
      ofOntology .full acquaintance = .ok (acquaintanceModel, .full) ∧
      acquaintanceModel.branchOntology firstHolds = .ok v ∧
      (v.toOntology.rename acquaintanceModel.flexibleNames "_"
        2).tally.mergedCopies = 2 ∧
      let renamed := (v.toOntology.rename acquaintanceModel.flexibleNames "_"
        2).ontology
      renamed.signature.classes =
        [⟨"e:Person"⟩, ⟨"e:knows_1"⟩, ⟨"e:knows_2"⟩] ∧
      ∀ x, x ∈ renamed.signature.classes ∨ x ∈ renamed.signature.properties →
        Xor (acquaintanceModel.IsShared v.toOntology renamed x)
          (acquaintanceModel.IsOwn v.toOntology renamed "_" 2 x) := by
  have built : ofOntology .full acquaintance =
      .ok (acquaintanceModel, .full) := by
    decide +kernel
  have found : acquaintanceModel.branchOntology firstHolds =
      .ok (acquaintanceModel.selection firstHolds) := by
    decide +kernel
  have merged :
      ((acquaintanceModel.selection firstHolds).toOntology.rename
        acquaintanceModel.flexibleNames "_" 2).tally.mergedCopies = 2 := by
    decide +kernel
  exact ⟨_, built, found, merged, by decide +kernel,
    shared_or_own_rename found "_" 2 (by rw [merged]; decide)⟩

end ContextBase

end ContextDL
