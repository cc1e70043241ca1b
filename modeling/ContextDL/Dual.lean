/-
Dual names.

The dual of a class has the mark `DUAL.` in front of its local name. To
dualize a concept is to put `¬DUAL.C` for every occurrence of an addressed
class `C` in it. A dual name of `C` counts as an occurrence of `C`, so each
pass adds one mark. Nothing is simplified.
-/
import ContextDL.Iri.Grammar
import ContextDL.Ontology

namespace ContextDL

-- ======================================================================= names

/-- The mark of a dual name. -/
def dualMark : List Char :=
  "DUAL.".toList

namespace Iri

/-- The dual name of a class. -/
def dual (name : Iri) : Iri :=
  ⟨String.ofList (name.space ++ dualMark ++ name.localName)⟩

/-- A name that is a dual name. -/
def isDual (name : Iri) : Bool :=
  dualMark.isPrefixOf name.localName

/-- A dual name splits into the namespace of the name, and the mark in front
of its local name. -/
theorem split_dual (name : Iri) :
    split name.dual.chars = (name.space, dualMark ++ name.localName) := by
  have mark : dualMark.all (fun c => !isBreak c) = true := by decide
  have chars_dual : name.dual.chars =
      name.space ++ (dualMark ++ name.localName) := by
    rw [chars, dual, String.toList_ofList, List.append_assoc]
  rw [chars_dual]
  refine split_eq (isSpace_split _) fun c hc => ?_
  rcases List.mem_append.1 hc with hc | hc
  · simpa using List.all_eq_true.1 mark c hc
  · exact isBreak_eq_false_of_mem_split hc

/-- A dual name tells the name that it was made from. -/
theorem dual_inj {c d : Iri} : c.dual = d.dual ↔ c = d := by
  constructor
  · intro same
    have parts : (c.space, dualMark ++ c.localName) =
        (d.space, dualMark ++ d.localName) := by
      rw [← split_dual, ← split_dual, same]
    obtain ⟨space, marked⟩ := Prod.mk.inj parts
    apply chars_injective
    rw [← space_append_localName, ← space_append_localName, space,
      List.append_cancel_left marked]
  · exact congrArg dual

/-- The dual of a name is a dual name. -/
@[simp]
theorem isDual_dual (name : Iri) : name.dual.isDual = true := by
  rw [isDual, localName, split_dual, List.isPrefixOf_iff_prefix]
  exact List.prefix_append _ _

/-- A local name without its dual marks. -/
def stripDual : List Char → List Char
  | 'D' :: 'U' :: 'A' :: 'L' :: '.' :: rest => stripDual rest
  | cs => cs

/-- The name that a dual name was made from: all marks are taken off. It is
nothing for a name without a mark, and if what is left is no IRI. -/
def dualBase? (name : Iri) : Option Iri :=
  if name.isDual then
    let base := String.ofList (name.space ++ stripDual name.localName)
    (ofText base).toOption
  else none

end Iri

-- =================================================================== dualizing

/-- A class is addressed by a set if it is in the set, or is a dual name made
from a member. -/
def isAddressed (addressed : List Iri) (name : Iri) : Bool :=
  addressed.contains name || name.dualBase?.any addressed.contains

namespace Concept

mutual

/-- Puts the complement of its dual for every addressed class in a concept. -/
def dualize (addressed : List Iri) : Concept → Concept
  | .atom name =>
    if isAddressed addressed name then .compl (.atom name.dual)
    else .atom name
  | .inter operands => .inter (dualizeAll addressed operands)
  | .union operands => .union (dualizeAll addressed operands)
  | .compl operand => .compl (operand.dualize addressed)
  | .oneOf members => .oneOf members
  | .restrict quantifier role filler =>
    .restrict quantifier role (filler.dualize addressed)

/-- Dualizes every concept of a list. -/
def dualizeAll (addressed : List Iri) : List Concept → List Concept
  | [] => []
  | c :: cs => c.dualize addressed :: dualizeAll addressed cs

end

/-- Lists are dualized member by member. -/
theorem dualizeAll_eq (addressed : List Iri) (cs : List Concept) :
    dualizeAll addressed cs = cs.map (dualize addressed) := by
  induction cs with
  | nil => rfl
  | cons c cs ih => rw [dualizeAll, ih]; rfl

end Concept

/-- Dualizes the concepts of an axiom. An axiom without a place for concepts
stays as it is. -/
def Axiom.dualize (addressed : List Iri) : Axiom → Axiom
  | .subClassOf sub sup =>
    .subClassOf (sub.dualize addressed) (sup.dualize addressed)
  | .equivalentClasses concepts =>
    .equivalentClasses (concepts.map (Concept.dualize addressed))
  | .disjointClasses concepts =>
    .disjointClasses (concepts.map (Concept.dualize addressed))
  | .domain role concept => .domain role (concept.dualize addressed)
  | .range role concept => .range role (concept.dualize addressed)
  | .classAssertion concept member =>
    .classAssertion (concept.dualize addressed) member
  | .hasKey concept roles => .hasKey (concept.dualize addressed) roles
  | a => a

/-- The axioms of an ontology, dualized. Its name and all notes are left
away. -/
def Ontology.dualize (addressed : List Iri) (o : Ontology) : Ontology :=
  .ofAxioms (o.axioms.map (Axiom.dualize addressed))

end ContextDL
