/-
Dualizing keeps the meaning where dual names mean complements.

An interpretation reads duals for a set of classes if the dual name of every
class that has to do with the set means the complement of the class. Those are
the members, and the names that become members when all their dual marks are
taken off: a pass over a concept that was dualized before meets those names
too, at any depth of marks. Under such an interpretation no concept changes its
members when it is dualized, and no axiom its truth
(`Interpretation.ReadsDuals.keeps_meaning`).

The two notions meet in `isAddressed_iff`: what is addressed is a member, or
becomes one when its marks are taken off. The converse has a side condition,
for what is left may be no IRI, so the assumption asks for more than the
rewriting makes use of.

Nothing stands in the way of such an interpretation: every interpretation can
be made one for all sets at once, by reading the names with an odd number of
marks as complements (`Interpretation.withDuals`).
-/
import ContextDL.Dual
import ContextDL.Proofs.Meaning.Agreement
import ContextDL.Proofs.Success
import Mathlib.Algebra.Group.Nat.Even

namespace ContextDL

universe u

variable {α : Type u}

-- ================================================================== dual marks

namespace Iri

/-- A name without its dual marks. -/
def undual (name : Iri) : Iri :=
  ⟨String.ofList (name.space ++ stripDual name.localName)⟩

/-- The number of dual marks in front of a local name. -/
def countMarks : List Char → Nat
  | 'D' :: 'U' :: 'A' :: 'L' :: '.' :: rest => countMarks rest + 1
  | _ => 0

/-- The number of dual marks of a name. -/
def marks (name : Iri) : Nat :=
  countMarks name.localName

@[simp]
theorem space_dual (name : Iri) : name.dual.space = name.space := by
  rw [space, split_dual]

@[simp]
theorem localName_dual (name : Iri) :
    name.dual.localName = dualMark ++ name.localName := by
  rw [localName, split_dual]

/-- A name and its dual are made from one name. -/
@[simp]
theorem undual_dual (name : Iri) : name.dual.undual = name.undual := by
  rw [undual, space_dual, localName_dual]
  rfl

/-- A dual name has one mark more. -/
@[simp]
theorem marks_dual (name : Iri) : name.dual.marks = name.marks + 1 := by
  rw [marks, localName_dual]
  rfl

/-- A dual name was made from the name without its marks, if that is one. -/
theorem dualBase?_eq_some_iff {name base : Iri} :
    name.dualBase? = some base ↔
      name.isDual = true ∧ base.IsValid ∧ base = name.undual := by
  unfold dualBase?
  split
  · next dual =>
    simp only [dual, true_and]
    rw [toOption_eq_some]
    exact ofText_eq_ok
  · next plain => simp [plain]

end Iri

/-- What a set addresses is a member, or a dual name that is a valid name and
a member without its marks. -/
theorem isAddressed_iff {addressed : List Iri} {name : Iri} :
    isAddressed addressed name = true ↔
      name ∈ addressed ∨
        name.isDual = true ∧ name.undual.IsValid ∧ name.undual ∈ addressed := by
  rw [isAddressed, Bool.or_eq_true, List.contains_iff_mem,
    Option.any_eq_true]
  refine or_congr_right ?_
  simp only [Iri.dualBase?_eq_some_iff, List.contains_iff_mem]
  constructor
  · rintro ⟨base, ⟨dual, valid, rfl⟩, member⟩
    exact ⟨dual, valid, member⟩
  · rintro ⟨dual, valid, member⟩
    exact ⟨_, ⟨dual, valid, rfl⟩, member⟩

-- =============================================================== reading duals

namespace Interpretation

/-- The dual of every class that is in a set, or is in it without its dual
marks, means the complement of the class. -/
def ReadsDuals (I : Interpretation α) (addressed : List Iri) : Prop :=
  ∀ name : Iri, name ∈ addressed ∨ name.undual ∈ addressed →
    ∀ x, I.classes name.dual x ↔ ¬ I.classes name x

/-- An interpretation, changed to read a name with dual marks as the name
without them, or as the complement of it if the marks are odd in number. -/
def withDuals (I : Interpretation α) : Interpretation α where
  classes name x := Even name.marks ↔ I.classes name.undual x
  properties := I.properties
  individuals := I.individuals
  nodes := I.nodes
  thing := by
    intro x
    have plain : Iri.thing.marks = 0 := by decide +kernel
    have same : Iri.thing.undual = Iri.thing := by decide +kernel
    rw [plain, same]
    exact iff_of_true (by decide) (I.thing x)
  nothing := by
    intro x
    have plain : Iri.nothing.marks = 0 := by decide +kernel
    have same : Iri.nothing.undual = Iri.nothing := by decide +kernel
    rw [plain, same]
    exact not_iff.2 (iff_of_false (by decide) (I.nothing x))

/-- The change makes every interpretation read duals, for any set. -/
theorem readsDuals_withDuals (I : Interpretation α) (addressed : List Iri) :
    I.withDuals.ReadsDuals addressed := by
  intro name _ x
  show (Even name.dual.marks ↔ I.classes name.dual.undual x) ↔
    ¬ (Even name.marks ↔ I.classes name.undual x)
  rw [Iri.marks_dual, Iri.undual_dual, Nat.even_add_one, not_iff]

namespace ReadsDuals

variable {I : Interpretation α} {addressed : List Iri}

/-- An addressed class is the complement of its dual. -/
theorem not_dual_iff (reads : I.ReadsDuals addressed) {name : Iri}
    (h : isAddressed addressed name = true) (x : α) :
    ¬ I.classes name.dual x ↔ I.classes name x := by
  have touched : name ∈ addressed ∨ name.undual ∈ addressed :=
    (isAddressed_iff.1 h).imp_right fun made => made.2.2
  rw [reads name touched x, not_not]

-- ================================================================== the passes

/-- A dualized concept has the members of the concept. -/
theorem holds_dualize (reads : I.ReadsDuals addressed) (c : Concept) (x : α) :
    (c.dualize addressed).Holds I x ↔ c.Holds I x := by
  induction c generalizing x with
  | atom name =>
    rw [Concept.dualize]
    split
    · next h =>
      rw [Concept.Holds, Concept.Holds, Concept.Holds]
      exact reads.not_dual_iff h x
    · rfl
  | inter cs ih =>
    rw [Concept.dualize, Concept.dualizeAll_eq, Concept.holds_inter,
      Concept.holds_inter, List.forall_mem_map]
    exact forall₂_congr fun c hc => ih c hc x
  | union cs ih =>
    rw [Concept.dualize, Concept.dualizeAll_eq, Concept.holds_union,
      Concept.holds_union]
    simp only [List.mem_map, exists_exists_and_eq_and]
    exact exists_congr fun c => and_congr_right fun hc => ih c hc x
  | compl c ih => rw [Concept.dualize, Concept.Holds, Concept.Holds, ih x]
  | oneOf members => rfl
  | restrict n r c ih =>
    rw [Concept.dualize, Concept.Holds, Concept.Holds]
    -- a number restriction counts fillers, so these must be the same ones
    exact n.counts_congr (fun y => Iff.rfl) ih

/-- A dualized axiom is true exactly if the axiom is. -/
theorem satisfied_dualize (reads : I.ReadsDuals addressed) (a : Axiom) :
    (a.dualize addressed).Satisfied I ↔ a.Satisfied I := by
  have concept := fun (c : Concept) x => reads.holds_dualize c x
  cases a <;> simp only [Axiom.dualize, Axiom.Satisfied, List.forall_mem_map,
    List.pairwise_map, concept]

/-- Under an interpretation that reads duals for a set of classes, dualizing by
the set changes neither the members of a concept nor the truth of an axiom. -/
theorem keeps_meaning (reads : I.ReadsDuals addressed) :
    (∀ (c : Concept) (x : α), (c.dualize addressed).Holds I x ↔ c.Holds I x) ∧
      ∀ a : Axiom, (a.dualize addressed).Satisfied I ↔ a.Satisfied I :=
  ⟨reads.holds_dualize, reads.satisfied_dualize⟩

end ReadsDuals

/-- Two elements, one of which is in the class `N`, and a property that leads
from each to the other. -/
def twoElements : Interpretation Bool where
  classes name x := name = Iri.thing ∨ name = ⟨"e:#N"⟩ ∧ x = true
  properties _ x y := x ≠ y
  individuals _ := true
  nodes _ := true
  thing _ := .inl rfl
  nothing x := by
    have other : Iri.nothing ≠ Iri.thing ∧ Iri.nothing ≠ ⟨"e:#N"⟩ := by decide
    rintro (h | ⟨h, -⟩)
    · exact other.1 h
    · exact other.2 h

/-- A second pass turns `≤1r.¬DUAL.N` into `≤1r.¬¬DUAL.DUAL.N`. Each says of an
element what the other says, and of an individual too. -/
theorem twoElements_keeps_meaning :
    twoElements.withDuals.ReadsDuals [⟨"e:#N"⟩] ∧
      (∀ x,
        (Concept.restrict (.atMost 1) (.named ⟨"e:#r"⟩)
            (.compl (.compl (.atom ⟨"e:#DUAL.DUAL.N"⟩)))).Holds
              twoElements.withDuals x ↔
          (Concept.restrict (.atMost 1) (.named ⟨"e:#r"⟩)
            (.compl (.atom ⟨"e:#DUAL.N"⟩))).Holds twoElements.withDuals x) ∧
      ((Axiom.classAssertion (.compl (.compl (.atom ⟨"e:#DUAL.DUAL.N"⟩)))
          (.named ⟨"e:#a"⟩)).Satisfied twoElements.withDuals ↔
        (Axiom.classAssertion (.compl (.atom ⟨"e:#DUAL.N"⟩))
          (.named ⟨"e:#a"⟩)).Satisfied twoElements.withDuals) := by
  have reads := readsDuals_withDuals twoElements [⟨"e:#N"⟩]
  have concept : (Concept.restrict (.atMost 1) (.named ⟨"e:#r"⟩)
      (.compl (.atom ⟨"e:#DUAL.N"⟩))).dualize [⟨"e:#N"⟩] =
        .restrict (.atMost 1) (.named ⟨"e:#r"⟩)
          (.compl (.compl (.atom ⟨"e:#DUAL.DUAL.N"⟩))) := by
    decide +kernel
  have assertion : (Axiom.classAssertion (.compl (.atom ⟨"e:#DUAL.N"⟩))
      (.named ⟨"e:#a"⟩)).dualize [⟨"e:#N"⟩] =
        .classAssertion (.compl (.compl (.atom ⟨"e:#DUAL.DUAL.N"⟩)))
          (.named ⟨"e:#a"⟩) := by
    decide +kernel
  obtain ⟨concepts, axioms⟩ := reads.keeps_meaning
  rw [← concept, ← assertion]
  exact ⟨reads, concepts _, axioms _⟩

end Interpretation

end ContextDL
