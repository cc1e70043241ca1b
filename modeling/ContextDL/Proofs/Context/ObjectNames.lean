/-
Negations bring no new names.

A negation is made of what the negated axiom is made of, and of an individual
that has no name. A conjunction opens intersections, drops repeated conjuncts
and tops, and may give up for a bottom. Only the bottom loses names: tops have
none, and a repeated conjunct has names that were seen already. So the names
that gathering has found and has still to go through are the same from step to
step (`Concept.signature_gather`). They are the same in the same order, and
the signatures are equal as lists.

A model keeps a negation next to the axiom that it negates, so the negations
add nothing to the object level (`ContextBase.objectSignature_eq`). The
branches, which take axioms and negations apart, cannot leave it either.
-/
import ContextDL.Proofs.Context.Selection
import ContextDL.Proofs.Meaning.Negation

namespace ContextDL

-- ================================================================== signatures

/-- To join what is there already changes nothing. -/
theorem joinNames_eq_left {xs ys : List Iri} (known : ∀ y ∈ ys, y ∈ xs) :
    joinNames xs ys = xs := by
  have new : ys.filter (!xs.contains ·) = [] := by
    rw [List.filter_eq_nil_iff]
    intro y hy
    simp [known y hy]
  rw [joinNames, new, List.append_nil]

namespace Signature

/-- All names of a signature are in another one, in the same use. -/
structure Within (s t : Signature) : Prop where
  classes : ∀ n ∈ s.classes, n ∈ t.classes
  properties : ∀ n ∈ s.properties, n ∈ t.properties
  individuals : ∀ n ∈ s.individuals, n ∈ t.individuals

variable {s t u : Signature}

namespace Within

theorem refl (s : Signature) : s.Within s :=
  ⟨fun _ h => h, fun _ h => h, fun _ h => h⟩

theorem of_empty (s : Signature) : empty.Within s := by
  constructor <;> intro n h <;> cases h

/-- A signature adds nothing to one that it is in. -/
theorem union_eq (h : t.Within s) : s ∪ t = s := by
  have classes := joinNames_eq_left h.classes
  have properties := joinNames_eq_left h.properties
  have individuals := joinNames_eq_left h.individuals
  simp only [Union.union, union, classes, properties, individuals]

end Within

/-- A union is in a signature if both parts are. -/
theorem union_within_iff :
    (s ∪ t).Within u ↔ s.Within u ∧ t.Within u := by
  constructor
  · intro h
    obtain ⟨classes, properties, individuals⟩ := h
    simp only [mem_classes_union, mem_properties_union, mem_individuals_union,
      or_imp, forall_and] at classes properties individuals
    exact ⟨⟨classes.1, properties.1, individuals.1⟩,
      ⟨classes.2, properties.2, individuals.2⟩⟩
  · intro h
    obtain ⟨left, right⟩ := h
    constructor
    · intro n hn
      exact (mem_classes_union.1 hn).elim (left.classes n) (right.classes n)
    · intro n hn
      exact (mem_properties_union.1 hn).elim (left.properties n)
        (right.properties n)
    · intro n hn
      exact (mem_individuals_union.1 hn).elim (left.individuals n)
        (right.individuals n)

/-- The names of a list are in a signature if those of all members are. -/
theorem unionAll_within_iff {β : Type} {signature : β → Signature}
    {xs : List β} :
    (unionAll signature xs).Within s ↔ ∀ x ∈ xs, (signature x).Within s := by
  induction xs with
  | nil => exact iff_of_true (.of_empty s) (by simp)
  | cons x xs ih =>
    rw [unionAll_cons, union_within_iff, ih, List.forall_mem_cons]

/-- A member of a list has no names but those of the list. -/
theorem within_unionAll {β : Type} {signature : β → Signature} {x : β}
    {xs : List β} (h : x ∈ xs) :
    (signature x).Within (unionAll signature xs) :=
  unionAll_within_iff.1 (.refl _) x h

end Signature

-- ==================================================================== concepts

namespace Concept

theorem signature_top : top.signature = .empty := by decide

theorem signature_bottom : bottom.signature = .empty := by decide

theorem signature_inter (cs : List Concept) :
    (inter cs).signature = .unionAll signature cs := by
  rw [signature, signatureAll_eq]

/-- The negation of a concept has the names of the concept. -/
theorem signature_negation (c : Concept) :
    c.negation.signature = c.signature := by
  unfold negation
  split
  · next h => rw [h, signature_top, signature_bottom]
  split
  · next h => rw [h, signature_top, signature_bottom]
  split
  · rfl
  · rfl

/-- What gathering finds has the names of what was found before and of what
was pending. -/
theorem signature_gather {found pending conjuncts : List Concept}
    (run : gather found pending = some conjuncts) :
    Signature.unionAll signature conjuncts =
      .unionAll signature found ∪ .unionAll signature pending := by
  fun_induction gather found pending with
  | case1 found =>
    cases run
    exact (Signature.union_empty _).symm
  | case2 found operands pending ih =>
    rw [ih run, Signature.unionAll_cons, signature_inter,
      Signature.unionAll_append]
  | case3 found pending _ ih =>
    rw [ih run, Signature.unionAll_cons, signature_top, Signature.empty_union]
  | case4 => cases run
  | case5 found c pending _ _ _ known ih =>
    -- its names were met when it was found
    have met : c.signature.Within (.unionAll signature found) :=
      Signature.within_unionAll known
    rw [ih run, Signature.unionAll_cons, ← Signature.union_assoc,
      met.union_eq]
  | case6 found c pending _ _ _ _ ih =>
    rw [ih run, Signature.unionAll_append, Signature.unionAll_cons,
      Signature.unionAll_cons, Signature.unionAll_nil, Signature.union_empty,
      Signature.union_assoc]

/-- A concept made of conjuncts has their names. -/
theorem signature_ofConjuncts (cs : List Concept) :
    (ofConjuncts cs).signature = .unionAll signature cs := by
  match cs with
  | [] => exact signature_top
  | [c] => exact (Signature.union_empty _).symm
  | c :: d :: cs => exact signature_inter (c :: d :: cs)

/-- A conjunction has the names of its operands, if it is not the bottom. -/
theorem signature_conjunction {cs : List Concept}
    (proper : conjunction cs ≠ bottom) :
    (conjunction cs).signature = .unionAll signature cs := by
  unfold conjunction at proper ⊢
  cases run : gather [] cs with
  | none =>
    rw [run] at proper
    exact absurd rfl proper
  | some conjuncts =>
    exact (signature_ofConjuncts conjuncts).trans
      ((signature_gather run).trans (Signature.empty_union _))

end Concept

-- ====================================================================== axioms

namespace Axiom

variable {supply left : Supply} {a b : Axiom} {c d : Concept}

/-- The negation of an assertion has its names. -/
theorem signature_negation_of_assertion (assertion : a.isAssertion)
    (made : a.negation supply = .ok (b, left)) :
    b.signature = a.signature := by
  cases a <;> simp only [negation, Except.ok.injEq, Prod.mk.injEq,
    reduceCtorEq] at made
  case classAssertion c member =>
    obtain ⟨rfl, -⟩ := made
    rw [signature, signature, Concept.signature_negation]
  case subClassOf => cases assertion
  case roleAssertion =>
    obtain ⟨rfl, -⟩ := made
    rfl
  case noRoleAssertion =>
    obtain ⟨rfl, -⟩ := made
    rfl

/-- The negation of an inclusion has its names, if its concept is not the
bottom. -/
theorem signature_witness {node : BlankNode}
    (proper : Concept.conjunction [c, d.negation] ≠ .bottom) :
    (classAssertion (Concept.conjunction [c, d.negation])
      (.anonymous node)).signature = (subClassOf c d).signature := by
  calc (Concept.conjunction [c, d.negation]).signature ∪ .empty
    _ = .unionAll Concept.signature [c, d.negation] := by
      rw [Signature.union_empty, Concept.signature_conjunction proper]
    _ = c.signature ∪ d.signature := by
      rw [Signature.unionAll_cons, Signature.unionAll_cons,
        Signature.unionAll_nil, Signature.union_empty,
        Concept.signature_negation]

/-- What has a negation is an assertion, or an inclusion with a witness against
it. -/
theorem assertion_or_inclusion (made : a.negation supply = .ok (b, left)) :
    a.isAssertion ∨ ∃ c d, a = .subClassOf c d ∧
      b = .classAssertion (Concept.conjunction [c, d.negation])
        (.anonymous (.fresh supply.next)) := by
  cases a <;> simp only [negation, Except.ok.injEq, Prod.mk.injEq,
    reduceCtorEq] at made
  case subClassOf c d => exact .inr ⟨c, d, rfl, made.1.symm⟩
  all_goals exact .inl rfl

/-- A negation brings no new names. -/
theorem within_of_negation (made : a.negation supply = .ok (b, left)) :
    b.signature.Within a.signature := by
  rcases assertion_or_inclusion made with assertion | ⟨c, d, rfl, rfl⟩
  · rw [signature_negation_of_assertion assertion made]
    exact .refl _
  · by_cases proper : Concept.conjunction [c, d.negation] = .bottom
    · have none : (classAssertion .bottom (.anonymous (.fresh supply.next))
          ).signature = .empty := by
        rw [signature, Concept.signature_bottom, Signature.empty_union]
        rfl
      rw [proper, none]
      exact .of_empty _
    · rw [signature_witness proper]
      exact .refl _

end Axiom

-- ====================================================================== models

namespace ContextBase

variable {m : ContextBase} {supply left : Supply} {ss : List Statement}

/-- The names of the object level are those of the global axioms and of the
axioms that are defined. Each negation follows the axiom that it was made
from. -/
theorem IsSplit.objectSignature_eq (split : IsSplit supply ss m left) :
    m.objectSignature =
      .unionAll Axiom.signature (m.globals ++ m.definitions.map (·.body)) := by
  have entry (d : Definition) (hd : d ∈ m.definitions) :
      Signature.unionAll Axiom.signature [d.body, d.negation] =
        d.body.signature := by
    obtain ⟨s, t, made⟩ := split.negated.exists_made hd
    rw [Signature.unionAll_cons, Signature.unionAll_cons,
      Signature.unionAll_nil, Signature.union_empty,
      (Axiom.within_of_negation made).union_eq]
  have kept : m.registry.map (·.2) =
      m.definitions.flatMap fun d => [d.body, d.negation] := by
    simp [registry, List.map_flatMap]
  rw [objectSignature, kept, Signature.unionAll_append,
    Signature.unionAll_append, Signature.unionAll_flatMap,
    Signature.unionAll_map, Signature.unionAll_congr entry]

/-- The naming concepts address the axioms that are defined. -/
theorem IsSplit.filterMap_definition? (split : IsSplit supply ss m left) :
    m.namingConcepts.filterMap m.definition? =
      m.definitions.map (·.body) := by
  rw [namingConcepts, List.filterMap_map, ← List.filterMap_eq_map]
  exact List.filterMap_congr fun d hd => split.definition?_eq hd

/-- Negations add no names. The names of a negation are names of the axiom, in
the same use. It has all of them if the axiom is an assertion, or an inclusion
whose negation does not assert the bottom. So the object level of a model has
the names of the global axioms and of the axioms that naming concepts address,
and no object ontology has any other. -/
theorem negations_add_no_names :
    (∀ (supply left : Supply) (a b : Axiom),
      a.negation supply = .ok (b, left) →
      b.signature.Within a.signature ∧
      (a.isAssertion → b.signature = a.signature) ∧
      ∀ c d, a = .subClassOf c d → ∃ concept member,
        b = .classAssertion concept member ∧
          (concept ≠ .bottom → b.signature = a.signature)) ∧
    ∀ (supply left : Supply) (o : Ontology) (m : ContextBase),
      ofOntology supply o = .ok (m, left) →
      m.objectSignature = .unionAll Axiom.signature
        (m.globals ++ m.namingConcepts.filterMap m.definition?) ∧
      ∀ t v, m.branchOntology t = .ok v →
        v.signature.Within m.objectSignature := by
  refine ⟨fun supply left a b made => ⟨Axiom.within_of_negation made,
    fun assertion => Axiom.signature_negation_of_assertion assertion made,
    fun c d inclusion => ?_⟩, fun supply left o m built => ⟨?_, ?_⟩⟩
  · subst inclusion
    obtain ⟨rfl, -⟩ := Prod.mk.inj (Except.ok.inj made)
    exact ⟨_, _, rfl, Axiom.signature_witness⟩
  · have split := isSplit_of_ofOntology built
    rw [split.filterMap_definition?]
    exact split.objectSignature_eq
  · intro t v found
    obtain ⟨-, rfl⟩ := branchOntology_eq_ok_iff.1 found
    refine Signature.unionAll_within_iff.2 fun a ha => ?_
    exact Signature.within_unionAll (mem_of_mem_selection ha)

/-- An inclusion with a repeated operand and a top keeps all names when it is
negated. The mixed document has the names of its global axiom and of the two
axioms that are addressed, and a branch of it has no others. -/
theorem mixedModel_object_names :
    let A := Concept.atom ⟨"e:#A"⟩
    let B := Concept.restrict .existential (.inverse ⟨"e:#r"⟩) A
    let inclusion := Axiom.subClassOf (.inter [B, .inter [.top, A]]) (.compl B)
    let refutation := Axiom.classAssertion (.inter [B, A])
      (.anonymous (.fresh 0))
    inclusion.negation .full = .ok (refutation, ⟨1⟩) ∧
      Concept.inter [B, A] ≠ .bottom ∧
      refutation.signature = inclusion.signature ∧
    ofOntology .full mixedDocument = .ok (mixedModel, ⟨1⟩) ∧
      mixedModel.objectSignature = .unionAll Axiom.signature
        (mixedModel.globals ++
          mixedModel.namingConcepts.filterMap mixedModel.definition?) ∧
      mixedModel.branchOntology negativeFirst = .ok mixedSelection ∧
      mixedSelection.signature.Within mixedModel.objectSignature := by
  intro A B inclusion refutation
  obtain ⟨negations, models⟩ := negations_add_no_names
  have simplified : Concept.conjunction
      [.inter [B, .inter [.top, A]], (Concept.compl B).negation] =
        .inter [B, A] := by
    decide +kernel
  have made : inclusion.negation .full = .ok (refutation, ⟨1⟩) := by
    simp only [inclusion, refutation, Axiom.negation, simplified]
    rfl
  have proper : Concept.inter [B, A] ≠ .bottom := Concept.noConfusion
  obtain ⟨concept, member, asserted, same⟩ :=
    (negations _ _ _ _ made).2.2 _ _ rfl
  obtain ⟨rfl, rfl⟩ := Axiom.classAssertion.inj asserted
  have built : ofOntology .full mixedDocument = .ok (mixedModel, ⟨1⟩) := by
    decide +kernel
  have found : mixedModel.branchOntology negativeFirst = .ok mixedSelection :=
    by decide +kernel
  obtain ⟨object, branches⟩ := models _ _ _ _ built
  exact ⟨made, proper, same proper, built, object, found,
    branches _ _ found⟩

/-- An inclusion in the top has the bottom for the concept of its negation, and
then its names are lost. -/
example :
    let inclusion := Axiom.subClassOf (.atom ⟨"e:#A"⟩) .top
    inclusion.negation .full =
        .ok (.classAssertion .bottom (.anonymous (.fresh 0)), ⟨1⟩) ∧
      inclusion.signature = .ofClass ⟨"e:#A"⟩ := by
  decide +kernel

end ContextBase

end ContextDL
