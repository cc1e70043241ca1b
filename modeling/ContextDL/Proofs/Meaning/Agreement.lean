/-
Coincidence: what a concept or an axiom says depends only on the names and
the blank nodes in it.

Two interpretations of one domain agree on a signature if they read its
classes, properties and individuals alike. `Concept.holds_congr` and
`Axiom.satisfied_congr` say that such interpretations cannot be told apart by
anything over that signature, provided that they also read the blank nodes in
it alike. The reserved classes need no agreement: they are in no signature,
and every interpretation reads them the same way.

A signature leaves blank nodes out, so `Concept.nodes` and `Axiom.nodes`
collect them here. Interpretations that read all blank nodes alike need to
agree on nothing but the signature (`Interpretation.coincidence`).
-/
import ContextDL.Semantics
import ContextDL.Signature

namespace ContextDL

universe u

variable {α : Type u}

-- ================================================================= blank nodes

/-- The blank node of an anonymous individual. -/
def Individual.nodes : Individual → List BlankNode
  | .named _ => []
  | .anonymous node => [node]

namespace Concept

mutual

/-- The blank nodes in a concept. -/
def nodes : Concept → List BlankNode
  | .atom _ => []
  | .inter operands | .union operands => nodesAll operands
  | .compl operand => operand.nodes
  | .oneOf members => members.flatMap Individual.nodes
  | .restrict _ _ filler => filler.nodes

/-- The blank nodes in a list of concepts. -/
def nodesAll : List Concept → List BlankNode
  | [] => []
  | c :: cs => c.nodes ++ nodesAll cs

end

/-- The blank nodes in a list are those in its members. -/
theorem nodesAll_eq (cs : List Concept) : nodesAll cs = cs.flatMap nodes := by
  induction cs with
  | nil => rfl
  | cons c cs ih => rw [nodesAll, ih]; rfl

end Concept

/-- The blank nodes in an axiom. -/
def Axiom.nodes : Axiom → List BlankNode
  | .subClassOf sub sup => sub.nodes ++ sup.nodes
  | .equivalentClasses concepts | .disjointClasses concepts =>
    concepts.flatMap Concept.nodes
  | .domain _ concept | .range _ concept | .hasKey concept _ => concept.nodes
  | .classAssertion concept member => concept.nodes ++ member.nodes
  | .roleAssertion _ source target | .noRoleAssertion _ source target =>
    source.nodes ++ target.nodes
  | .sameIndividual individuals | .differentIndividuals individuals =>
    individuals.flatMap Individual.nodes
  | .declareIndividual individual => individual.nodes
  | .subPropertyOf .. | .inverseProperties .. | .transitive _
  | .declareClass _ | .declareProperty _ => []

-- =================================================================== agreement

/-- Two interpretations read the names of a signature alike. -/
structure Interpretation.Agree (I J : Interpretation α) (s : Signature) :
    Prop where
  classes : ∀ n ∈ s.classes, I.classes n = J.classes n
  properties : ∀ n ∈ s.properties, I.properties n = J.properties n
  individuals : ∀ n ∈ s.individuals, I.individuals n = J.individuals n

namespace Interpretation.Agree

variable {I J : Interpretation α}

/-- To agree on two signatures is to agree on each. -/
@[simp]
theorem union_iff {s t : Signature} :
    I.Agree J (s ∪ t) ↔ I.Agree J s ∧ I.Agree J t := by
  constructor
  · intro h
    obtain ⟨hc, hp, hi⟩ := h
    simp only [Signature.mem_classes_union, Signature.mem_properties_union,
      Signature.mem_individuals_union] at hc hp hi
    exact ⟨⟨fun n h => hc n (.inl h), fun n h => hp n (.inl h),
        fun n h => hi n (.inl h)⟩,
      ⟨fun n h => hc n (.inr h), fun n h => hp n (.inr h),
        fun n h => hi n (.inr h)⟩⟩
  · intro h
    obtain ⟨hs, ht⟩ := h
    constructor
    · intro n hn
      exact (Signature.mem_classes_union.1 hn).elim (hs.classes n)
        (ht.classes n)
    · intro n hn
      exact (Signature.mem_properties_union.1 hn).elim (hs.properties n)
        (ht.properties n)
    · intro n hn
      exact (Signature.mem_individuals_union.1 hn).elim (hs.individuals n)
        (ht.individuals n)

/-- To agree on the names of a list is to agree on those of each member. -/
@[simp]
theorem unionAll_iff {β : Type} {signature : β → Signature} {xs : List β} :
    I.Agree J (.unionAll signature xs) ↔
      ∀ x ∈ xs, I.Agree J (signature x) := by
  induction xs with
  | nil => simp only [List.not_mem_nil, false_implies, implies_true, iff_true]
           exact ⟨by simp [Signature.unionAll, Signature.empty],
             by simp [Signature.unionAll, Signature.empty],
             by simp [Signature.unionAll, Signature.empty]⟩
  | cons x xs ih =>
    have step : Signature.unionAll signature (x :: xs) =
        signature x ∪ Signature.unionAll signature xs := rfl
    rw [step, union_iff, ih, List.forall_mem_cons]

/-- Every class is read alike whose own signature is agreed on. A reserved
class has none, but only one reading. -/
theorem of_ofClass {n : Iri} (h : I.Agree J (.ofClass n)) (x : α) :
    I.classes n x ↔ J.classes n x := by
  by_cases reserved : n.isReserved
  · rw [Iri.isReserved, Bool.or_eq_true, decide_eq_true_eq,
      decide_eq_true_eq] at reserved
    rcases reserved with rfl | rfl
    · exact iff_of_true (I.thing x) (J.thing x)
    · exact iff_of_false (I.nothing x) (J.nothing x)
  · rw [h.classes n (by simp [Signature.ofClass, reserved])]

/-- Every property is read alike that is agreed on. -/
theorem of_ofProperty {n : Iri} (h : I.Agree J (.ofProperty n)) (x y : α) :
    I.properties n x y ↔ J.properties n x y := by
  rw [h.properties n (by simp [Signature.ofProperty])]

/-- Every individual is read alike whose name or blank node is. -/
theorem denote_eq {a : Individual} (names : I.Agree J (.ofIndividual a))
    (nodes : ∀ b ∈ a.nodes, I.nodes b = J.nodes b) :
    a.denote I = a.denote J := by
  cases a with
  | named n => exact names.individuals n (by simp [Signature.ofIndividual])
  | anonymous b => exact nodes b (by simp [Individual.nodes])

/-- Every role is read alike whose property is. -/
theorem relates_iff {r : Role} (h : I.Agree J r.signature) (x y : α) :
    r.Relates I x y ↔ r.Relates J x y := by
  cases r with
  | named p => exact of_ofProperty h x y
  | inverse p => exact of_ofProperty h y x

end Interpretation.Agree

-- ================================================================= coincidence

/-- A quantifier depends only on which elements are reached and which are
fillers. -/
theorem Quantifier.counts_congr {p p' q q' : α → Prop}
    (hp : ∀ y, p y ↔ p' y) (hq : ∀ y, q y ↔ q' y) (n : Quantifier) :
    n.Counts p q ↔ n.Counts p' q' := by
  rw [funext fun y => propext (hp y), funext fun y => propext (hq y)]

open Interpretation in
/-- Interpretations that agree on the names and blank nodes in a concept give
it the same members. -/
theorem Concept.holds_congr {I J : Interpretation α} {c : Concept}
    (names : I.Agree J c.signature)
    (nodes : ∀ b ∈ c.nodes, I.nodes b = J.nodes b) (x : α) :
    c.Holds I x ↔ c.Holds J x := by
  induction c generalizing x with
  | atom n => exact names.of_ofClass x
  | inter cs ih =>
    rw [holds_inter, holds_inter]
    rw [signature, signatureAll_eq, Agree.unionAll_iff] at names
    rw [Concept.nodes, nodesAll_eq] at nodes
    refine forall₂_congr fun c hc => ih c hc (names c hc) (fun b hb => ?_) x
    exact nodes b (List.mem_flatMap_of_mem hc hb)
  | union cs ih =>
    rw [holds_union, holds_union]
    rw [signature, signatureAll_eq, Agree.unionAll_iff] at names
    rw [Concept.nodes, nodesAll_eq] at nodes
    refine exists_congr fun c => and_congr_right fun hc =>
      ih c hc (names c hc) (fun b hb => ?_) x
    exact nodes b (List.mem_flatMap_of_mem hc hb)
  | compl c ih =>
    rw [Holds, Holds, ih names nodes x]
  | oneOf members =>
    rw [signature, Agree.unionAll_iff] at names
    rw [Concept.nodes] at nodes
    rw [Holds, Holds]
    refine exists_congr fun a => and_congr_right fun ha => ?_
    rw [(names a ha).denote_eq fun b hb =>
      nodes b (List.mem_flatMap_of_mem ha hb)]
  | restrict n r c ih =>
    rw [signature, Agree.union_iff] at names
    rw [Holds, Holds]
    exact n.counts_congr (fun y => names.1.relates_iff x y)
      fun y => ih names.2 nodes y

/-- Interpretations that agree on the names and blank nodes in an axiom do not
differ in whether it is true. -/
theorem Axiom.satisfied_congr {I J : Interpretation α} {a : Axiom}
    (names : I.Agree J a.signature)
    (nodes : ∀ b ∈ a.nodes, I.nodes b = J.nodes b) :
    a.Satisfied I ↔ a.Satisfied J := by
  cases a <;> simp only [Axiom.signature, Axiom.nodes,
    Interpretation.Agree.union_iff, Interpretation.Agree.unionAll_iff,
    List.mem_append, List.mem_flatMap, or_imp, forall_and, forall_exists_index,
    and_imp] at names nodes
  case subClassOf c d =>
    have hc := Concept.holds_congr names.1 nodes.1
    have hd := Concept.holds_congr names.2 nodes.2
    exact forall_congr' fun x => imp_congr (hc x) (hd x)
  case equivalentClasses cs =>
    have hcs (c : Concept) (hc : c ∈ cs) :=
      Concept.holds_congr (names c hc) fun b hb => nodes b c hc hb
    refine forall₂_congr fun c hc => forall₂_congr fun d hd => ?_
    exact forall_congr' fun x => iff_congr (hcs c hc x) (hcs d hd x)
  case disjointClasses cs =>
    have hcs (c : Concept) (hc : c ∈ cs) :=
      Concept.holds_congr (names c hc) fun b hb => nodes b c hc hb
    refine List.Pairwise.iff_of_mem fun {c d} hc hd => ?_
    exact forall_congr' fun x =>
      not_congr (and_congr (hcs c hc x) (hcs d hd x))
  case subPropertyOf r s =>
    exact forall₂_congr fun x y =>
      imp_congr (names.1.relates_iff x y) (names.2.relates_iff x y)
  case domain r c =>
    have hc := Concept.holds_congr names.2 nodes
    exact forall₂_congr fun x y =>
      imp_congr (names.1.relates_iff x y) (hc x)
  case range r c =>
    have hc := Concept.holds_congr names.2 nodes
    exact forall₂_congr fun x y =>
      imp_congr (names.1.relates_iff x y) (hc y)
  case inverseProperties p q =>
    exact forall₂_congr fun x y =>
      iff_congr (names.1.of_ofProperty x y) (names.2.of_ofProperty y x)
  case transitive p =>
    exact forall₃_congr fun x y z =>
      imp_congr (names.of_ofProperty x y)
        (imp_congr (names.of_ofProperty y z) (names.of_ofProperty x z))
  case classAssertion c a =>
    have ha := names.2.denote_eq nodes.2
    rw [Axiom.Satisfied, Axiom.Satisfied, ha]
    exact Concept.holds_congr names.1 nodes.1 _
  case roleAssertion r a b =>
    have ha := names.1.2.denote_eq nodes.1
    have hb := names.2.denote_eq nodes.2
    rw [Axiom.Satisfied, Axiom.Satisfied, ha, hb]
    exact names.1.1.relates_iff _ _
  case noRoleAssertion r a b =>
    have ha := names.1.2.denote_eq nodes.1
    have hb := names.2.denote_eq nodes.2
    rw [Axiom.Satisfied, Axiom.Satisfied, ha, hb]
    exact not_congr (names.1.1.relates_iff _ _)
  case sameIndividual as =>
    have has (a : Individual) (ha : a ∈ as) :=
      (names a ha).denote_eq fun b hb => nodes b a ha hb
    refine forall₂_congr fun a ha => forall₂_congr fun b hb => ?_
    rw [has a ha, has b hb]
  case differentIndividuals as =>
    have has (a : Individual) (ha : a ∈ as) :=
      (names a ha).denote_eq fun b hb => nodes b a ha hb
    refine List.Pairwise.iff_of_mem fun {a b} ha hb => ?_
    rw [has a ha, has b hb]
  case hasKey c roles =>
    have hc := Concept.holds_congr names.1 nodes
    refine forall₂_congr fun x y => imp_congr (hc x) (imp_congr (hc y) ?_)
    refine imp_congr (forall₂_congr fun r hr => ?_) Iff.rfl
    exact exists_congr fun z => and_congr
      ((names.2 r hr).relates_iff x z) ((names.2 r hr).relates_iff y z)
  all_goals rfl

/-- A signature has all the names that matter. Interpretations of one domain
that agree on the signature of an axiom and on all blank nodes cannot differ in
whether the axiom is true, and those that agree on the signature of a concept
give it the same members. -/
theorem Interpretation.coincidence {I J : Interpretation α}
    (nodes : ∀ b, I.nodes b = J.nodes b) :
    (∀ a : Axiom, I.Agree J a.signature →
      (a.Satisfied I ↔ a.Satisfied J)) ∧
    ∀ c : Concept, I.Agree J c.signature →
      ∀ x, c.Holds I x ↔ c.Holds J x := by
  constructor
  · intro a names
    exact Axiom.satisfied_congr names fun b _ => nodes b
  · intro c names
    exact Concept.holds_congr names fun b _ => nodes b

/-- An interpretation in which `p` relates each of two elements to itself, and
one class has all elements or none. -/
def Interpretation.loops (everything : Bool) : Interpretation Bool where
  classes n _ := n = Iri.thing ∨ (n = ⟨"e:#C"⟩ ∧ everything = true)
  properties n x y := n = ⟨"e:#p"⟩ ∧ x = y
  individuals _ := true
  nodes _ := false
  thing _ := .inl rfl
  nothing _ := by cases everything <;> decide

/-- A key over a nominal and a counted inverse role is read alike whatever the
class `C` has for members, and so is the concept in it. An assertion of `C` is
not: `C` is in its signature. -/
theorem Interpretation.coincidence_loops :
    let I := loops true
    let J := loops false
    let c : Concept := .restrict (.exactly 1) (.inverse ⟨"e:#p"⟩)
      (.oneOf [.named ⟨"e:#a"⟩, .anonymous (.labelled "b")])
    let key : Axiom := .hasKey c [.named ⟨"e:#p"⟩]
    let other : Axiom :=
      .classAssertion (.atom ⟨"e:#C"⟩) (.anonymous (.labelled "b"))
    (∀ b, I.nodes b = J.nodes b) ∧ I.Agree J key.signature ∧
    (key.Satisfied I ↔ key.Satisfied J) ∧ I.Agree J c.signature ∧
    (c.Holds I true ↔ c.Holds J true) ∧
    ¬ (other.Satisfied I ↔ other.Satisfied J) := by
  intro I J c key other
  have noClass (s : Signature) (h : s.classes = []) : I.Agree J s :=
    ⟨by simp [h], fun _ _ => rfl, fun _ _ => rfl⟩
  have nodes (b : BlankNode) : I.nodes b = J.nodes b := rfl
  obtain ⟨axioms, concepts⟩ := coincidence nodes
  have hkey : I.Agree J key.signature := noClass _ (by decide +kernel)
  have hc : I.Agree J c.signature := noClass _ (by decide +kernel)
  refine ⟨nodes, hkey, axioms key hkey, hc, concepts c hc true, fun same => ?_⟩
  have asserted : other.Satisfied I := .inr ⟨rfl, rfl⟩
  rcases same.1 asserted with thing | ⟨-, never⟩
  · exact absurd thing (by decide)
  · cases never

end ContextDL
