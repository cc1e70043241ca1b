/-
Signatures: the names that concepts, axioms and ontologies mention.

A signature holds three sets of names, kept as lists without repetition:
classes, properties and individuals. One IRI may be in several of them. The
two reserved classes are never in a signature, and anonymous individuals have
no name to put there.

A signature says which names an axiom has, and not where or how often. The
mentions of an axiom are listed from left to right, and repeated as often as
they stand there. The reserved classes and the anonymous individuals have
their places too: they are the mentions without a name. The signatures of the
mentions make up the signature of the axiom (`Axiom.signature_eq_unionAll`).
-/
import ContextDL.Axiom

namespace ContextDL

/-- Joins two lists and leaves out of the second what the first holds. -/
def joinNames (xs ys : List Iri) : List Iri :=
  xs ++ ys.filter (!xs.contains ·)

/-- What either list holds, their join holds. -/
@[simp]
theorem mem_joinNames {x : Iri} {xs ys : List Iri} :
    x ∈ joinNames xs ys ↔ x ∈ xs ∨ x ∈ ys := by
  by_cases h : x ∈ xs <;> simp [joinNames, h]

theorem nil_joinNames (xs : List Iri) : joinNames [] xs = xs := by
  simp [joinNames]

theorem joinNames_nil (xs : List Iri) : joinNames xs [] = xs :=
  List.append_nil xs

theorem joinNames_assoc (xs ys zs : List Iri) :
    joinNames (joinNames xs ys) zs = joinNames xs (joinNames ys zs) := by
  simp only [joinNames, List.append_assoc, List.filter_append,
    List.filter_filter, List.append_cancel_left_eq]
  refine List.filter_congr fun z _ => ?_
  by_cases hx : z ∈ xs <;> simp [hx]

/-- The classes, properties and named individuals that something mentions. -/
structure Signature where
  classes : List Iri
  properties : List Iri
  individuals : List Iri
deriving DecidableEq

namespace Signature

-- ================================================================ construction

/-- The signature without names. -/
def empty : Signature :=
  ⟨[], [], []⟩

/-- The signature of one class. A reserved class has none. -/
def ofClass (name : Iri) : Signature :=
  if name.isReserved then empty else ⟨[name], [], []⟩

/-- The signature of one property. -/
def ofProperty (name : Iri) : Signature :=
  ⟨[], [name], []⟩

/-- The signature of one individual. An anonymous one has none. -/
def ofIndividual : Individual → Signature
  | .named iri => ⟨[], [], [iri]⟩
  | .anonymous _ => empty

/-- The names of two signatures. -/
def union (s t : Signature) : Signature :=
  ⟨joinNames s.classes t.classes, joinNames s.properties t.properties,
    joinNames s.individuals t.individuals⟩

instance : Union Signature :=
  ⟨union⟩

/-- The names of all members of a list. -/
def unionAll {α : Type} (signature : α → Signature) (xs : List α) :
    Signature :=
  xs.foldr (fun x s => signature x ∪ s) empty

-- ====================================================================== unions

theorem empty_union (s : Signature) : empty ∪ s = s := by
  simp only [Union.union, union, empty, nil_joinNames]

theorem union_empty (s : Signature) : s ∪ empty = s := by
  simp only [Union.union, union, empty, joinNames_nil]

theorem union_assoc (s t u : Signature) : s ∪ t ∪ u = s ∪ (t ∪ u) := by
  simp only [Union.union, union, joinNames_assoc]

section UnionAll

variable {α β : Type} {signature : α → Signature}

theorem unionAll_nil : unionAll signature [] = empty :=
  rfl

theorem unionAll_cons (x : α) (xs : List α) :
    unionAll signature (x :: xs) = signature x ∪ unionAll signature xs :=
  rfl

/-- A list in two parts has the names of both. -/
theorem unionAll_append (xs ys : List α) :
    unionAll signature (xs ++ ys) =
      unionAll signature xs ∪ unionAll signature ys := by
  induction xs with
  | nil => exact (empty_union _).symm
  | cons x xs ih =>
    rw [List.cons_append, unionAll_cons, unionAll_cons, ih, union_assoc]

theorem unionAll_map (f : β → α) (xs : List β) :
    unionAll signature (xs.map f) = unionAll (fun x => signature (f x)) xs :=
  List.foldr_map

/-- A list of lists has the names that the lists have. -/
theorem unionAll_flatMap (f : β → List α) (xs : List β) :
    unionAll signature (xs.flatMap f) =
      unionAll (fun x => unionAll signature (f x)) xs := by
  induction xs with
  | nil => rfl
  | cons x xs ih => rw [List.flatMap_cons, unionAll_append, unionAll_cons, ih]

theorem unionAll_congr {other : α → Signature} {xs : List α}
    (same : ∀ x ∈ xs, signature x = other x) :
    unionAll signature xs = unionAll other xs := by
  induction xs with
  | nil => rfl
  | cons x xs ih =>
    obtain ⟨head, tail⟩ := List.forall_mem_cons.1 same
    rw [unionAll_cons, unionAll_cons, head, ih tail]

end UnionAll

-- ===================================================================== queries

/-- A name that is a class, a property or an individual here. -/
def contains (s : Signature) (name : Iri) : Bool :=
  s.classes.contains name || s.properties.contains name ||
    s.individuals.contains name

/-- Some name of a list is in the signature. -/
def mentions (s : Signature) (names : List Iri) : Bool :=
  names.any s.contains

/-- How many names there are, each counted once for every way it is used. -/
def size (s : Signature) : Nat :=
  s.classes.length + s.properties.length + s.individuals.length

/-- There is no name. -/
def isEmpty (s : Signature) : Bool :=
  s.size == 0

-- ================================================================== membership

/-- The classes of two signatures. -/
@[simp]
theorem mem_classes_union {s t : Signature} {n : Iri} :
    n ∈ (s ∪ t).classes ↔ n ∈ s.classes ∨ n ∈ t.classes :=
  mem_joinNames

/-- The properties of two signatures. -/
@[simp]
theorem mem_properties_union {s t : Signature} {n : Iri} :
    n ∈ (s ∪ t).properties ↔ n ∈ s.properties ∨ n ∈ t.properties :=
  mem_joinNames

/-- The individuals of two signatures. -/
@[simp]
theorem mem_individuals_union {s t : Signature} {n : Iri} :
    n ∈ (s ∪ t).individuals ↔ n ∈ s.individuals ∨ n ∈ t.individuals :=
  mem_joinNames

/-- A name is in a signature if it is used in some way. -/
theorem contains_iff {s : Signature} {n : Iri} :
    s.contains n = true ↔
      n ∈ s.classes ∨ n ∈ s.properties ∨ n ∈ s.individuals := by
  simp [contains, or_assoc]

/-- Nothing is in the empty signature. -/
@[simp]
theorem contains_empty {n : Iri} : empty.contains n = false := rfl

/-- The names of two signatures. -/
@[simp]
theorem contains_union {s t : Signature} {n : Iri} :
    (s ∪ t).contains n = true ↔ s.contains n = true ∨ t.contains n = true := by
  simp only [contains_iff, mem_classes_union, mem_properties_union,
    mem_individuals_union]
  grind

/-- What a union has of each of its parts, and the empty signature has not, the
union over a list has of the members. -/
theorem unionAll_iff_exists {α : Type} {signature : α → Signature}
    {p : Signature → Prop} (join : ∀ s t, p (s ∪ t) ↔ p s ∨ p t)
    (none : ¬ p empty) {xs : List α} :
    p (unionAll signature xs) ↔ ∃ x ∈ xs, p (signature x) := by
  induction xs with
  | nil => exact iff_of_false none (by simp)
  | cons x xs ih =>
    rw [unionAll_cons, join, ih]
    simp only [List.mem_cons, exists_eq_or_imp]

/-- The names of a list of signatures. -/
@[simp]
theorem contains_unionAll {α : Type} {signature : α → Signature}
    {xs : List α} {n : Iri} :
    (unionAll signature xs).contains n = true ↔
      ∃ x ∈ xs, (signature x).contains n = true :=
  unionAll_iff_exists (p := fun s => s.contains n = true)
    (fun _ _ => contains_union) (by simp)

end Signature

-- ========================================================= concepts and axioms

/-- The property of a role. -/
def Role.signature (r : Role) : Signature :=
  .ofProperty r.property

namespace Concept

mutual

/-- The names in a concept. -/
def signature : Concept → Signature
  | .atom name => .ofClass name
  | .inter operands | .union operands => signatureAll operands
  | .compl operand => operand.signature
  | .oneOf members => .unionAll .ofIndividual members
  | .restrict _ role filler => role.signature ∪ filler.signature

/-- The names in a list of concepts. -/
def signatureAll : List Concept → Signature
  | [] => .empty
  | c :: cs => c.signature ∪ signatureAll cs

end

/-- The names in a list are those of its members. -/
theorem signatureAll_eq (cs : List Concept) :
    signatureAll cs = .unionAll signature cs := by
  induction cs with
  | nil => rfl
  | cons c cs ih => rw [signatureAll, ih]; rfl

end Concept

/-- The names in an axiom. -/
def Axiom.signature : Axiom → Signature
  | .subClassOf sub sup => sub.signature ∪ sup.signature
  | .equivalentClasses concepts | .disjointClasses concepts =>
    .unionAll Concept.signature concepts
  | .subPropertyOf sub sup => sub.signature ∪ sup.signature
  | .domain role concept | .range role concept =>
    role.signature ∪ concept.signature
  | .inverseProperties first second => .ofProperty first ∪ .ofProperty second
  | .transitive property => .ofProperty property
  | .classAssertion concept member => concept.signature ∪ .ofIndividual member
  | .roleAssertion role source target | .noRoleAssertion role source target =>
    role.signature ∪ .ofIndividual source ∪ .ofIndividual target
  | .sameIndividual individuals | .differentIndividuals individuals =>
    .unionAll .ofIndividual individuals
  | .hasKey concept roles =>
    concept.signature ∪ .unionAll Role.signature roles
  | .declareClass name => .ofClass name
  | .declareProperty name => .ofProperty name
  | .declareIndividual individual => .ofIndividual individual

-- ==================================================================== mentions

/-- What stands at one place. -/
inductive Mention where
  | className (name : Iri)
  | property (name : Iri)
  | individual (a : Individual)
deriving DecidableEq

/-- The name at a place, as what it is. The reserved classes and the anonymous
individuals have none. -/
def Mention.signature : Mention → Signature
  | .className name => .ofClass name
  | .property name => .ofProperty name
  | .individual a => .ofIndividual a

/-- The place of the property in a role. -/
def Role.mention (r : Role) : Mention :=
  .property r.property

namespace Concept

mutual

/-- The places in a concept. -/
def mentions : Concept → List Mention
  | .atom name => [.className name]
  | .inter operands | .union operands => mentionsAll operands
  | .compl operand => operand.mentions
  | .oneOf members => members.map .individual
  | .restrict _ role filler => role.mention :: filler.mentions

/-- The places in a list of concepts. -/
def mentionsAll : List Concept → List Mention
  | [] => []
  | c :: cs => c.mentions ++ mentionsAll cs

end

/-- The places in a list are those in its members. -/
theorem mentionsAll_eq (cs : List Concept) :
    mentionsAll cs = cs.flatMap mentions := by
  induction cs with
  | nil => rfl
  | cons c cs ih => rw [mentionsAll, ih]; rfl

/-- The names in a concept are those at its places. -/
theorem signature_eq_unionAll (c : Concept) :
    c.signature = .unionAll Mention.signature c.mentions := by
  induction c with
  | atom name => exact (Signature.union_empty _).symm
  | inter cs ih | union cs ih =>
    rw [signature, signatureAll_eq, mentions, mentionsAll_eq,
      Signature.unionAll_flatMap]
    exact Signature.unionAll_congr ih
  | compl c ih => exact ih
  | oneOf members =>
    rw [signature, mentions, Signature.unionAll_map]
    rfl
  | restrict quantifier r c ih =>
    rw [signature, mentions, Signature.unionAll_cons, ih]
    rfl

end Concept

/-- The places in an axiom. -/
def Axiom.mentions : Axiom → List Mention
  | .subClassOf sub sup => sub.mentions ++ sup.mentions
  | .equivalentClasses concepts | .disjointClasses concepts =>
    concepts.flatMap Concept.mentions
  | .subPropertyOf sub sup => [sub.mention, sup.mention]
  | .domain role concept | .range role concept =>
    role.mention :: concept.mentions
  | .inverseProperties first second => [.property first, .property second]
  | .transitive property => [.property property]
  | .classAssertion concept member => concept.mentions ++ [.individual member]
  | .roleAssertion role source target | .noRoleAssertion role source target =>
    [role.mention, .individual source, .individual target]
  | .sameIndividual individuals | .differentIndividuals individuals =>
    individuals.map .individual
  | .hasKey concept roles => concept.mentions ++ roles.map Role.mention
  | .declareClass name => [.className name]
  | .declareProperty name => [.property name]
  | .declareIndividual individual => [.individual individual]

/-- The names in an axiom are those at its places. -/
theorem Axiom.signature_eq_unionAll (a : Axiom) :
    a.signature = .unionAll Mention.signature a.mentions := by
  have concept : Concept.signature =
      fun c => .unionAll Mention.signature c.mentions :=
    funext Concept.signature_eq_unionAll
  cases a <;> simp only [signature, mentions, concept, Signature.union_assoc,
    Signature.unionAll_append, Signature.unionAll_cons,
    Signature.unionAll_nil, Signature.union_empty, Signature.unionAll_map,
    Signature.unionAll_flatMap] <;> rfl

end ContextDL
