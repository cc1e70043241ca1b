/-
Axioms: the sentences of an ontology.

Axioms relate concepts, relate roles, or say something of individuals.
Declarations only introduce a name and have no logical content. Inclusions and
assertions are written as the surface reader accepts them, the other axioms in
a functional style.

# Negation

An assertion is negated by negating its concept or by denying its role. An
inclusion fails if some individual belongs to the one concept and not to the
other, so its negation asserts just that of a new anonymous individual. No
other axiom has a negation that is a single axiom.
-/
import ContextDL.Concept.Negation
import ContextDL.Concept.Printer

namespace ContextDL

-- ====================================================================== axioms

/-- A sentence of an ontology. -/
inductive Axiom where
  | subClassOf (sub sup : Concept)
  | equivalentClasses (concepts : List Concept)
  | disjointClasses (concepts : List Concept)
  | subPropertyOf (sub sup : Role)
  | domain (role : Role) (concept : Concept)
  | range (role : Role) (concept : Concept)
  | inverseProperties (first second : Iri)
  | transitive (property : Iri)
  | classAssertion (concept : Concept) (member : Individual)
  | roleAssertion (role : Role) (source target : Individual)
  | noRoleAssertion (role : Role) (source target : Individual)
  | sameIndividual (individuals : List Individual)
  | differentIndividuals (individuals : List Individual)
  /-- The members of a concept are told apart by what these roles reach. -/
  | hasKey (concept : Concept) (roles : List Role)
  | declareClass (name : Iri)
  | declareProperty (name : Iri)
  | declareIndividual (individual : Individual)
deriving DecidableEq

namespace Axiom

/-- The name of an axiom's constructor in the functional style. -/
def kind : Axiom → String
  | .subClassOf .. => "SubClassOf"
  | .equivalentClasses _ => "EquivalentClasses"
  | .disjointClasses _ => "DisjointClasses"
  | .subPropertyOf .. => "SubObjectPropertyOf"
  | .domain .. => "ObjectPropertyDomain"
  | .range .. => "ObjectPropertyRange"
  | .inverseProperties .. => "InverseObjectProperties"
  | .transitive _ => "TransitiveObjectProperty"
  | .classAssertion .. => "ClassAssertion"
  | .roleAssertion .. => "ObjectPropertyAssertion"
  | .noRoleAssertion .. => "NegativeObjectPropertyAssertion"
  | .sameIndividual _ => "SameIndividual"
  | .differentIndividuals _ => "DifferentIndividuals"
  | .hasKey .. => "HasKey"
  | .declareClass _ => "DeclareClass"
  | .declareProperty _ => "DeclareObjectProperty"
  | .declareIndividual _ => "DeclareNamedIndividual"

/-- All axioms but the declarations are logical. -/
def isLogical : Axiom → Bool
  | .declareClass _ | .declareProperty _ | .declareIndividual _ => false
  | _ => true

end Axiom

-- ================================================================ written form

/-- A word and its arguments in parentheses. -/
def applied (word : String) (arguments : List (List Char)) : List Char :=
  word.toList ++ bracketed (listed arguments)

/-- A concept in front of its argument: in parentheses, unless it is an
atom. -/
def Concept.headChars (c : Concept) : List Char :=
  if c.isAtom then c.chars else bracketed c.chars

/-- A role in front of its arguments: in parentheses, unless it is a
property. -/
def Role.headChars (r : Role) : List Char :=
  if r.isNamed then r.chars else bracketed r.chars

/-- A role and the two individuals that it is said to relate. -/
def Role.pairChars (r : Role) (source target : Individual) : List Char :=
  r.headChars ++ bracketed (source.chars ++ ',' :: target.chars)

-- ===================================================================== nesting

/-- How deeply a concept is nested in front of its argument: the parentheses
that it may need there are a level of their own. -/
def Concept.headNesting (c : Concept) : Nat :=
  if c.isAtom then 0 else c.nesting + 1

/-- How deeply a role is nested in front of its arguments. -/
def Role.headNesting (r : Role) : Nat :=
  if r.isNamed then 0 else 1

/-- How deeply the written form of an inclusion or an assertion is nested. The
parentheses around arguments hold names and nothing else, and are not counted.
Axioms of other kinds are not read, and have no nesting. -/
def Axiom.nesting : Axiom → Nat
  | .subClassOf sub sup => max sub.nesting sup.nesting
  | .classAssertion concept _ => concept.headNesting
  | .roleAssertion role _ _ => role.headNesting
  | _ => 0

namespace Axiom

/-- The written form of an axiom. -/
def chars : Axiom → List Char
  | .subClassOf sub sup => sub.chars ++ " ⊑ ".toList ++ sup.chars
  | .equivalentClasses concepts =>
    applied "EquivalentClasses" (concepts.map Concept.chars)
  | .disjointClasses concepts =>
    applied "DisjointClasses" (concepts.map Concept.chars)
  | .subPropertyOf sub sup => sub.chars ++ " ⊑ ".toList ++ sup.chars
  | .domain role concept => applied "Domain" [role.chars, concept.chars]
  | .range role concept => applied "Range" [role.chars, concept.chars]
  | .inverseProperties first second =>
    applied "InverseObjectProperties" [first.localName, second.localName]
  | .transitive property => applied "Transitive" [property.localName]
  | .classAssertion concept member =>
    concept.headChars ++ bracketed member.chars
  | .roleAssertion role source target => role.pairChars source target
  | .noRoleAssertion role source target => '¬' :: role.pairChars source target
  | .sameIndividual individuals =>
    applied "SameIndividual" (individuals.map Individual.chars)
  | .differentIndividuals individuals =>
    applied "DifferentIndividuals" (individuals.map Individual.chars)
  | .hasKey concept roles =>
    applied "HasKey" [concept.chars, bracketed (listed (roles.map Role.chars))]
  | .declareClass name =>
    applied "Declaration" [applied "Class" [name.classChars]]
  | .declareProperty name =>
    applied "Declaration" [applied "ObjectProperty" [name.localName]]
  | .declareIndividual individual =>
    applied "Declaration" [applied "NamedIndividual" [individual.chars]]

/-- The text of an axiom. -/
def text (a : Axiom) : String :=
  String.ofList a.chars

-- ==================================================================== negation

/-- The axiom that fails to have a negation. -/
structure NoNegation where
  body : Axiom
deriving DecidableEq

/-- The sentence that reports an axiom without a negation. -/
def NoNegation.message (e : NoNegation) : String :=
  "no negation rule for " ++ e.body.kind ++ " axioms: " ++ e.body.text

/-- The negation of an axiom, and the supply left after it. Only an inclusion
takes an individual. -/
def negation (supply : Supply) : Axiom → Except NoNegation (Axiom × Supply)
  | .classAssertion concept member =>
    .ok (.classAssertion concept.negation member, supply)
  | .subClassOf sub sup =>
    let (witness, supply) := Individual.new supply
    .ok (.classAssertion (Concept.conjunction [sub, sup.negation]) witness,
      supply)
  | .roleAssertion role source target =>
    .ok (.noRoleAssertion role source target, supply)
  | .noRoleAssertion role source target =>
    .ok (.roleAssertion role source target, supply)
  | a => .error ⟨a⟩

end Axiom

end ContextDL
