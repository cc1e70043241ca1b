/-
Context models.

A context model splits a contextual ontology in three. Statements that a
naming concept addresses are its definitions: the axiom is kept under the
concept, and the negation of the axiom under the dual name of the concept.
Global statements belong to every branch. The other logical statements make
up the meta level. Declarations are left out.

Statements are taken in order, and the first that is at fault ends the work.
The new individuals of the negations come from a supply.
-/
import ContextDL.Dual
import ContextDL.Ontology

namespace ContextDL

-- ====================================================================== errors

/-- Why an ontology has no context model, or a branch no object ontology. -/
inductive ContextError where
  | multipleDefinitions (body : Axiom)
  | literalDefinition (body : Axiom) (value : Literal)
  | addressedGlobal (body : Axiom)
  | reserved (concept : Iri)
  | duplicate (concept : Iri)
  | noNegation (concept : Iri) (source : Axiom.NoNegation)
  | unregistered (concept : Iri)
  | conflict (concept : Iri)
deriving DecidableEq

/-- The sentence that reports an error. -/
def ContextError.message : ContextError → String
  | .multipleDefinitions body =>
    "the axiom " ++ body.text ++ " is defined by more than one naming concept"
  | .literalDefinition body value =>
    "the axiom " ++ body.text ++ " is defined by " ++ value.written ++
      ", which is not a concept IRI"
  | .addressedGlobal body =>
    "the axiom " ++ body.text ++
      " is both addressed by a naming concept and global"
  | .reserved concept =>
    concept.quoted ++ " cannot be used as a naming concept"
  | .duplicate concept =>
    "the naming concept " ++ concept.quoted ++ " defines more than one axiom"
  | .noNegation concept source =>
    "the axiom addressed by " ++ concept.quoted ++ " has no negation: " ++
      source.message
  | .unregistered concept =>
    concept.quoted ++ " is not a registered naming concept"
  | .conflict concept =>
    concept.quoted ++ " is both positive and negative in the same type"

-- ======================================================================= parts

/-- The part of a contextual ontology that a statement belongs to. -/
inductive Part where
  /-- Declarations belong to none. -/
  | outside
  /-- The axioms on the contexts themselves. -/
  | metaLevel
  /-- The axioms of all branches. -/
  | everywhere
  | addressed (concept : Iri)
deriving DecidableEq

/-- The part of a statement, which its notes decide. The values of its
`definedBy` notes count once each. -/
def Statement.part (s : Statement) : Except ContextError Part :=
  if !s.body.isLogical then .ok .outside
  else match s.definedBy.eraseDups with
    | [] => .ok (if s.isGlobal then .everywhere else .metaLevel)
    | value :: others =>
      if s.isGlobal then .error (.addressedGlobal s.body)
      else match value, others with
        | .iri concept, [] => .ok (.addressed concept)
        | .literal content, [] => .error (.literalDefinition s.body content)
        | _, _ :: _ => .error (.multipleDefinitions s.body)

-- ====================================================================== models

/-- A concept, the axiom that it addresses, and the negation of the axiom. -/
structure Definition where
  concept : Iri
  body : Axiom
  /-- The axiom that the dual name of the concept addresses. -/
  negation : Axiom
deriving DecidableEq

/-- A contextual ontology, split into its parts. -/
structure ContextBase where
  iri : Option Iri
  metaAxioms : List Axiom
  definitions : List Definition
  globals : List Axiom
  rigid : List Iri
deriving DecidableEq

namespace ContextBase

-- ==================================================================== building

/-- The model of an ontology without statements. -/
def start (o : Ontology) : ContextBase :=
  ⟨o.iri, [], [], [], o.rigid⟩

/-- The concepts that address an axiom, in order. -/
def namingConcepts (m : ContextBase) : List Iri :=
  m.definitions.map Definition.concept

/-- A concept that addresses an axiom. -/
def isNaming (m : ContextBase) (concept : Iri) : Bool :=
  m.namingConcepts.contains concept

/-- A concept that may not address an axiom. -/
def isUnfit (concept : Iri) : Bool :=
  concept.isReserved || concept.isDual

/-- Adds a definition. -/
def define (m : ContextBase) (supply : Supply) (concept : Iri)
    (body : Axiom) : Except ContextError (ContextBase × Supply) :=
  if isUnfit concept then .error (.reserved concept)
  else if m.isNaming concept then .error (.duplicate concept)
  else match body.negation supply with
    | .error e => .error (.noNegation concept e)
    | .ok (negation, supply) =>
      let definition : Definition := ⟨concept, body, negation⟩
      .ok ({ m with definitions := m.definitions ++ [definition] }, supply)

/-- Adds a statement to the part that it belongs to. -/
def addStatement (m : ContextBase) (supply : Supply) (s : Statement) :
    Except ContextError (ContextBase × Supply) := do
  match ← s.part with
  | .outside => return (m, supply)
  | .metaLevel =>
    return ({ m with metaAxioms := m.metaAxioms ++ [s.body] }, supply)
  | .everywhere =>
    if m.globals.contains s.body then return (m, supply)
    else return ({ m with globals := m.globals ++ [s.body] }, supply)
  | .addressed concept => m.define supply concept s.body

/-- Adds statements in order. -/
def addStatements (m : ContextBase) (supply : Supply)
    (statements : List Statement) :
    Except ContextError (ContextBase × Supply) :=
  statements.foldlM (fun state s => addStatement state.1 state.2 s) (m, supply)

/-- The model of an ontology, and the supply left after it. -/
def ofOntology (supply : Supply) (o : Ontology) :
    Except ContextError (ContextBase × Supply) :=
  addStatements (start o) supply o.statements

-- ===================================================================== lookups

/-- Every name that an axiom is kept under, and the axiom. -/
def registry (m : ContextBase) : List (Iri × Axiom) :=
  m.definitions.flatMap fun d =>
    [(d.concept, d.body), (d.concept.dual, d.negation)]

/-- The axiom that is kept under a naming concept or a dual name. -/
def definition? (m : ContextBase) (name : Iri) : Option Axiom :=
  m.registry.lookup name

/-- The name that the negation of a concept's axiom is kept under. -/
def dualName (m : ContextBase) (concept : Iri) : Except ContextError Iri :=
  if m.isNaming concept then .ok concept.dual
  else .error (.unregistered concept)

/-- The meta level as an ontology. It keeps the name of the document and the
labels of its rigid entities. -/
def metaOntology (m : ContextBase) : Ontology :=
  m.rigid.foldl Ontology.markRigid
    ((Ontology.ofAxioms m.metaAxioms).setIri m.iri)

-- ======================================================================= names

/-- The names of the meta level. -/
def metaSignature (m : ContextBase) : Signature :=
  .unionAll Axiom.signature m.metaAxioms

/-- The names of the global axioms, the definitions and their negations. -/
def objectSignature (m : ContextBase) : Signature :=
  .unionAll Axiom.signature (m.globals ++ m.registry.map (·.2))

/-- The classes of both levels. -/
def classes (m : ContextBase) : List Iri :=
  joinNames m.metaSignature.classes m.objectSignature.classes

/-- The properties of both levels. -/
def properties (m : ContextBase) : List Iri :=
  joinNames m.metaSignature.properties m.objectSignature.properties

/-- The classes of the object level that are labelled rigid. -/
def rigidClasses (m : ContextBase) : List Iri :=
  m.objectSignature.classes.filter m.rigid.contains

/-- The properties of the object level that are labelled rigid. -/
def rigidProperties (m : ContextBase) : List Iri :=
  m.objectSignature.properties.filter m.rigid.contains

/-- The classes of the object level that are not labelled rigid. -/
def flexibleClasses (m : ContextBase) : List Iri :=
  m.objectSignature.classes.filter (!m.rigid.contains ·)

/-- The properties of the object level that are not labelled rigid. -/
def flexibleProperties (m : ContextBase) : List Iri :=
  m.objectSignature.properties.filter (!m.rigid.contains ·)

/-- The classes and properties that every branch has a copy of. Individuals
are shared by all branches and never flexible. -/
def flexibleNames (m : ContextBase) : List Iri :=
  joinNames m.flexibleClasses m.flexibleProperties

/-- The object level mentions a rigid class or property. -/
def hasRigidNames (m : ContextBase) : Bool :=
  !m.rigidClasses.isEmpty || !m.rigidProperties.isEmpty

end ContextBase

end ContextDL
