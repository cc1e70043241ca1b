/-
Renaming: giving each branch its own copy of some names.

Copy `n` of a name is the name, a separator and the number `n`. To rename an
ontology is to add, for every copy, the statements that mention one of the
names, with the names of the copy, and then to take the statements away that
were copied. Statements that a naming concept addresses are left as they are.

A copy fails if one of its names is no IRI or is used in the ontology
already; it is skipped with a warning. If all copies fail, nothing changes.

# The run

The copies are made from the ontology as it was, and merged one after the
other (`Renaming.merge`). What is to go is marked before the first copy is
merged: a mark for each statement that there was then. The marks are looked at
by position when all copies are merged (`Renaming.finish`), so a statement
goes or stays for where it stands, and not for what it says.
-/
import ContextDL.Iri.Grammar
import ContextDL.Ontology

namespace ContextDL

-- ====================================================================== errors

/-- Why a copy cannot be made. -/
inductive Renaming.Failure where
  | invalidName (name : Iri) (copy : Nat) (fault : Iri.Fault)
  | collision (name renamed : Iri) (copy : Nat)
deriving DecidableEq

/-- The sentence that reports a failed copy. -/
def Renaming.Failure.message : Renaming.Failure → String
  | .invalidName name copy fault =>
    "the name " ++ name.text ++ " cannot be renamed for copy " ++
      String.ofList (Text.decimal copy) ++ ": " ++ fault.message
  | .collision name renamed copy =>
    "copy " ++ String.ofList (Text.decimal copy) ++ " of " ++ name.quoted ++
      " is named " ++ renamed.quoted ++
      ", which is already used in the ontology"

/-- What is worth a warning. -/
inductive Renaming.Warning where
  /-- Some statements are left as they are, because a concept addresses
  them. -/
  | addressedLeft
  | skipped (reason : Renaming.Failure)
  | nothingBuilt
deriving DecidableEq

/-- The sentence of a warning. -/
def Renaming.Warning.message : Renaming.Warning → String
  | .addressedLeft => "leaving axioms addressed by a naming concept unrenamed"
  | .skipped reason => "skipping copy: " ++ reason.message
  | .nothingBuilt => "no copy could be built, keeping the original axioms"

-- ====================================================================== copies

/-- The name of a copy. -/
def Iri.copyName (separator : String) (name : Iri) (copy : Nat) :
    Except Iri.Fault Iri :=
  Iri.ofText (name.text ++ separator ++ String.ofList (Text.decimal copy))

/-- What a copy is made with. -/
structure CopyPlan where
  names : List Iri
  separator : String
  existing : Signature
  copy : Nat

namespace CopyPlan

/-- The copy of a name. A name that is not copied stays. -/
def iri (plan : CopyPlan) (name : Iri) : Except Renaming.Failure Iri :=
  if plan.names.contains name then
    match name.copyName plan.separator plan.copy with
    | .error fault => .error (.invalidName name plan.copy fault)
    | .ok renamed =>
      if plan.existing.contains renamed then
        .error (.collision name renamed plan.copy)
      else .ok renamed
  else .ok name

/-- The copy of a class. The reserved classes stay. -/
def className (plan : CopyPlan) (name : Iri) : Except Renaming.Failure Iri :=
  if name.isReserved then .ok name else plan.iri name

/-- The copy of a role. -/
def role (plan : CopyPlan) : Role → Except Renaming.Failure Role
  | .named p => return .named (← plan.iri p)
  | .inverse p => return .inverse (← plan.iri p)

/-- The copy of an individual. An anonymous one stays. -/
def individual (plan : CopyPlan) :
    Individual → Except Renaming.Failure Individual
  | .named iri => return .named (← plan.iri iri)
  | .anonymous node => return .anonymous node

mutual

/-- The copy of a concept. -/
def concept (plan : CopyPlan) : Concept → Except Renaming.Failure Concept
  | .atom name => return .atom (← plan.className name)
  | .inter operands => return .inter (← plan.concepts operands)
  | .union operands => return .union (← plan.concepts operands)
  | .compl operand => return .compl (← plan.concept operand)
  | .oneOf members => return .oneOf (← members.mapM plan.individual)
  | .restrict quantifier role filler => do
    let role ← plan.role role
    return .restrict quantifier role (← plan.concept filler)

/-- The copies of some concepts. -/
def concepts (plan : CopyPlan) :
    List Concept → Except Renaming.Failure (List Concept)
  | [] => return []
  | c :: cs => do
    let c ← plan.concept c
    return c :: (← plan.concepts cs)

end

/-- The copies of a role and of the individuals that it is said to relate. -/
def triple (plan : CopyPlan) (node : Role → Individual → Individual → Axiom)
    (role : Role) (source target : Individual) :
    Except Renaming.Failure Axiom := do
  let role ← plan.role role
  let source ← plan.individual source
  return node role source (← plan.individual target)

/-- The copy of an axiom. Its names are copied from left to right. -/
def body (plan : CopyPlan) : Axiom → Except Renaming.Failure Axiom
  | .subClassOf sub sup => do
    let sub ← plan.concept sub
    return .subClassOf sub (← plan.concept sup)
  | .equivalentClasses cs => return .equivalentClasses (← plan.concepts cs)
  | .disjointClasses cs => return .disjointClasses (← plan.concepts cs)
  | .subPropertyOf sub sup => do
    let sub ← plan.role sub
    return .subPropertyOf sub (← plan.role sup)
  | .domain role c => do
    let role ← plan.role role
    return .domain role (← plan.concept c)
  | .range role c => do
    let role ← plan.role role
    return .range role (← plan.concept c)
  | .inverseProperties p q => do
    let p ← plan.iri p
    return .inverseProperties p (← plan.iri q)
  | .transitive p => return .transitive (← plan.iri p)
  | .classAssertion c a => do
    let c ← plan.concept c
    return .classAssertion c (← plan.individual a)
  | .roleAssertion role a b => plan.triple .roleAssertion role a b
  | .noRoleAssertion role a b => plan.triple .noRoleAssertion role a b
  | .sameIndividual as => return .sameIndividual (← as.mapM plan.individual)
  | .differentIndividuals as =>
    return .differentIndividuals (← as.mapM plan.individual)
  | .hasKey c roles => do
    let c ← plan.concept c
    return .hasKey c (← roles.mapM plan.role)
  | .declareClass name => return .declareClass (← plan.className name)
  | .declareProperty p => return .declareProperty (← plan.iri p)
  | .declareIndividual a => return .declareIndividual (← plan.individual a)

/-- The copy of a statement, with the same notes. -/
def statement (plan : CopyPlan) (s : Statement) :
    Except Renaming.Failure Statement :=
  return { s with body := ← plan.body s.body }

end CopyPlan

-- ==================================================================== renaming

/-- What a renaming did. -/
structure Renaming.Tally where
  mergedCopies : Nat
  skippedCopies : Nat
  removedAxioms : Nat
  addedAxioms : Nat
  addressedAxioms : Nat
deriving DecidableEq

/-- The result of a renaming, so far or in the end. -/
structure Renaming where
  ontology : Ontology
  tally : Renaming.Tally
  warnings : List Renaming.Warning
deriving DecidableEq

namespace Ontology

/-- A statement that a renaming copies: it mentions a name and is not
addressed. -/
def isCopied (names : List Iri) (s : Statement) : Bool :=
  s.signature.mentions names && s.definedBy.isEmpty

/-- A statement that a renaming would copy if it were not addressed. -/
def isSpared (names : List Iri) (s : Statement) : Bool :=
  s.signature.mentions names && !s.definedBy.isEmpty

/-- One copy of the statements that a renaming copies. -/
def copyOf (o : Ontology) (names : List Iri) (separator : String)
    (copy : Nat) : Except Renaming.Failure (List Statement) :=
  (o.statements.filter (isCopied names)).mapM
    (CopyPlan.statement ⟨names, separator, o.signature, copy⟩)

/-- Takes away the statements that stand where a mark is set. Where there is
no mark, none is set. -/
def dropMarked (o : Ontology) (marks : List Bool) : Ontology :=
  { o with
    statements :=
      (o.statements.zipIdx.filter fun p => !marks.getD p.2 false).map (·.1) }

end Ontology

namespace Renaming

/-- A renaming that has not done anything yet. The number is that of the
statements that it leaves because they are addressed. -/
def start (o : Ontology) (spared : Nat) : Renaming :=
  ⟨o, ⟨0, 0, 0, 0, spared⟩, if spared = 0 then [] else [.addressedLeft]⟩

/-- Merges a copy, or skips it if it failed. -/
def merge (r : Renaming) : Except Failure (List Statement) → Renaming
  | .ok copy =>
    { r with
      ontology := r.ontology.extend copy
      tally :=
        { r.tally with
          mergedCopies := r.tally.mergedCopies + 1
          addedAxioms := r.tally.addedAxioms + copy.length } }
  | .error reason =>
    { r with
      tally := { r.tally with skippedCopies := r.tally.skippedCopies + 1 }
      warnings := r.warnings ++ [.skipped reason] }

/-- Takes away the marked statements, if copies took their place. -/
def finish (r : Renaming) (marks : List Bool) : Renaming :=
  if r.tally.mergedCopies = 0 then
    { r with warnings := r.warnings ++ [.nothingBuilt] }
  else
    let left := r.ontology.dropMarked marks
    { r with
      ontology := left
      tally :=
        { r.tally with
          removedAxioms :=
            r.ontology.statements.length - left.statements.length } }

end Renaming

/-- Renames an ontology: copies one to `copies` of the statements that mention
one of the names take the place of these statements. -/
def Ontology.rename (o : Ontology) (names : List Iri) (separator : String)
    (copies : Nat) : Renaming :=
  if copies = 0 || names.isEmpty then .start o 0
  else
    let marks := o.statements.map (isCopied names)
    let spared := o.statements.countP (isSpared names)
    let results := (List.range' 1 copies).map (o.copyOf names separator)
    (results.foldl Renaming.merge (.start o spared)).finish marks

end ContextDL
