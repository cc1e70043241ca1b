/-
Branches and their object ontologies.

A branch is told by its type, which lists the concepts that are positive in it
and those that are negative; all others are left open. No concept is both.

The object ontology of a branch holds the global axioms, the axiom of every
positive concept, and the negation of the axiom of every negative concept. The
concepts are looked up one by one, the positive ones first: a positive concept
under its own name, which may be a dual name, and a negative one under its dual
name. No axiom is selected twice, and none that is global already.

A type is made of two sets, so it gives no order to what it selects. The
selected axioms are listed as they are registered, in the order of their
definitions and each axiom before its negation.
-/
import ContextDL.Context.Basic
import ContextDL.Distinct

namespace ContextDL

-- ==================================================================== branches

/-- The type of a branch: a choice of polarities for some concepts. -/
structure Branch where
  positive : List Iri
  negative : List Iri
  positive_nodup : positive.Nodup
  negative_nodup : negative.Nodup
  disjoint : ∀ c ∈ positive, c ∉ negative

namespace Branch

/-- The type with given polarities. Repeated concepts count once; the first
positive concept that is also negative is an error. -/
def ofLists (positive negative : List Iri) : Except ContextError Branch :=
  match conflict : positive.find? negative.contains with
  | some c => .error (.conflict c)
  | none =>
    .ok
      { positive := positive.eraseDups
        negative := negative.eraseDups
        positive_nodup := nodup_eraseDups _
        negative_nodup := nodup_eraseDups _
        disjoint := by
          intro c hp hn
          rw [List.mem_eraseDups] at hp hn
          have := List.find?_eq_none.1 conflict c hp
          simp [hn] at this }

/-- How many concepts have a polarity. -/
def size (b : Branch) : Nat :=
  b.positive.length + b.negative.length

/-- No concept has a polarity. -/
def isEmpty (b : Branch) : Bool :=
  b.size == 0

/-- The polarity of a concept, if it has one. -/
def polarity (b : Branch) (concept : Iri) : Option Bool :=
  if b.positive.contains concept then some true
  else if b.negative.contains concept then some false
  else none

end Branch

-- =========================================================== object ontologies

/-- The axioms of a branch. -/
structure BranchOntology where
  /-- The axioms of all branches. -/
  globals : List Axiom
  selected : List Axiom
  rigid : List Iri
deriving DecidableEq

namespace BranchOntology

/-- The axioms, global ones first. -/
def axioms (v : BranchOntology) : List Axiom :=
  v.globals ++ v.selected

/-- How many axioms there are. -/
def size (v : BranchOntology) : Nat :=
  v.globals.length + v.selected.length

/-- There is no axiom. -/
def isEmpty (v : BranchOntology) : Bool :=
  v.size == 0

/-- An axiom belongs to the branch. -/
def contains (v : BranchOntology) (body : Axiom) : Bool :=
  v.globals.contains body || v.selected.contains body

/-- The names in the axioms. -/
def signature (v : BranchOntology) : Signature :=
  .unionAll Axiom.signature v.axioms

/-- The axioms as an ontology without a name, in which the rigid entities
among its names are labelled. -/
def toOntology (v : BranchOntology) : Ontology :=
  (v.rigid.filter v.signature.contains).foldl Ontology.markRigid
    (.ofAxioms v.axioms)

/-- The branch has the same axioms as an ontology, in whatever order. -/
def sameAxioms (v : BranchOntology) (o : Ontology) : Bool :=
  v.axioms.all o.axioms.contains && o.axioms.all v.axioms.contains

end BranchOntology

namespace ContextBase

/-- The entry of the registry under a name, which a concept of a branch asks
for. -/
def demand (m : ContextBase) (concept name : Iri) :
    Except ContextError (Iri × Axiom) :=
  match m.definition? name with
  | some body => .ok (name, body)
  | none => .error (.unregistered concept)

/-- What a positive concept selects: the axiom under its own name. -/
def affirm (m : ContextBase) (concept : Iri) :
    Except ContextError (Iri × Axiom) :=
  m.demand concept concept

/-- What a negative concept selects: the negation under its dual name. -/
def deny (m : ContextBase) (concept : Iri) :
    Except ContextError (Iri × Axiom) := do
  m.demand concept (← m.dualName concept)

/-- What the concepts of a branch select, one after the other. The first that
selects nothing is an error. -/
def lookUp (m : ContextBase) (b : Branch) :
    Except ContextError (List (Iri × Axiom)) := do
  let positive ← b.positive.mapM m.affirm
  let negative ← b.negative.mapM m.deny
  return positive ++ negative

/-- Some entries of the registry, in its order. -/
def inOrder (m : ContextBase) (entries : List (Iri × Axiom)) : List Axiom :=
  m.registry.filterMap fun entry => entries.lookup entry.1

/-- The object ontology of a branch. -/
def branchOntology (m : ContextBase) (b : Branch) :
    Except ContextError BranchOntology := do
  let selected := (m.inOrder (← m.lookUp b)).eraseDups
  return ⟨m.globals, selected.filter (!m.globals.contains ·), m.rigid⟩

end ContextBase

end ContextDL
