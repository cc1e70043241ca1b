/-
Relabelling: other blank nodes in the place of those that an axiom speaks of.

`Concept.mapNodes` and `Axiom.mapNodes` put the image of every blank node under
a map in its place, and leave all names alone. What the map fixes is not
changed (`Axiom.mapNodes_eq_self`), and to relabel twice is to relabel along
both maps, so a map that can be taken back loses nothing
(`Axiom.mapNodes_injective`).
-/
import ContextDL.Proofs.Meaning.Agreement
import Mathlib.Logic.Function.Basic

namespace ContextDL

variable (f g : BlankNode → BlankNode)

-- ========================================================== relabelled objects

/-- The image of an individual. A named one stays. -/
def Individual.mapNodes : Individual → Individual
  | .named n => .named n
  | .anonymous node => .anonymous (f node)

namespace Concept

mutual

/-- The image of a concept. -/
def mapNodes : Concept → Concept
  | .atom n => .atom n
  | .inter operands => .inter (mapNodesAll operands)
  | .union operands => .union (mapNodesAll operands)
  | .compl operand => .compl operand.mapNodes
  | .oneOf members => .oneOf (members.map (Individual.mapNodes f))
  | .restrict quantifier role filler =>
    .restrict quantifier role filler.mapNodes

/-- The images of some concepts. -/
def mapNodesAll : List Concept → List Concept
  | [] => []
  | c :: cs => c.mapNodes :: mapNodesAll cs

end

/-- Lists are mapped member by member. -/
theorem mapNodesAll_eq (cs : List Concept) :
    mapNodesAll f cs = cs.map (mapNodes f) := by
  induction cs with
  | nil => rfl
  | cons c cs ih => rw [mapNodesAll, ih]; rfl

end Concept

/-- The image of an axiom. -/
def Axiom.mapNodes : Axiom → Axiom
  | .subClassOf sub sup => .subClassOf (sub.mapNodes f) (sup.mapNodes f)
  | .equivalentClasses cs => .equivalentClasses (cs.map (Concept.mapNodes f))
  | .disjointClasses cs => .disjointClasses (cs.map (Concept.mapNodes f))
  | .subPropertyOf sub sup => .subPropertyOf sub sup
  | .domain r c => .domain r (c.mapNodes f)
  | .range r c => .range r (c.mapNodes f)
  | .inverseProperties p q => .inverseProperties p q
  | .transitive p => .transitive p
  | .classAssertion c a => .classAssertion (c.mapNodes f) (a.mapNodes f)
  | .roleAssertion r a b => .roleAssertion r (a.mapNodes f) (b.mapNodes f)
  | .noRoleAssertion r a b => .noRoleAssertion r (a.mapNodes f) (b.mapNodes f)
  | .sameIndividual as => .sameIndividual (as.map (Individual.mapNodes f))
  | .differentIndividuals as =>
    .differentIndividuals (as.map (Individual.mapNodes f))
  | .hasKey c roles => .hasKey (c.mapNodes f) roles
  | .declareClass n => .declareClass n
  | .declareProperty p => .declareProperty p
  | .declareIndividual a => .declareIndividual (a.mapNodes f)

variable {f g}

-- ================================================================= fixed nodes

/-- The members of a list stay if each of them does. -/
theorem map_eq_self {α : Type} {h : α → α} {xs : List α}
    (each : ∀ x ∈ xs, h x = x) : xs.map h = xs :=
  (List.map_congr_left each).trans (List.map_id xs)

/-- An individual whose blank node is fixed stays. -/
theorem Individual.mapNodes_eq_self {a : Individual}
    (fixed : ∀ n ∈ a.nodes, f n = n) : a.mapNodes f = a := by
  cases a with
  | named n => rfl
  | anonymous node =>
    exact congrArg anonymous (fixed node List.mem_cons_self)

/-- Individuals stay whose blank nodes are fixed. -/
theorem Individual.map_mapNodes_eq_self {as : List Individual}
    (fixed : ∀ n ∈ as.flatMap Individual.nodes, f n = n) :
    as.map (mapNodes f) = as :=
  map_eq_self fun _ ha => mapNodes_eq_self fun n hn =>
    fixed n (List.mem_flatMap_of_mem ha hn)

/-- A concept stays whose blank nodes are fixed. -/
theorem Concept.mapNodes_eq_self {c : Concept}
    (fixed : ∀ n ∈ c.nodes, f n = n) : c.mapNodes f = c := by
  induction c with
  | atom n => rfl
  | inter cs ih | union cs ih =>
    rw [Concept.nodes, nodesAll_eq] at fixed
    rw [mapNodes, mapNodesAll_eq]
    exact congrArg _ (map_eq_self fun c hc => ih c hc fun n hn =>
      fixed n (List.mem_flatMap_of_mem hc hn))
  | compl c ih =>
    rw [mapNodes, ih fixed]
  | oneOf members =>
    rw [mapNodes, Individual.map_mapNodes_eq_self fixed]
  | restrict q r c ih =>
    rw [mapNodes, ih fixed]

/-- Concepts stay whose blank nodes are fixed. -/
theorem Concept.map_mapNodes_eq_self {cs : List Concept}
    (fixed : ∀ n ∈ cs.flatMap Concept.nodes, f n = n) :
    cs.map (mapNodes f) = cs :=
  map_eq_self fun _ hc => mapNodes_eq_self fun n hn =>
    fixed n (List.mem_flatMap_of_mem hc hn)

/-- An axiom stays whose blank nodes are fixed. -/
theorem Axiom.mapNodes_eq_self {a : Axiom}
    (fixed : ∀ n ∈ a.nodes, f n = n) : a.mapNodes f = a := by
  cases a <;> simp only [Axiom.nodes, List.mem_append, or_imp,
    forall_and] at fixed <;> rw [mapNodes]
  case subClassOf c d =>
    rw [Concept.mapNodes_eq_self fixed.1, Concept.mapNodes_eq_self fixed.2]
  case equivalentClasses cs => rw [Concept.map_mapNodes_eq_self fixed]
  case disjointClasses cs => rw [Concept.map_mapNodes_eq_self fixed]
  case domain r c => rw [Concept.mapNodes_eq_self fixed]
  case range r c => rw [Concept.mapNodes_eq_self fixed]
  case classAssertion c a =>
    rw [Concept.mapNodes_eq_self fixed.1, Individual.mapNodes_eq_self fixed.2]
  case roleAssertion r a b =>
    rw [Individual.mapNodes_eq_self fixed.1,
      Individual.mapNodes_eq_self fixed.2]
  case noRoleAssertion r a b =>
    rw [Individual.mapNodes_eq_self fixed.1,
      Individual.mapNodes_eq_self fixed.2]
  case sameIndividual as => rw [Individual.map_mapNodes_eq_self fixed]
  case differentIndividuals as => rw [Individual.map_mapNodes_eq_self fixed]
  case hasKey c roles => rw [Concept.mapNodes_eq_self fixed]
  case declareIndividual a => rw [Individual.mapNodes_eq_self fixed]

-- =================================================================== both maps

/-- An individual is relabelled twice along both maps. -/
@[simp]
theorem Individual.mapNodes_mapNodes (a : Individual) :
    (a.mapNodes f).mapNodes g = a.mapNodes (g ∘ f) := by
  cases a <;> rfl

/-- A concept is relabelled twice along both maps. -/
@[simp]
theorem Concept.mapNodes_mapNodes (c : Concept) :
    (c.mapNodes f).mapNodes g = c.mapNodes (g ∘ f) := by
  induction c with
  | atom n => rfl
  | inter cs ih | union cs ih =>
    simp only [mapNodes, mapNodesAll_eq, List.map_map]
    exact congrArg _ (List.map_congr_left ih)
  | compl c ih => simp only [mapNodes, ih]
  | oneOf members =>
    simp only [mapNodes, List.map_map]
    exact congrArg _ (List.map_congr_left fun a _ => a.mapNodes_mapNodes)
  | restrict q r c ih => simp only [mapNodes, ih]

/-- An axiom is relabelled twice along both maps. -/
@[simp]
theorem Axiom.mapNodes_mapNodes (a : Axiom) :
    (a.mapNodes f).mapNodes g = a.mapNodes (g ∘ f) := by
  cases a <;> simp [mapNodes]

/-- Relabelling tells all axioms apart if it can be taken back. -/
theorem Axiom.mapNodes_injective (inverse : Function.LeftInverse g f) :
    Function.Injective (mapNodes f) := by
  refine Function.LeftInverse.injective (g := mapNodes g) fun a => ?_
  rw [mapNodes_mapNodes]
  exact mapNodes_eq_self fun n _ => inverse n

end ContextDL
