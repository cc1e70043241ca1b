/-
Substitution: to rename what a concept or an axiom speaks of is to read its
names in another way.

`Concept.mapNames` and `Axiom.mapNames` put the image of every name under a map
in its place, whatever the name is used for; only the reserved classes stay.
An interpretation is pulled back along a map by reading every name as its image
is read (`Interpretation.pull`). `Axiom.satisfied_mapNames` says that a renamed
axiom is true exactly if the axiom itself is true in the interpretation pulled
back.
-/
import ContextDL.Proofs.Meaning.Agreement
import Mathlib.Logic.Basic

namespace ContextDL

universe u

variable {α : Type u} (f : Iri → Iri)

-- ============================================================= renamed objects

/-- The image of a class. The reserved classes stay. -/
def Iri.mapClass (n : Iri) : Iri :=
  if n.isReserved then n else f n

/-- The image of a role. -/
def Role.mapNames : Role → Role
  | .named p => .named (f p)
  | .inverse p => .inverse (f p)

/-- The image of an individual. An anonymous one stays. -/
def Individual.mapNames : Individual → Individual
  | .named n => .named (f n)
  | .anonymous node => .anonymous node

namespace Concept

mutual

/-- The image of a concept. -/
def mapNames : Concept → Concept
  | .atom n => .atom (n.mapClass f)
  | .inter operands => .inter (mapNamesAll operands)
  | .union operands => .union (mapNamesAll operands)
  | .compl operand => .compl operand.mapNames
  | .oneOf members => .oneOf (members.map (Individual.mapNames f))
  | .restrict quantifier role filler =>
    .restrict quantifier (role.mapNames f) filler.mapNames

/-- The images of some concepts. -/
def mapNamesAll : List Concept → List Concept
  | [] => []
  | c :: cs => c.mapNames :: mapNamesAll cs

end

/-- Lists are mapped member by member. -/
theorem mapNamesAll_eq (cs : List Concept) :
    mapNamesAll f cs = cs.map (mapNames f) := by
  induction cs with
  | nil => rfl
  | cons c cs ih => rw [mapNamesAll, ih]; rfl

end Concept

/-- The image of an axiom. -/
def Axiom.mapNames : Axiom → Axiom
  | .subClassOf sub sup => .subClassOf (sub.mapNames f) (sup.mapNames f)
  | .equivalentClasses cs => .equivalentClasses (cs.map (Concept.mapNames f))
  | .disjointClasses cs => .disjointClasses (cs.map (Concept.mapNames f))
  | .subPropertyOf sub sup => .subPropertyOf (sub.mapNames f) (sup.mapNames f)
  | .domain r c => .domain (r.mapNames f) (c.mapNames f)
  | .range r c => .range (r.mapNames f) (c.mapNames f)
  | .inverseProperties p q => .inverseProperties (f p) (f q)
  | .transitive p => .transitive (f p)
  | .classAssertion c a => .classAssertion (c.mapNames f) (a.mapNames f)
  | .roleAssertion r a b =>
    .roleAssertion (r.mapNames f) (a.mapNames f) (b.mapNames f)
  | .noRoleAssertion r a b =>
    .noRoleAssertion (r.mapNames f) (a.mapNames f) (b.mapNames f)
  | .sameIndividual as => .sameIndividual (as.map (Individual.mapNames f))
  | .differentIndividuals as =>
    .differentIndividuals (as.map (Individual.mapNames f))
  | .hasKey c roles =>
    .hasKey (c.mapNames f) (roles.map (Role.mapNames f))
  | .declareClass n => .declareClass (n.mapClass f)
  | .declareProperty p => .declareProperty (f p)
  | .declareIndividual a => .declareIndividual (a.mapNames f)

/-- Renaming does not turn a declaration into a logical axiom, or the other
way round. -/
@[simp]
theorem Axiom.isLogical_mapNames (a : Axiom) :
    (a.mapNames f).isLogical = a.isLogical := by
  cases a <;> rfl

-- ================================================================ pulling back

/-- The interpretation that reads every name as its image is read. -/
def Interpretation.pull (I : Interpretation α) : Interpretation α where
  classes n := I.classes (n.mapClass f)
  properties p := I.properties (f p)
  individuals n := I.individuals (f n)
  nodes := I.nodes
  thing := by
    intro x
    rw [Iri.mapClass, if_pos (by simp [Iri.isReserved])]
    exact I.thing x
  nothing := by
    intro x
    rw [Iri.mapClass, if_pos (by simp [Iri.isReserved])]
    exact I.nothing x

variable {f} {I : Interpretation α}

/-- Pulling back along a map changes nothing on a signature that the map
leaves alone. -/
theorem Interpretation.agree_pull {s : Signature}
    (fixed : ∀ n, s.contains n = true → f n = n) : (I.pull f).Agree I s := by
  constructor
  · intro n hn
    have same := fixed n (Signature.contains_iff.2 (.inl hn))
    show I.classes (n.mapClass f) = I.classes n
    unfold Iri.mapClass
    rw [same, ite_self]
  · intro n hn
    exact congrArg I.properties
      (fixed n (Signature.contains_iff.2 (.inr (.inl hn))))
  · intro n hn
    exact congrArg I.individuals
      (fixed n (Signature.contains_iff.2 (.inr (.inr hn))))

/-- An axiom does not notice pulling back along a map that leaves its names
alone. -/
theorem Axiom.satisfied_pull {a : Axiom}
    (fixed : ∀ n, a.signature.contains n = true → f n = n) :
    a.Satisfied (I.pull f) ↔ a.Satisfied I :=
  satisfied_congr (Interpretation.agree_pull fixed) fun _ _ => rfl

/-- Pulling back twice is pulling back along both maps, if the second leaves
the reserved classes alone. -/
theorem Interpretation.pull_pull {g : Iri → Iri}
    (fixed : ∀ n : Iri, n.isReserved = true → g n = n) :
    (I.pull g).pull f = I.pull fun n => g (f n) := by
  have classes (n : Iri) : (n.mapClass f).mapClass g =
      n.mapClass fun n => g (f n) := by
    unfold Iri.mapClass
    by_cases hn : n.isReserved = true
    · simp [hn]
    · by_cases hf : (f n).isReserved = true
      · simp [hn, hf, fixed _ hf]
      · simp [hn, hf]
  unfold pull
  rw [Interpretation.mk.injEq]
  exact ⟨funext fun n => congrArg I.classes (classes n), rfl, rfl, rfl⟩

/-- A renamed individual is the individual, pulled back. -/
theorem Individual.denote_mapNames (a : Individual) :
    (a.mapNames f).denote I = a.denote (I.pull f) := by
  cases a <;> rfl

/-- A renamed role relates what the role relates, pulled back. -/
theorem Role.relates_mapNames (r : Role) (x y : α) :
    (r.mapNames f).Relates I x y ↔ r.Relates (I.pull f) x y := by
  cases r <;> rfl

/-- A renamed concept has the members of the concept, pulled back. -/
theorem Concept.holds_mapNames (c : Concept) (x : α) :
    (c.mapNames f).Holds I x ↔ c.Holds (I.pull f) x := by
  induction c generalizing x with
  | atom n => rfl
  | inter cs ih =>
    rw [mapNames, mapNamesAll_eq, holds_inter, holds_inter,
      List.forall_mem_map]
    exact forall₂_congr fun c hc => ih c hc x
  | union cs ih =>
    rw [mapNames, mapNamesAll_eq, holds_union, holds_union]
    simp only [List.mem_map, exists_exists_and_eq_and]
    exact exists_congr fun c => and_congr_right fun hc => ih c hc x
  | compl c ih =>
    rw [mapNames, Holds, Holds, ih x]
  | oneOf members =>
    rw [mapNames, Holds, Holds]
    simp only [List.mem_map, exists_exists_and_eq_and,
      Individual.denote_mapNames]
  | restrict n r c ih =>
    rw [mapNames, Holds, Holds]
    exact n.counts_congr (fun y => r.relates_mapNames x y) ih

/-- A renamed axiom is true exactly if the axiom is true, pulled back. -/
theorem Axiom.satisfied_mapNames (a : Axiom) :
    (a.mapNames f).Satisfied I ↔ a.Satisfied (I.pull f) := by
  have concept := fun (c : Concept) x => c.holds_mapNames (f := f) (I := I) x
  cases a <;> simp only [mapNames, Satisfied, List.forall_mem_map,
    List.pairwise_map, concept, Role.relates_mapNames,
    Individual.denote_mapNames] <;> rfl

end ContextDL
