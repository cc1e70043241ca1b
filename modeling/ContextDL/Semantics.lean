/-
The meaning of concepts and axioms.

An interpretation of a domain reads class names as sets, property names as
relations and individuals as elements of it, so the domain is not empty. The
two reserved classes are read as the whole domain and as the empty set.
Anonymous individuals are constants like the named ones.

`Concept.Holds` says that an element belongs to a concept, and
`Axiom.Satisfied` that an axiom is true. Declarations are always true. A key
tells all elements apart, not the named ones only.
-/
import ContextDL.Axiom

namespace ContextDL

universe u

-- ============================================================= interpretations

/-- A reading of all names over a domain. -/
structure Interpretation (α : Type u) where
  classes : Iri → α → Prop
  properties : Iri → α → α → Prop
  individuals : Iri → α
  nodes : BlankNode → α
  /-- Everything is a thing. -/
  thing : ∀ x, classes Iri.thing x
  /-- Nothing is a nothing. -/
  nothing : ∀ x, ¬ classes Iri.nothing x

variable {α : Type u}

/-- The element that an individual stands for. -/
def Individual.denote (I : Interpretation α) : Individual → α
  | .named iri => I.individuals iri
  | .anonymous node => I.nodes node

/-- A role relates two elements. -/
def Role.Relates (I : Interpretation α) : Role → α → α → Prop
  | .named p, x, y => I.properties p x y
  | .inverse p, x, y => I.properties p y x

-- ==================================================================== counting

/-- There are `n` different elements with a property. -/
def AtLeast (n : Nat) (p : α → Prop) : Prop :=
  ∃ xs : List α, xs.Nodup ∧ xs.length = n ∧ ∀ x ∈ xs, p x

/-- A quantifier is true of the elements that a role reaches and of the
fillers among them. -/
def Quantifier.Counts (reached filler : α → Prop) : Quantifier → Prop
  | .existential => ∃ y, reached y ∧ filler y
  | .universal => ∀ y, reached y → filler y
  | .atLeast n => AtLeast n.toNat fun y => reached y ∧ filler y
  | .atMost n => ¬ AtLeast (n.toNat + 1) fun y => reached y ∧ filler y
  | .exactly n =>
    (AtLeast n.toNat fun y => reached y ∧ filler y) ∧
      ¬ AtLeast (n.toNat + 1) fun y => reached y ∧ filler y

-- ==================================================================== concepts

namespace Concept

mutual

/-- An element belongs to a concept. -/
def Holds (I : Interpretation α) : Concept → α → Prop
  | .atom name, x => I.classes name x
  | .inter operands, x => HoldAll I operands x
  | .union operands, x => HoldSome I operands x
  | .compl operand, x => ¬ operand.Holds I x
  | .oneOf members, x => ∃ a ∈ members, a.denote I = x
  | .restrict quantifier role filler, x =>
    quantifier.Counts (fun y => role.Relates I x y) fun y => filler.Holds I y

/-- An element belongs to all concepts of a list. -/
def HoldAll (I : Interpretation α) : List Concept → α → Prop
  | [], _ => True
  | c :: cs, x => c.Holds I x ∧ HoldAll I cs x

/-- An element belongs to some concept of a list. -/
def HoldSome (I : Interpretation α) : List Concept → α → Prop
  | [], _ => False
  | c :: cs, x => c.Holds I x ∨ HoldSome I cs x

end

/-- To belong to all concepts is to belong to each. -/
theorem holdAll_iff {I : Interpretation α} {cs : List Concept} {x : α} :
    HoldAll I cs x ↔ ∀ c ∈ cs, c.Holds I x := by
  induction cs with
  | nil => simp [HoldAll]
  | cons c cs ih => simp [HoldAll, ih]

/-- To belong to some concept is to belong to one of them. -/
theorem holdSome_iff {I : Interpretation α} {cs : List Concept} {x : α} :
    HoldSome I cs x ↔ ∃ c ∈ cs, c.Holds I x := by
  induction cs with
  | nil => simp [HoldSome]
  | cons c cs ih => simp [HoldSome, ih]

/-- An element belongs to an intersection if it belongs to every operand. -/
theorem holds_inter {I : Interpretation α} {cs : List Concept} {x : α} :
    (inter cs).Holds I x ↔ ∀ c ∈ cs, c.Holds I x := by
  rw [Holds, holdAll_iff]

/-- An element belongs to a union if it belongs to some operand. -/
theorem holds_union {I : Interpretation α} {cs : List Concept} {x : α} :
    (union cs).Holds I x ↔ ∃ c ∈ cs, c.Holds I x := by
  rw [Holds, holdSome_iff]

end Concept

-- ====================================================================== axioms

/-- An axiom is true. -/
def Axiom.Satisfied (I : Interpretation α) : Axiom → Prop
  | .subClassOf c d => ∀ x, c.Holds I x → d.Holds I x
  | .equivalentClasses cs =>
    ∀ c ∈ cs, ∀ d ∈ cs, ∀ x, c.Holds I x ↔ d.Holds I x
  | .disjointClasses cs =>
    cs.Pairwise fun c d => ∀ x, ¬ (c.Holds I x ∧ d.Holds I x)
  | .subPropertyOf r s => ∀ x y, r.Relates I x y → s.Relates I x y
  | .domain r c => ∀ x y, r.Relates I x y → c.Holds I x
  | .range r c => ∀ x y, r.Relates I x y → c.Holds I y
  | .inverseProperties p q =>
    ∀ x y, I.properties p x y ↔ I.properties q y x
  | .transitive p =>
    ∀ x y z, I.properties p x y → I.properties p y z → I.properties p x z
  | .classAssertion c a => c.Holds I (a.denote I)
  | .roleAssertion r a b => r.Relates I (a.denote I) (b.denote I)
  | .noRoleAssertion r a b => ¬ r.Relates I (a.denote I) (b.denote I)
  | .sameIndividual as => ∀ a ∈ as, ∀ b ∈ as, a.denote I = b.denote I
  | .differentIndividuals as =>
    as.Pairwise fun a b => a.denote I ≠ b.denote I
  | .hasKey c roles =>
    ∀ x y, c.Holds I x → c.Holds I y →
      (∀ r ∈ roles, ∃ z, r.Relates I x z ∧ r.Relates I y z) → x = y
  | .declareClass _ | .declareProperty _ | .declareIndividual _ => True

/-- All axioms of a list are true. -/
def Interpretation.Models (I : Interpretation α) (bodies : List Axiom) :
    Prop :=
  ∀ a ∈ bodies, a.Satisfied I

end ContextDL
