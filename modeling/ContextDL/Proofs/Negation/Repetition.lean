/-
Negating again and again.

A negation is an assertion, and an assertion has a negation that asserts
something of the same individuals and takes no new one
(`Axiom.negation_of_subject`). So however often it is negated, every negation is
there, and the supply is left as it was.

The first negations take the complements off that stand around the concept,
one each (`Concept.iterate_negation_of_le`). Under them is a concept that is no
complement, the core. Its negation is the complement of the core, or the other
one of top and bottom, and the next one is the core again
(`Concept.negation_negation_of_bare`). From there on the negations alternate.
-/
import ContextDL.Axiom
import Mathlib.Logic.Function.Iterate

namespace ContextDL

-- ==================================================================== concepts

namespace Concept

/-- How many complements stand around the core of a concept. -/
def complements : Concept → Nat
  | .compl operand => operand.complements + 1
  | _ => 0

/-- A concept without its outermost complements, as many as are asked for and
as there are. -/
def peel : Nat → Concept → Concept
  | k + 1, .compl operand => operand.peel k
  | _, c => c

theorem peel_zero (c : Concept) : c.peel 0 = c := by
  cases c <;> rfl

/-- What was taken off can be put on again. -/
theorem iterate_compl_peel {c : Concept} {k : Nat} (there : k ≤ c.complements) :
    compl^[k] (c.peel k) = c := by
  induction k generalizing c with
  | zero => exact peel_zero c
  | succ k ih =>
    cases c with
    | compl c =>
      rw [Function.iterate_succ_apply', peel,
        ih (Nat.le_of_succ_le_succ there)]
    | _ => cases there

/-- There are as many complements fewer. -/
theorem complements_peel (c : Concept) (k : Nat) :
    (c.peel k).complements = c.complements - k := by
  induction k generalizing c with
  | zero => rw [peel_zero, Nat.sub_zero]
  | succ k ih =>
    cases c with
    | compl c => rw [peel, ih, complements, Nat.add_sub_add_right]
    | _ => exact (Nat.zero_sub _).symm

/-- The negation of a complement takes it off. -/
theorem negation_compl (c : Concept) : (compl c).negation = c := by
  simp [negation, top, bottom]

/-- A concept that is no complement is the negation of its negation. -/
theorem negation_negation_of_bare {c : Concept} (bare : c.complements = 0) :
    c.negation.negation = c := by
  by_cases everything : c = top
  · subst everything
    decide
  by_cases nothing : c = bottom
  · subst nothing
    decide
  have covered : c.negation = .compl c := by
    cases c with
    | compl c => cases bare
    | _ => simp only [negation, everything, nothing, if_false]
  rw [covered, negation_compl]

/-- As long as there are complements, every negation takes one off. -/
theorem iterate_negation_of_le {c : Concept} {k : Nat}
    (there : k ≤ c.complements) : negation^[k] c = c.peel k := by
  have back : Function.LeftInverse negation compl := negation_compl
  calc negation^[k] c
      = negation^[k] (compl^[k] (c.peel k)) := by rw [iterate_compl_peel there]
    _ = c.peel k := back.iterate k _

end Concept

-- ====================================================================== axioms

/-- What an assertion speaks of. -/
inductive Subject where
  | member (individual : Individual)
  | pair (role : Role) (source target : Individual)
deriving DecidableEq

namespace Axiom

/-- The individuals of an assertion, and the role between them if there are
two. Other axioms have none. -/
def subject? : Axiom → Option Subject
  | .classAssertion _ member => some (.member member)
  | .roleAssertion role source target | .noRoleAssertion role source target =>
    some (.pair role source target)
  | _ => none

/-- How many complements stand around the core of an asserted concept. -/
def complements : Axiom → Nat
  | .classAssertion concept _ => concept.complements
  | _ => 0

/-- An assertion whose concept has lost its outermost complements. -/
def peel (k : Nat) : Axiom → Axiom
  | .classAssertion concept member => .classAssertion (concept.peel k) member
  | a => a

/-- An axiom that is negated some times, each time the outcome of the time
before, and the supply left after that. -/
def negations (supply : Supply) (a : Axiom) :
    Nat → Except NoNegation (Axiom × Supply)
  | 0 => .ok (a, supply)
  | k + 1 => do
    let (b, left) ← a.negations supply k
    b.negation left

/-- The assertion of the contrary. -/
def contrary : Axiom → Axiom
  | .classAssertion concept member => .classAssertion concept.negation member
  | .roleAssertion role source target => .noRoleAssertion role source target
  | .noRoleAssertion role source target => .roleAssertion role source target
  | a => a

variable {a b : Axiom} {subject : Subject} {supply left : Supply}

/-- A negation is an assertion. -/
theorem exists_subject_of_negation
    (made : a.negation supply = .ok (b, left)) :
    ∃ subject, b.subject? = some subject := by
  cases a <;> cases made <;> exact ⟨_, rfl⟩

/-- The negation of an assertion is an assertion of the same individuals. It
takes no new one. -/
theorem negation_of_subject (assertion : a.subject? = some subject)
    (supply : Supply) :
    a.negation supply = .ok (a.contrary, supply) ∧
      a.contrary.subject? = some subject := by
  cases a <;> first | exact ⟨rfl, assertion⟩ | cases assertion

/-- An assertion may be negated any number of times. -/
theorem negations_of_subject (assertion : a.subject? = some subject)
    (supply : Supply) (k : Nat) :
    a.negations supply k = .ok (contrary^[k] a, supply) ∧
      (contrary^[k] a).subject? = some subject := by
  induction k with
  | zero => exact ⟨rfl, assertion⟩
  | succ k ih =>
    obtain ⟨made, kept⟩ := ih
    rw [Function.iterate_succ_apply']
    rw [negations, made]
    exact negation_of_subject kept supply

/-- Negations of an asserted concept. -/
theorem iterate_contrary_classAssertion (c : Concept) (x : Individual)
    (k : Nat) :
    contrary^[k] (classAssertion c x) =
      classAssertion (Concept.negation^[k] c) x := by
  induction k with
  | zero => rfl
  | succ k ih =>
    rw [Function.iterate_succ_apply', ih, Function.iterate_succ_apply']
    rfl

/-- As long as there are complements around the concept, every negation takes
one off. -/
theorem iterate_contrary_of_le {k : Nat} (there : k ≤ a.complements) :
    contrary^[k] a = a.peel k := by
  cases a with
  | classAssertion c x =>
    rw [iterate_contrary_classAssertion, Concept.iterate_negation_of_le there]
    rfl
  | _ =>
    obtain rfl := Nat.le_zero.1 there
    rfl

/-- The contrary of the contrary of an assertion of a core. -/
theorem contrary_contrary_of_bare (bare : a.complements = 0) :
    a.contrary.contrary = a := by
  cases a with
  | classAssertion c x =>
    exact congrArg (classAssertion · x)
      (Concept.negation_negation_of_bare bare)
  | _ => rfl

/-- The core has no complements around it. -/
theorem complements_peel (a : Axiom) :
    (a.peel a.complements).complements = 0 := by
  cases a with
  | classAssertion c x =>
    exact (c.complements_peel _).trans (Nat.sub_self _)
  | _ => rfl

/-- Once the complements are off, two more negations change nothing. -/
theorem iterate_contrary_add_two {k : Nat} (off : a.complements ≤ k) :
    contrary^[k + 2] a = contrary^[k] a := by
  obtain ⟨j, rfl⟩ := Nat.exists_eq_add_of_le' off
  have core : contrary^[2] (a.peel a.complements) = a.peel a.complements :=
    contrary_contrary_of_bare a.complements_peel
  calc contrary^[j + a.complements + 2] a
      = contrary^[j] (contrary^[2] (contrary^[a.complements] a)) := by
        rw [← Function.iterate_add_apply, ← Function.iterate_add_apply]
        congr 1
        omega
    _ = contrary^[j] (contrary^[a.complements] a) := by
        rw [iterate_contrary_of_le (Nat.le_refl _), core]
    _ = contrary^[j + a.complements] a :=
        (Function.iterate_add_apply _ _ _ _).symm

/-- Negation can go on for ever and settles into a cycle of two. What a negation
has made can be negated any number of times, always speaks of the same
individuals and the same role, and takes no new individual. The first negations
take off the complements around the concept, and once these are off, two more
negations change nothing. -/
theorem negations_settle (made : a.negation supply = .ok (b, left))
    (now : Supply) :
    (∃ subject, b.subject? = some subject ∧ ∀ k, ∃ c,
      b.negations now k = .ok (c, now) ∧ c.subject? = some subject) ∧
    (∀ k, b.complements ≤ k →
      b.negations now (k + 2) = b.negations now k) ∧
    ∀ k, k ≤ b.complements → b.negations now k = .ok (b.peel k, now) := by
  obtain ⟨subject, assertion⟩ := exists_subject_of_negation made
  have runs (k : Nat) : b.negations now k = .ok (contrary^[k] b, now) :=
    (negations_of_subject assertion now k).1
  refine ⟨⟨subject, assertion, fun k => ?_⟩, fun k off => ?_, fun k there => ?_⟩
  · exact ⟨_, negations_of_subject assertion now k⟩
  · rw [runs, runs, iterate_contrary_add_two off]
  · rw [runs, iterate_contrary_of_le there]

/-- The negation of `⊤ ⊑ ¬¬¬⊤` asserts `¬¬⊤` of a new individual. Two more
negations take the complements off, and from then on top and bottom change
places. -/
theorem negations_settle_top :
    let witness := Individual.anonymous (.fresh 0)
    let inclusion := subClassOf .top (.compl (.compl (.compl .top)))
    let refutation := classAssertion (.compl (.compl .top)) witness
    inclusion.negation .full = .ok (refutation, ⟨1⟩) ∧
      (2 ≤ refutation.complements ∧ refutation.complements ≤ 3) ∧
      refutation.negations ⟨1⟩ 2 =
        .ok (classAssertion .top witness, ⟨1⟩) ∧
      refutation.negations ⟨1⟩ 5 = refutation.negations ⟨1⟩ 3 ∧
      ∃ c, refutation.negations ⟨1⟩ 3 = .ok (c, ⟨1⟩) ∧
        c.subject? = some (.member witness) := by
  intro witness inclusion refutation
  have simplified : Concept.conjunction
      [.top, Concept.negation (.compl (.compl (.compl .top)))] =
        .compl (.compl .top) := by
    rw [Concept.negation_compl]
    simp [Concept.conjunction, Concept.gather, Concept.ofConjuncts,
      Concept.top, Concept.bottom]
  have made : inclusion.negation .full = .ok (refutation, ⟨1⟩) := by
    simp only [inclusion, refutation, negation, simplified]
    rfl
  obtain ⟨⟨subject, speaks, always⟩, cycle, first⟩ := negations_settle made ⟨1⟩
  obtain rfl : subject = .member witness := (Option.some.inj speaks).symm
  have both : 2 ≤ refutation.complements ∧ refutation.complements ≤ 3 := by
    decide
  exact ⟨made, both, first 2 both.1, cycle 3 both.2, always 3⟩

end Axiom

end ContextDL
