/-
Dualizing loses no information.

A pass puts a complement where a class stood, so what it makes of a class could
be mistaken for a complement that was there before. It is not: such a
complement would have to keep a dual name of an addressed class as it is, and a
dual name of an addressed class is addressed itself (`dualize_eq_dualize_atom`).
So no two concepts become the same at a class, and from there it goes up: a
substitution with this property tells concepts apart
(`Concept.substitute_injective`), and axioms with them.
-/
import ContextDL.Proofs.Dual.Passes

namespace ContextDL

/-- A list is known by what its members become, if each member is. -/
theorem eq_of_map_eq_map {α β : Type} {f : α → β} {xs ys : List α}
    (known : ∀ x ∈ xs, ∀ y, f x = f y → x = y)
    (same : xs.map f = ys.map f) : xs = ys := by
  induction xs generalizing ys with
  | nil => exact (List.map_eq_nil_iff.1 same.symm).symm
  | cons x xs ih =>
    obtain ⟨y, rest, rfl, head, tail⟩ := List.map_eq_cons_iff.1 same.symm
    rw [known x List.mem_cons_self y head.symm,
      ih (fun z hz => known z (List.mem_cons_of_mem x hz)) tail.symm]

-- =============================================================== substitutions

/-- A substitution tells concepts apart, if no other concept becomes what is
put for a class. -/
theorem Concept.substitute_injective {f : Iri → Concept}
    (own : ∀ c n, c.substitute f = f n → c = atom n) :
    Function.Injective (substitute f) := by
  intro c d same
  induction c generalizing d with
  | atom n => exact (own d n same.symm).symm
  | inter cs ih =>
    cases d with
    | atom n => exact own _ n same
    | inter ds =>
      have operands := inter.inj same
      rw [substituteAll_eq, substituteAll_eq] at operands
      rw [eq_of_map_eq_map ih operands]
    | union | compl | oneOf | restrict => cases same
  | union cs ih =>
    cases d with
    | atom n => exact own _ n same
    | union ds =>
      have operands := union.inj same
      rw [substituteAll_eq, substituteAll_eq] at operands
      rw [eq_of_map_eq_map ih operands]
    | inter | compl | oneOf | restrict => cases same
  | compl c ih =>
    cases d with
    | atom n => exact own _ n same
    | compl d => rw [ih (compl.inj same)]
    | inter | union | oneOf | restrict => cases same
  | oneOf members =>
    cases d with
    | atom n => exact own _ n same
    | oneOf others => exact same
    | inter | union | compl | restrict => cases same
  | restrict q r c ih =>
    cases d with
    | atom n => exact own _ n same
    | restrict p s d =>
      obtain ⟨quantifier, role, filler⟩ := restrict.inj same
      rw [quantifier, role, ih filler]
    | inter | union | compl | oneOf => cases same

/-- Axioms are told apart by their concepts. -/
theorem Axiom.mapConcepts_injective {f : Concept → Concept}
    (injective : Function.Injective f) :
    Function.Injective (mapConcepts f) := by
  obtain ⟨g, back⟩ := injective.hasLeftInverse
  refine Function.LeftInverse.injective (g := mapConcepts g) fun a => ?_
  rw [mapConcepts_mapConcepts, back.comp_eq_id, mapConcepts_id]

-- ===================================================================== classes

variable {addressed : List Iri}

/-- A concept that a pass leaves as a bare name is that name, and is not
addressed. -/
theorem Concept.eq_atom_of_dualize {c : Concept} {n : Iri}
    (h : c.dualize addressed = atom n) :
    c = atom n ∧ isAddressed addressed n = false := by
  cases c with
  | atom m =>
    rw [dualize] at h
    split at h
    case isTrue => cases h
    case isFalse other =>
      obtain rfl := atom.inj h
      exact ⟨rfl, eq_false_of_ne_true other⟩
  | inter | union | compl | oneOf | restrict => cases h

/-- An unmarked set addresses the dual names of what it addresses. -/
theorem isAddressed_dual (plain : IsUnmarked addressed) {n : Iri}
    (h : isAddressed addressed n = true) :
    isAddressed addressed n.dual = true := by
  rw [isAddressed_iff_isMarkedMember plain] at h ⊢
  exact h.iterate_dual 1

/-- Nothing but a class becomes what the class becomes. -/
theorem Concept.dualize_eq_dualize_atom (plain : IsUnmarked addressed)
    {c : Concept} {n : Iri}
    (same : c.dualize addressed = (atom n).dualize addressed) :
    c = atom n := by
  by_cases member : isAddressed addressed n = true
  · rw [dualize.eq_1 addressed n, if_pos member] at same
    cases c with
    | atom m =>
      rw [dualize] at same
      split at same
      case isTrue => rw [Iri.dual_inj.1 (atom.inj (compl.inj same))]
      case isFalse => cases same
    | compl c =>
      -- the name under this complement is a dual name that was left
      have left := (eq_atom_of_dualize (compl.inj same)).2
      rw [isAddressed_dual plain member] at left
      cases left
    | inter | union | oneOf | restrict => cases same
  · rw [dualize.eq_1 addressed n, if_neg member] at same
    exact (eq_atom_of_dualize same).1

-- =================================================================== no losses

/-- Dualizing with an unmarked set takes different concepts to different
concepts, and different axioms to different axioms. -/
theorem dualize_injective (plain : IsUnmarked addressed) :
    Function.Injective (Concept.dualize addressed) ∧
      Function.Injective (Axiom.dualize addressed) := by
  have concept : Function.Injective (Concept.dualize addressed) := by
    have own (c : Concept) (n : Iri)
        (same : (c.substitute fun n => (Concept.atom n).dualize addressed) =
          (Concept.atom n).dualize addressed) : c = .atom n := by
      rw [← Concept.dualize_eq_substitute] at same
      exact Concept.dualize_eq_dualize_atom plain same
    intro c d same
    rw [Concept.dualize_eq_substitute, Concept.dualize_eq_substitute] at same
    exact Concept.substitute_injective own same
  refine ⟨concept, ?_⟩
  rw [Axiom.dualize_eq_mapConcepts]
  exact Axiom.mapConcepts_injective concept

/-- A class and the complement of its dual name stay apart: the name under the
complement gets a second mark. -/
theorem dualize_injective_complement :
    let set : List Iri := [⟨"e:#N"⟩]
    let name : Concept := .atom ⟨"e:#N"⟩
    let complement : Concept := .compl (.atom ⟨"e:#DUAL.N"⟩)
    IsUnmarked set ∧
    name.dualize set = complement ∧
    complement.dualize set ≠ complement ∧
    ∀ member, Axiom.dualize set (.classAssertion complement member) ≠
      Axiom.dualize set (.classAssertion name member) := by
  intro set name complement
  have plain : IsUnmarked set := by
    intro n member
    obtain rfl := List.mem_singleton.1 member
    exact ⟨toOption_eq_some.1 rfl, by decide +kernel⟩
  obtain ⟨concepts, axioms⟩ := dualize_injective plain
  have becomes : name.dualize set = complement := by decide +kernel
  have different : complement ≠ name := Concept.noConfusion
  refine ⟨plain, becomes, fun same => ?_, fun member same => ?_⟩
  · exact different (concepts (same.trans becomes.symm))
  · exact different (Axiom.classAssertion.inj (axioms same)).1

/-- A set with a dual name in it addresses that name and not its dual. Then a
complement that was there is mistaken for one that was put. -/
example :
    let set : List Iri := [⟨"e:#DUAL.N"⟩]
    (Concept.atom ⟨"e:#DUAL.N"⟩).dualize set =
      (Concept.compl (.atom ⟨"e:#DUAL.DUAL.N"⟩)).dualize set := by
  decide +kernel

end ContextDL
