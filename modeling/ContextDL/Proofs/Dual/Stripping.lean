/-
Marks put in front of a name, and taken off again.

A text splits in one way into a namespace and a name without breaks
(`Iri.split_eq_iff`). No break stands in the mark, so a dual name splits where
the name does, and the mark is looked for where it was put. Under the marks of a
name there is one name without a mark (`Iri.undual_eq_iff`): the marks come off
until none is in front, and letters of the mark that the name itself begins with
are no mark.

The base of a dual name asks for one thing more, that what is left is an IRI. A
valid name without a mark passes, so it is the base of its duals, of all of them,
and of nothing else (`Iri.dualBase?_eq_some_iff_iterate`).
-/
import ContextDL.Proofs.Dual.Names

namespace ContextDL.Iri

variable {name base : Iri}

-- ======================================================================= marks

/-- A dual name has a mark that the name does not have. -/
theorem dual_ne_self (name : Iri) : name.dual ≠ name := by
  intro same
  have count := marks_dual name
  rw [same] at count
  omega

/-- No mark is left when the marks are taken off. -/
theorem isDual_undual (name : Iri) : name.undual.isDual = false := by
  have count : (dual^[name.marks] name.undual).marks = name.marks := by
    rw [iterate_dual_undual]
  rw [marks_iterate_dual] at count
  apply marks_eq_zero_iff.1
  omega

/-- A name without its marks is the one name without a mark that makes it up. -/
theorem undual_eq_iff :
    name.undual = base ↔ base.isDual = false ∧ ∃ k, dual^[k] base = name := by
  constructor
  · intro same
    subst same
    exact ⟨isDual_undual name, name.marks, iterate_dual_undual name⟩
  · intro h
    obtain ⟨unmarked, k, rfl⟩ := h
    rw [undual_iterate_dual]
    exact (undual_eq_self unmarked).1

/-- A name without a mark becomes a dual name with the first one. -/
theorem isDual_iterate_dual_iff (unmarked : base.isDual = false) (k : Nat) :
    (dual^[k] base).isDual = true ↔ 1 ≤ k := by
  have count : (dual^[k] base).marks = k := by
    rw [marks_iterate_dual, marks_eq_zero_iff.2 unmarked, Nat.zero_add]
  rw [← Bool.not_eq_false, ← marks_eq_zero_iff, count]
  omega

-- ======================================================================= bases

/-- A name without a mark was made from no other. -/
theorem dualBase?_eq_none (unmarked : name.isDual = false) :
    name.dualBase? = none := by
  unfold dualBase?
  rw [unmarked]
  rfl

/-- A name was made from another exactly if that is a valid name without a mark,
and some marks in front of it make up the name. -/
theorem dualBase?_eq_some_iff_iterate :
    name.dualBase? = some base ↔
      base.IsValid ∧ base.isDual = false ∧ ∃ k, 1 ≤ k ∧ dual^[k] base = name := by
  rw [dualBase?_eq_some_iff, eq_comm (a := base), undual_eq_iff]
  constructor
  · intro h
    obtain ⟨marked, valid, unmarked, k, rfl⟩ := h
    have some := (isDual_iterate_dual_iff unmarked k).1 marked
    exact ⟨valid, unmarked, k, some, rfl⟩
  · intro h
    obtain ⟨valid, unmarked, k, some, rfl⟩ := h
    have marked := (isDual_iterate_dual_iff unmarked k).2 some
    exact ⟨marked, valid, unmarked, k, rfl⟩

/-- A scheme may begin with a mark and not with a digit, so a valid dual name
need not have a base. -/
example :
    let name : Iri := ⟨"DUAL.1:x"⟩
    (check name.chars).toOption = some () ∧ name.isDual = true ∧
      name.dualBase? = none := by
  decide +kernel

-- ======================================================================= whole

/-- A mark changes every name and loses nothing of it. A valid name without a
mark has no base, and is itself the base under any number of marks. The two parts
of a text make it up: the first is empty or ends in a break, and no break stands
in the second. -/
theorem stripping_inverts_dual :
    Function.Injective dual ∧ (∀ c : Iri, c.dual ≠ c) ∧
    (∀ c : Iri, c.IsValid → c.isDual = false →
      c.dualBase? = none ∧ ∀ k, 1 ≤ k → (dual^[k] c).dualBase? = some c) ∧
    ∀ text : List Char, (split text).1 ++ (split text).2 = text ∧
      IsSpace (split text).1 ∧ ∀ c ∈ (split text).2, c ≠ '#' ∧ c ≠ '/' := by
  refine ⟨fun _ _ => dual_inj.1, dual_ne_self, ?_, ?_⟩
  · intro c valid unmarked
    refine ⟨dualBase?_eq_none unmarked, ?_⟩
    intro k some
    exact dualBase?_eq_some_iff_iterate.2 ⟨valid, unmarked, k, some, rfl⟩
  · intro text
    obtain ⟨whole, front, behind⟩ := split_eq_iff.1 (Eq.refl (split text))
    exact ⟨whole, front, fun c hc => isBreak_eq_false_iff.1 (behind c hc)⟩

/-- The local name begins with letters of the mark and has a whole mark farther
on, and another mark stands in the namespace. -/
theorem stripping_inverts_dual_lookalike :
    let name : Iri := ⟨"e:/DUAL.M#DUALDUAL.DUAL.N"⟩
    name.IsValid ∧ name.isDual = false ∧ name.dualBase? = none ∧
    name.dual.dual = ⟨"e:/DUAL.M#DUAL.DUAL.DUALDUAL.DUAL.N"⟩ ∧ 1 ≤ 2 ∧
    name.dual.dual.dualBase? = some name ∧ name.dual.dual ≠ name.dual := by
  intro name
  obtain ⟨accepted, unmarked, twice⟩ :
      (check name.chars).toOption = some () ∧ name.isDual = false ∧
        name.dual.dual = ⟨"e:/DUAL.M#DUAL.DUAL.DUALDUAL.DUAL.N"⟩ := by
    decide +kernel
  have valid : name.IsValid := toOption_eq_some.1 accepted
  obtain ⟨-, changes, bases, -⟩ := stripping_inverts_dual
  obtain ⟨none, duals⟩ := bases name valid unmarked
  exact ⟨valid, unmarked, none, twice, by decide, duals 2 (by decide),
    changes name.dual⟩

end ContextDL.Iri
