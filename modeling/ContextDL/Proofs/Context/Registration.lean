/-
What decides the registry of a context model.

Statements that no concept addresses have no fault, and they define nothing.
So they may be added to a document, taken away or changed, and the document has
a model as before (`Statement.isFaultless_filter_isDefinition`), with the same
definitions (`Statement.addresses_filter_isDefinition`).

Two models with the same definitions may differ in one point. The negation of
an inclusion speaks of an individual that is made up when the model is built,
and every building makes up its own. `Axiom.SameUpToWitness` leaves out which
one it is, and `ContextBase.SameNaming` says what two such models have in
common.
-/
import ContextDL.Proofs.Context.Faults
import ContextDL.Proofs.Context.Selection

namespace ContextDL

namespace Statement

-- ======================================================== addressed statements

variable {s : Statement} {ss earlier other : List Statement} {concept : Iri}
  {e : ContextError}

/-- A statement that some note calls the definition of something. -/
def isDefinition (s : Statement) : Bool :=
  !s.definedBy.isEmpty

theorem isDefinition_iff : s.isDefinition = true ↔ s.definedBy ≠ [] := by
  simp [isDefinition]

/-- Only addressed statements define a concept. -/
theorem defines_filter_isDefinition :
    Defines (ss.filter isDefinition) concept ↔ Defines ss concept := by
  constructor
  · rintro ⟨s, hs, logical, addressed⟩
    exact ⟨s, (List.mem_filter.1 hs).1, logical, addressed⟩
  · rintro ⟨s, hs, logical, addressed⟩
    have isDefinition := isDefinition_iff.2 (List.ne_nil_of_mem addressed)
    exact ⟨s, List.mem_filter.2 ⟨hs, isDefinition⟩, logical, addressed⟩

/-- Of the statements before it, a fault knows what they define. -/
theorem HasFault.congr (same : ∀ c, Defines earlier c ↔ Defines other c)
    (fault : s.HasFault earlier e) : s.HasFault other e := by
  cases fault with
  | addressedGlobal logical addressed global =>
    exact .addressedGlobal logical addressed global
  | multipleDefinitions logical apart first second distinct =>
    exact .multipleDefinitions logical apart first second distinct
  | literalDefinition address => exact .literalDefinition address
  | reserved address unfit => exact .reserved address unfit
  | duplicate address fit defined =>
    exact .duplicate address fit ((same _).1 defined)
  | noNegation address fit new none =>
    exact .noNegation address fit (fun h => new ((same _).2 h)) none

/-- A list is faultless if its addressed statements are. -/
theorem isFaultless_filter_isDefinition :
    IsFaultless (ss.filter isDefinition) ↔ IsFaultless ss := by
  induction ss using List.reverseRecOn with
  | nil => rfl
  | append_singleton ss s ih =>
    rw [List.filter_append, isFaultless_concat]
    by_cases addressed : s.isDefinition = true
    · rw [List.filter_cons_of_pos addressed, List.filter_nil,
        isFaultless_concat, ih]
      refine and_congr_right fun _ => forall_congr' fun e => not_congr ?_
      exact ⟨.congr fun _ => defines_filter_isDefinition,
        .congr fun _ => defines_filter_isDefinition.symm⟩
    · rw [List.filter_cons_of_neg addressed, List.filter_nil,
        List.append_nil, ih]
      refine (and_iff_left fun e fault => addressed ?_).symm
      exact isDefinition_iff.2 fault.definedBy_ne_nil

/-- Addressed statements are all that is addressed. -/
theorem addresses_filter_isDefinition :
    addresses (ss.filter isDefinition) = addresses ss := by
  induction ss using List.reverseRecOn with
  | nil => rfl
  | append_singleton ss s ih =>
    rw [List.filter_append, addresses_concat]
    by_cases addressed : s.isDefinition = true
    · rw [List.filter_cons_of_pos addressed, List.filter_nil,
        addresses_concat, ih]
    · have none : s.definedBy = [] := by simpa [isDefinition] using addressed
      rw [List.filter_cons_of_neg addressed, List.filter_nil,
        List.append_nil, ih, none]
      simp

end Statement

-- =================================================================== witnesses

namespace Axiom

/-- Two axioms are the same, or assert one concept of two individuals that
were made up. -/
inductive SameUpToWitness : Axiom → Axiom → Prop where
  | same (a : Axiom) : SameUpToWitness a a
  | witness (concept : Concept) (first second : Nat) :
      SameUpToWitness (.classAssertion concept (.anonymous (.fresh first)))
        (.classAssertion concept (.anonymous (.fresh second)))

/-- Two negations of one axiom are the same up to the witness. -/
theorem sameUpToWitness_of_negation {a b c : Axiom}
    {supply left supply' left' : Supply}
    (first : a.negation supply = .ok (b, left))
    (second : a.negation supply' = .ok (c, left')) : b.SameUpToWitness c := by
  cases a <;> cases first <;> cases second
  case subClassOf => exact .witness ..
  all_goals exact .same _

end Axiom

-- ====================================================================== models

namespace ContextBase

open Statement

variable {m m' : ContextBase} {supply left supply' left' : Supply}
  {o o' : Ontology}

/-- Two models have the same naming concepts and dual names, under them the
same axioms up to their witnesses, and the same rigid entities. -/
structure SameNaming (m m' : ContextBase) : Prop where
  concepts : m'.namingConcepts = m.namingConcepts
  duals : ∀ name, m'.dualName name = m.dualName name
  defined : ∀ concept ∈ m.namingConcepts, ∃ a,
    m.definition? concept = some a ∧ m'.definition? concept = some a
  negated : ∀ concept n, m.dualName concept = .ok n → ∃ a b,
    m.definition? n = some a ∧ m'.definition? n = some b ∧
      a.SameUpToWitness b
  rigid : m'.rigid = m.rigid

/-- Documents in which the same is addressed have the same naming concepts. -/
theorem namingConcepts_eq {ss ss' : List Statement} (sorted : IsSorted ss m)
    (sorted' : IsSorted ss' m') (same : addresses ss' = addresses ss) :
    m'.namingConcepts = m.namingConcepts := by
  rw [← sorted.definitions, ← sorted'.definitions] at same
  have concepts := congrArg (List.map Prod.fst) same
  rw [List.map_map, List.map_map] at concepts
  apply List.map_injective_iff.2 (fun _ _ => NoteValue.iri.inj)
  rw [namingConcepts, namingConcepts, List.map_map, List.map_map]
  exact concepts

/-- A definition is there in every document in which as much is addressed. -/
theorem exists_same_definition {ss ss' : List Statement} {d : Definition}
    (sorted : IsSorted ss m) (sorted' : IsSorted ss' m')
    (sub : addresses ss ⊆ addresses ss') (hd : d ∈ m.definitions) :
    ∃ d' ∈ m'.definitions, d'.concept = d.concept ∧ d'.body = d.body := by
  have address : (.iri d.concept, d.body) ∈ addresses ss' := by
    apply sub
    rw [← sorted.definitions]
    exact List.mem_map_of_mem hd
  rw [← sorted'.definitions] at address
  obtain ⟨d', hd', eq⟩ := List.mem_map.1 address
  obtain ⟨concept, body⟩ := Prod.mk.inj eq
  exact ⟨d', hd', NoteValue.iri.inj concept, body⟩

section Lookups

variable {ss ss' : List Statement} {concept : Iri}
  (split : IsSplit supply ss m left) (split' : IsSplit supply' ss' m' left')
  (sorted : IsSorted ss m) (sorted' : IsSorted ss' m')
  (sub : addresses ss ⊆ addresses ss') (naming : concept ∈ m.namingConcepts)

include split split' sorted sorted' sub naming

/-- Under a naming concept both models keep one axiom. -/
theorem exists_same_body :
    ∃ a, m.definition? concept = some a ∧ m'.definition? concept = some a := by
  obtain ⟨d, hd, rfl⟩ := List.mem_map.1 naming
  obtain ⟨d', hd', concept, body⟩ :=
    exists_same_definition sorted sorted' sub hd
  have found := split'.definition?_eq hd'
  rw [concept, body] at found
  exact ⟨d.body, split.definition?_eq hd, found⟩

/-- Under its dual name they keep negations of this axiom. -/
theorem exists_same_negation :
    ∃ a b, m.definition? concept.dual = some a ∧
      m'.definition? concept.dual = some b ∧ a.SameUpToWitness b := by
  obtain ⟨d, hd, rfl⟩ := List.mem_map.1 naming
  obtain ⟨d', hd', concept, body⟩ :=
    exists_same_definition sorted sorted' sub hd
  obtain ⟨_, _, made⟩ := split.negated.exists_made hd
  obtain ⟨_, _, made'⟩ := split'.negated.exists_made hd'
  have found := split'.definition?_dual hd'
  rw [concept] at found
  rw [body] at made'
  exact ⟨_, _, split.definition?_dual hd, found,
    Axiom.sameUpToWitness_of_negation made made'⟩

end Lookups

/-- Models of documents with the same addressed statements and rigid entities
have the same naming. -/
theorem sameNaming_of_addresses (built : ofOntology supply o = .ok (m, left))
    (built' : ofOntology supply' o' = .ok (m', left'))
    (same : addresses o'.statements = addresses o.statements)
    (rigid : o'.rigid = o.rigid) : m.SameNaming m' := by
  have split := isSplit_of_ofOntology built
  have split' := isSplit_of_ofOntology built'
  have sorted := isSorted_of_ofOntology built
  have sorted' := isSorted_of_ofOntology built'
  have concepts := namingConcepts_eq sorted sorted' same
  have sub : addresses o.statements ⊆ addresses o'.statements :=
    fun _ h => same.symm ▸ h
  constructor
  case concepts => exact concepts
  case duals =>
    intro name
    unfold dualName isNaming
    rw [concepts]
  case defined =>
    intro concept naming
    exact exists_same_body split split' sorted sorted' sub naming
  case negated =>
    intro concept n dual
    obtain ⟨naming, rfl⟩ := dualName_eq_ok.1 dual
    exact exists_same_negation split split' sorted sorted' sub naming
  case rigid =>
    rw [(head_of_ofOntology built).2, (head_of_ofOntology built').2, rigid]

/-- A document has a model, with the same naming, if its addressed statements
and rigid entities are those of a document that has one. -/
theorem exists_sameNaming (built : ofOntology supply o = .ok (m, left))
    (addressed : o'.statements.filter isDefinition =
      o.statements.filter isDefinition)
    (rigid : o'.rigid = o.rigid) (supply' : Supply) :
    ∃ m' left', ofOntology supply' o' = .ok (m', left') ∧
      m.SameNaming m' := by
  have faultless : IsFaultless o.statements :=
    (exists_addStatements_iff supply o _).1 ⟨_, built⟩
  rw [← isFaultless_filter_isDefinition, ← addressed,
    isFaultless_filter_isDefinition] at faultless
  obtain ⟨⟨m', left'⟩, built'⟩ :=
    (exists_addStatements_iff supply' o' _).2 faultless
  have same : addresses o'.statements = addresses o.statements := by
    rw [← addresses_filter_isDefinition, addressed,
      addresses_filter_isDefinition]
  exact ⟨m', left', built',
    sameNaming_of_addresses built built' same rigid⟩

end ContextBase

end ContextDL
