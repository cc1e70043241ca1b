/-
A context model is an exact partition of its document, and its registry is
faithful.

# The partition

`ContextBase.IsSorted` says where the statements of a document have gone. The
meta level holds what is neither addressed nor global, in order and as often
as it is stated; the globals hold each global axiom at its first place; and
there is a definition for every value that addresses a statement, in order.
Declarations go nowhere. One statement keeps this whatever notes it has
(`IsSorted.step`), and so does a document (`isSorted_of_ofOntology`).

A statement that is global and addressed, or addressed by several values, is
at fault, so no document with a model has one (`Statement.part_cases`).

# The registry

No name is registered twice, so no registration overwrites another. What is
found under a concept is the axiom that it addresses, under its dual the
negation that was made of this axiom, and under any other name nothing.
-/
import ContextDL.Proofs.Context.Splitting

namespace ContextDL

-- ======================================================================= parts

namespace Statement

/-- A statement that is more than a declaration. -/
def isLogical (s : Statement) : Bool :=
  s.body.isLogical

/-- What a part says of the statements in it. -/
theorem part_cases {s : Statement} {p : Part} (h : s.part = .ok p) :
    (p = .outside ∧ s.isLogical = false) ∨
    (p = .metaLevel ∧ s.isLogical = true ∧ s.definedBy = [] ∧
      s.isGlobal = false) ∨
    (p = .everywhere ∧ s.isLogical = true ∧ s.definedBy = [] ∧
      s.isGlobal = true) ∨
    ∃ concept, p = .addressed concept ∧ s.isLogical = true ∧
      s.definedBy.eraseDups = [.iri concept] ∧ s.isGlobal = false := by
  unfold part at h
  split at h
  case isTrue outside =>
    cases h
    exact .inl ⟨rfl, by simpa [isLogical] using outside⟩
  case isFalse inside =>
    have logical : s.isLogical = true := by simpa [isLogical] using inside
    split at h
    case h_1 none =>
      have unaddressed : s.definedBy = [] := by
        cases values : s.definedBy with
        | nil => rfl
        | cons value others => simp [values, List.eraseDups_cons] at none
      cases global : s.isGlobal with
      | false =>
        rw [global] at h
        cases h
        exact .inr (.inl ⟨rfl, logical, unaddressed, rfl⟩)
      | true =>
        rw [global] at h
        cases h
        exact .inr (.inr (.inl ⟨rfl, logical, unaddressed, rfl⟩))
    case h_2 value others values =>
      split at h
      case isTrue => cases h
      case isFalse global =>
        split at h
        case h_1 concept =>
          cases h
          exact .inr (.inr (.inr
            ⟨concept, rfl, logical, values, by simpa using global⟩))
        case h_2 => cases h
        case h_3 => cases h

/-- The axioms of the logical statements that satisfy a condition. -/
def logicalAxioms (select : Statement → Bool) (ss : List Statement) :
    List Axiom :=
  (ss.filter fun s => s.isLogical && select s).map body

/-- One more statement is selected or not. -/
theorem logicalAxioms_concat (select : Statement → Bool)
    (ss : List Statement) (s : Statement) :
    logicalAxioms select (ss ++ [s]) =
      logicalAxioms select ss ++
        if s.isLogical && select s then [s.body] else [] := by
  unfold logicalAxioms
  rw [List.filter_append, List.map_append]
  split
  case isTrue selected => simp [selected]
  case isFalse other => simp [other]

/-- The values that address the logical statements, in order. A statement
counts each of its values once. -/
def addresses (ss : List Statement) : List (NoteValue × Axiom) :=
  (ss.filter isLogical).flatMap fun s =>
    s.definedBy.eraseDups.map fun value => (value, s.body)

/-- One more statement is addressed by its values. -/
theorem addresses_concat (ss : List Statement) (s : Statement) :
    addresses (ss ++ [s]) = addresses ss ++
      if s.isLogical then s.definedBy.eraseDups.map fun value => (value, s.body)
      else [] := by
  unfold addresses
  rw [List.filter_append, List.flatMap_append]
  split
  case isTrue logical => simp [logical]
  case isFalse other => simp [other]

end Statement

-- =================================================================== partition

namespace ContextBase

variable {m m' : ContextBase} {supply left : Supply} {o : Ontology}

/-- Some statements, each in its part. -/
structure IsSorted (ss : List Statement) (m : ContextBase) : Prop where
  metaAxioms : m.metaAxioms = Statement.logicalAxioms Statement.isMeta ss
  globals : m.globals =
    (Statement.logicalAxioms Statement.isGlobal ss).eraseDups
  definitions : m.definitions.map (fun d => (NoteValue.iri d.concept, d.body)) =
    Statement.addresses ss
  apart : ∀ s ∈ ss, s.isLogical = true → s.isGlobal = true → s.definedBy = []

/-- One more member counts if it is new. -/
theorem eraseDups_concat (as : List Axiom) (a : Axiom) :
    (as ++ [a]).eraseDups =
      if a ∈ as.eraseDups then as.eraseDups else as.eraseDups ++ [a] := by
  rw [List.eraseDups_append]
  by_cases known : a ∈ as <;>
    simp [List.removeAll, known, List.eraseDups_cons]

/-- Adding a statement puts it into its part. -/
theorem IsSorted.step {done : List Statement} {s : Statement}
    {middle : Supply} (h : IsSorted done m)
    (run : m.addStatement middle s = .ok (m', left)) :
    IsSorted (done ++ [s]) m' := by
  have apart (last : s.isLogical = true → s.isGlobal = true →
      s.definedBy = []) : ∀ t ∈ done ++ [s], t.isLogical = true →
        t.isGlobal = true → t.definedBy = [] := by
    intro t ht
    rcases List.mem_append.1 ht with ht | ht
    · exact h.apart t ht
    · exact List.mem_singleton.1 ht ▸ last
  rcases addStatement_cases run with ⟨part, rfl, -⟩ | ⟨part, -, rfl⟩ |
    ⟨part, -, rfl⟩ | ⟨concept, part, run⟩
  · obtain ⟨-, outside⟩ | ⟨⟨⟩, -⟩ | ⟨⟨⟩, -⟩ | ⟨_, ⟨⟩, -⟩ :=
      Statement.part_cases part
    constructor
    · simp [Statement.logicalAxioms_concat, outside, h.metaAxioms]
    · simp [Statement.logicalAxioms_concat, outside, h.globals]
    · simp [Statement.addresses_concat, outside, h.definitions]
    · exact apart fun logical => absurd logical (by simp [outside])
  · obtain ⟨⟨⟩, -⟩ | ⟨-, logical, values, global⟩ | ⟨⟨⟩, -⟩ | ⟨_, ⟨⟩, -⟩ :=
      Statement.part_cases part
    have isMeta : s.isMeta = true := by simp [Statement.isMeta, values, global]
    constructor
    · simp [Statement.logicalAxioms_concat, logical, isMeta, h.metaAxioms]
    · simp [Statement.logicalAxioms_concat, global, h.globals]
    · simp [Statement.addresses_concat, values, h.definitions]
    · exact apart fun _ _ => values
  · obtain ⟨⟨⟩, -⟩ | ⟨⟨⟩, -⟩ | ⟨-, logical, values, global⟩ | ⟨_, ⟨⟩, -⟩ :=
      Statement.part_cases part
    have noMeta : s.isMeta = false := by simp [Statement.isMeta, global]
    constructor
    · simp [Statement.logicalAxioms_concat, noMeta, h.metaAxioms]
    · simp [Statement.logicalAxioms_concat, logical, global, eraseDups_concat,
        h.globals]
    · simp [Statement.addresses_concat, values, h.definitions]
    · exact apart fun _ _ => values
  · obtain ⟨⟨⟩, -⟩ | ⟨⟨⟩, -⟩ | ⟨⟨⟩, -⟩ | ⟨_, ⟨⟩, logical, values, global⟩ :=
      Statement.part_cases part
    have noMeta : s.isMeta = false := by
      have addressed : s.definedBy ≠ [] := fun none => by simp [none] at values
      simp [Statement.isMeta, addressed]
    obtain ⟨-, -, negation, -, rfl⟩ := define_cases run
    constructor
    · simp [Statement.logicalAxioms_concat, noMeta, h.metaAxioms]
    · simp [Statement.logicalAxioms_concat, global, h.globals]
    · simp [Statement.addresses_concat, logical, values, h.definitions]
    · exact apart fun _ isGlobal => absurd isGlobal (by simp [global])

/-- The statements of a document are in the parts of its model. -/
theorem isSorted_of_ofOntology (built : ofOntology supply o = .ok (m, left)) :
    IsSorted o.statements m := by
  refine @addStatements_induction _ _ _ _ (fun ss m _ => IsSorted ss m) ?_
    (fun _ _ _ _ _ _ before run => before.step run) _ built
  exact
    { metaAxioms := rfl
      globals := by simp [start, Statement.logicalAxioms]
      definitions := rfl
      apart := by simp }

-- ================================================================== conclusion

/-- The meta level is the meta axioms under the head of the document. -/
theorem metaOntology_eq (m : ContextBase) :
    m.metaOntology =
      { iri := m.iri
        statements := m.metaAxioms.map Statement.plain
        notes := EntityNotes.empty.markAll m.rigid } :=
  Ontology.foldl_markRigid m.rigid _

/-- Every concept that addresses a logical statement has a definition. -/
theorem IsSorted.exists_definition {ss : List Statement} {s : Statement}
    {concept : Iri} (h : IsSorted ss m) (stated : s ∈ ss)
    (logical : s.isLogical = true) (addressed : .iri concept ∈ s.definedBy) :
    ∃ d ∈ m.definitions, d.concept = concept ∧ d.body = s.body := by
  have address : (.iri concept, s.body) ∈ Statement.addresses ss := by
    refine List.mem_flatMap.2 ⟨s, List.mem_filter.2 ⟨stated, logical⟩, ?_⟩
    exact List.mem_map.2 ⟨_, List.mem_eraseDups.2 addressed, rfl⟩
  rw [← h.definitions] at address
  obtain ⟨d, hd, same⟩ := List.mem_map.1 address
  obtain ⟨value, body⟩ := Prod.mk.inj same
  exact ⟨d, hd, NoteValue.iri.inj value, body⟩

/-- The parts of a model are those of a document, and every axiom is found
under its names. -/
structure Partitions (m : ContextBase) (o : Ontology) : Prop where
  metaStatements : m.metaOntology.statements =
    (o.statements.filter fun s => s.isLogical && s.isMeta).map
      fun s => .plain s.body
  metaIri : m.metaOntology.iri = o.iri
  metaRigid : ∀ e, e ∈ m.metaOntology.rigid ↔ e ∈ o.rigid
  globals : m.globals =
    ((o.statements.filter fun s => s.isLogical && s.isGlobal).map
      Statement.body).eraseDups
  apart : ∀ s ∈ o.statements, s.isLogical = true → s.isGlobal = true →
    s.definedBy = []
  naming : m.namingConcepts.map NoteValue.iri =
    (o.statements.filter Statement.isLogical).flatMap
      fun s => s.definedBy.eraseDups
  distinct : m.namingConcepts.Nodup
  defined : ∀ s ∈ o.statements, s.isLogical = true →
    ∀ concept, .iri concept ∈ s.definedBy →
      m.definition? concept = some s.body ∧
        m.dualName concept = .ok concept.dual ∧
        ∃ supply negation left,
          s.body.negation supply = .ok (negation, left) ∧
            m.definition? concept.dual = some negation
  others : ∀ name, name ∉ m.namingConcepts →
    (∀ concept ∈ m.namingConcepts, name ≠ concept.dual) →
      m.definition? name = none
  /-- No name is registered twice, so nothing is overwritten. -/
  registered : (m.registry.map Prod.fst).Nodup

/-- The model of a document partitions it exactly and keeps its registry
faithfully. -/
theorem partitions_of_ofOntology
    (built : ofOntology supply o = .ok (m, left)) : m.Partitions o := by
  have split := isSplit_of_ofOntology built
  have sorted := isSorted_of_ofOntology built
  obtain ⟨iri, rigid⟩ := head_of_ofOntology built
  constructor
  case metaStatements =>
    rw [metaOntology_eq, sorted.metaAxioms, Statement.logicalAxioms,
      List.map_map]
    rfl
  case metaIri => rw [metaOntology_eq, iri]
  case metaRigid =>
    intro e
    have unmarked : EntityNotes.empty.isRigid e = false := rfl
    rw [metaOntology_eq, Ontology.rigid, EntityNotes.mem_rigid,
      EntityNotes.isRigid_markAll, rigid, unmarked]
    simp
  case globals => exact sorted.globals
  case apart => exact sorted.apart
  case naming =>
    have values := congrArg (List.map Prod.fst) sorted.definitions
    rw [Statement.addresses, List.map_flatMap] at values
    simpa [namingConcepts, Function.comp_def] using values
  case distinct => exact split.nodup
  case defined =>
    intro s stated logical concept addressed
    obtain ⟨d, hd, rfl, body⟩ :=
      sorted.exists_definition stated logical addressed
    obtain ⟨supply, left, made⟩ := split.negated.exists_made hd
    have naming : m.isNaming d.concept = true :=
      List.contains_iff_mem.2 (List.mem_map_of_mem hd)
    rw [← body]
    refine ⟨split.definition?_eq hd, ?_, supply, d.negation, left, made,
      split.definition?_dual hd⟩
    rw [dualName, if_pos naming]
  case others =>
    intro name new noDual
    exact definition?_eq_none_iff.2 ⟨new, noDual⟩
  case registered => exact split.nodup_registry

/-- A rigid entity, a declaration and an assertion with notes that mean
nothing here, a global assertion that is stated twice, and two inclusions that
are addressed, one of them by the same concept twice. -/
def mixedDocument : Ontology :=
  let a : Individual := .named ⟨"e:a"⟩
  let known := .classAssertion (.atom ⟨"e:A"⟩) a
  { iri := some ⟨"e:doc"⟩
    statements :=
      [⟨.declareClass ⟨"e:A"⟩, [.definedBy ⟨"e:N"⟩, .objectGlobal]⟩,
        ⟨.subClassOf (.atom ⟨"e#M"⟩) (.atom ⟨"e:N"⟩), [.label "why"]⟩,
        ⟨known, [.objectGlobal]⟩,
        ⟨.subClassOf (.atom ⟨"e:A"⟩) .bottom,
          [.definedBy ⟨"e#M"⟩, .label "twice", .definedBy ⟨"e#M"⟩]⟩,
        ⟨known, [.label "again", .objectGlobal]⟩,
        ⟨known, [.definedBy ⟨"e:N"⟩]⟩,
        .plain (.subClassOf (.atom ⟨"e#M"⟩) (.atom ⟨"e:N"⟩))]
    notes := EntityNotes.empty.add ⟨"e:A"⟩ .rigid }

/-- The model of these statements. -/
def mixedModel : ContextBase where
  iri := some ⟨"e:doc"⟩
  metaAxioms :=
    [.subClassOf (.atom ⟨"e#M"⟩) (.atom ⟨"e:N"⟩),
      .subClassOf (.atom ⟨"e#M"⟩) (.atom ⟨"e:N"⟩)]
  definitions :=
    [⟨⟨"e#M"⟩, .subClassOf (.atom ⟨"e:A"⟩) .bottom,
        .classAssertion (.atom ⟨"e:A"⟩) (.anonymous (.fresh 0))⟩,
      ⟨⟨"e:N"⟩, .classAssertion (.atom ⟨"e:A"⟩) (.named ⟨"e:a"⟩),
        .classAssertion (.compl (.atom ⟨"e:A"⟩)) (.named ⟨"e:a"⟩)⟩]
  globals := [.classAssertion (.atom ⟨"e:A"⟩) (.named ⟨"e:a"⟩)]
  rigid := [⟨"e:A"⟩]

/-- The parts of a document with all kinds of notes, and an axiom that is
found under the dual name of its concept. -/
theorem mixedModel_partitions :
    ofOntology .full mixedDocument = .ok (mixedModel, ⟨1⟩) ∧
      mixedModel.Partitions mixedDocument ∧
      mixedModel.definition? ⟨"e#DUAL.M"⟩ =
        some (.classAssertion (.atom ⟨"e:A"⟩) (.anonymous (.fresh 0))) := by
  have built : ofOntology .full mixedDocument = .ok (mixedModel, ⟨1⟩) := by
    decide +kernel
  exact ⟨built, partitions_of_ofOntology built, by decide +kernel⟩

end ContextBase

end ContextDL
