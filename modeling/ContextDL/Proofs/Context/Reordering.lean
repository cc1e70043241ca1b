/-
Documents in another order.

A context model depends on the order of its document only in what the order of
its lists shows, and in the labels of the individuals that are made up. Two
questions look at the statements before a statement: whether its concept is
used already, and whether its global axiom is listed already. So a document
and its reordering take different ways through the loop, and meet again:

- a list of statements is without fault if each of them is by itself, and no
  two define one concept (`Statement.isFaultless_iff_pairwise`). Neither says
  where the statements stand, so both documents have a model or none;
- the statements of both documents are in the same parts, and as often. Both
  models have the same content (`ContextBase.SameContent`);
- in the one document an inclusion may stand before another and in the other
  behind it, so their witnesses change labels. One permutation of blank nodes
  takes the witnesses of the one model to those of the other
  (`ContextBase.exists_moves_witnesses`), and with them the axioms of all
  branches at once (`ContextBase.perm_axioms_selection`).
-/
import ContextDL.Proofs.Context.Polarity
import ContextDL.Proofs.Context.Registration
import ContextDL.Proofs.Context.Witnesses
import ContextDL.Proofs.Renaming.Branches
import Mathlib.Data.List.Perm.Basic

namespace ContextDL

-- ====================================================================== faults

namespace Statement

variable {s t : Statement} {ss ss' : List Statement}

/-- A logical statement that some note says to be defined by a concept. -/
def IsNamedBy (s : Statement) (concept : Iri) : Prop :=
  s.isLogical = true ∧ .iri concept ∈ s.definedBy

/-- Two statements are defined by one concept. -/
def Clash (s t : Statement) : Prop :=
  ∃ c, s.IsNamedBy c ∧ t.IsNamedBy c

/-- It does not matter which of them comes first. -/
theorem Clash.symm (clash : s.Clash t) : t.Clash s := by
  obtain ⟨c, first, second⟩ := clash
  exact ⟨c, second, first⟩

/-- A statement has a fault behind some others if it has one by itself, or if
one of them defines its concept. -/
theorem exists_hasFault_iff :
    (∃ e, s.HasFault ss e) ↔
      (∃ e, s.HasFault [] e) ∨ ∃ t ∈ ss, t.Clash s := by
  have nothing {c : Iri} : ¬ Defines [] c := fun ⟨_, ht, _⟩ => by cases ht
  constructor
  · intro h
    obtain ⟨e, fault⟩ := h
    cases fault with
    | addressedGlobal logical addressed global =>
      exact .inl ⟨_, .addressedGlobal logical addressed global⟩
    | multipleDefinitions logical apart first second distinct =>
      exact .inl ⟨_, .multipleDefinitions logical apart first second distinct⟩
    | literalDefinition address => exact .inl ⟨_, .literalDefinition address⟩
    | reserved address unfit => exact .inl ⟨_, .reserved address unfit⟩
    | noNegation address fit new none =>
      exact .inl ⟨_, .noNegation address fit nothing none⟩
    | @duplicate c address fit defined =>
      obtain ⟨t, ht, defines⟩ := defined
      exact .inr ⟨t, ht, c, defines, address.logical, address.mem⟩
  · intro h
    rcases h with ⟨e, fault⟩ | ⟨t, ht, c, defines, logical, mem⟩
    · cases fault with
      | addressedGlobal logical addressed global =>
        exact ⟨_, .addressedGlobal logical addressed global⟩
      | multipleDefinitions logical apart first second distinct =>
        exact ⟨_, .multipleDefinitions logical apart first second distinct⟩
      | literalDefinition address => exact ⟨_, .literalDefinition address⟩
      | reserved address unfit => exact ⟨_, .reserved address unfit⟩
      | duplicate address fit defined => exact absurd defined nothing
      | @noNegation c address fit new none =>
        by_cases defined : Defines ss c
        · exact ⟨_, .duplicate address fit defined⟩
        · exact ⟨_, .noNegation address fit defined none⟩
    · -- the tests before the one for repetition find a fault, or let it pass
      cases global : s.isGlobal with
      | true =>
        exact ⟨_, .addressedGlobal logical (List.ne_nil_of_mem mem) global⟩
      | false =>
        by_cases only : ∀ other ∈ s.definedBy, other = .iri c
        · have address : s.AddressedBy (.iri c) := ⟨logical, global, mem, only⟩
          by_cases unfit : IsSetAside c
          · exact ⟨_, .reserved address unfit⟩
          · exact ⟨_, .duplicate address unfit ⟨t, ht, defines⟩⟩
        · simp only [not_forall] at only
          obtain ⟨other, second, distinct⟩ := only
          exact ⟨_, .multipleDefinitions logical global mem second
            (Ne.symm distinct)⟩

/-- A list is faultless if no statement is at fault by itself and no two define
one concept. -/
theorem isFaultless_iff_pairwise :
    IsFaultless ss ↔ (∀ s ∈ ss, ¬ ∃ e, s.HasFault [] e) ∧
      ss.Pairwise fun s t => ¬ s.Clash t := by
  induction ss using List.reverseRecOn with
  | nil =>
    refine iff_of_true (fun before s after same => ?_) (by simp)
    simp at same
  | append_singleton ss s ih =>
    rw [isFaultless_concat, ih, ← not_exists, exists_hasFault_iff,
      List.forall_mem_append, List.forall_mem_singleton, List.pairwise_append]
    simp only [not_or, List.pairwise_singleton, List.forall_mem_singleton,
      true_and, not_exists, not_and]
    tauto

/-- In another order a list is faultless if it was. -/
theorem isFaultless_perm (perm : ss'.Perm ss) :
    IsFaultless ss' ↔ IsFaultless ss := by
  rw [isFaultless_iff_pairwise, isFaultless_iff_pairwise,
    perm.pairwise_iff fun apart clash => apart clash.symm]
  simp only [perm.mem_iff]

-- ======================================================================= parts

/-- In another order the same axioms are logical and selected. -/
theorem perm_logicalAxioms (select : Statement → Bool) (perm : ss'.Perm ss) :
    (logicalAxioms select ss').Perm (logicalAxioms select ss) :=
  (perm.filter _).map _

/-- In another order the same is addressed. -/
theorem perm_addresses (perm : ss'.Perm ss) :
    (addresses ss').Perm (addresses ss) :=
  (perm.filter _).flatMap_right _

end Statement

-- ================================================================== signatures

/-- Two signatures have the same classes, properties and individuals. -/
structure Signature.SameNames (s t : Signature) : Prop where
  classes : ∀ n, n ∈ s.classes ↔ n ∈ t.classes
  properties : ∀ n, n ∈ s.properties ↔ n ∈ t.properties
  individuals : ∀ n, n ∈ s.individuals ↔ n ∈ t.individuals

/-- Lists whose members have the same signatures have the same names. -/
theorem Signature.sameNames_unionAll {α : Type} {signature : α → Signature}
    {xs ys : List α} (forth : ∀ x ∈ xs, ∃ y ∈ ys, signature x = signature y)
    (back : ∀ y ∈ ys, ∃ x ∈ xs, signature y = signature x) :
    (unionAll signature xs).SameNames (unionAll signature ys) := by
  have same (p : Signature → Prop) (join : ∀ s t, p (s ∪ t) ↔ p s ∨ p t)
      (none : ¬ p empty) :
      p (unionAll signature xs) ↔ p (unionAll signature ys) := by
    rw [unionAll_iff_exists join none, unionAll_iff_exists join none]
    constructor
    · intro h
      obtain ⟨x, hx, holds⟩ := h
      obtain ⟨y, hy, eq⟩ := forth x hx
      exact ⟨y, hy, eq ▸ holds⟩
    · intro h
      obtain ⟨y, hy, holds⟩ := h
      obtain ⟨x, hx, eq⟩ := back y hy
      exact ⟨x, hx, eq ▸ holds⟩
  constructor
  · intro n
    exact same (n ∈ ·.classes) (fun _ _ => mem_classes_union) List.not_mem_nil
  · intro n
    exact same (n ∈ ·.properties) (fun _ _ => mem_properties_union)
      List.not_mem_nil
  · intro n
    exact same (n ∈ ·.individuals) (fun _ _ => mem_individuals_union)
      List.not_mem_nil

/-- A signature does not tell which individual was made up. -/
theorem Axiom.SameUpToWitness.signature_eq {a b : Axiom}
    (same : a.SameUpToWitness b) : a.signature = b.signature := by
  cases same <;> rfl

-- ===================================================================== content

namespace ContextBase

open Statement

variable {m m' : ContextBase} {supply left supply' left' : Supply}
  {ss ss' : List Statement} {o o' : Ontology} {b : Branch}

/-- Two models have the same parts, up to the order of the lists and the labels
of the individuals that were made up; so both or none have the object ontology
of a branch. -/
structure SameContent (m m' : ContextBase) : Prop where
  iri : m'.iri = m.iri
  concepts : m'.namingConcepts.Perm m.namingConcepts
  duals : ∀ name, m'.dualName name = m.dualName name
  defined : ∀ concept ∈ m.namingConcepts, ∃ a,
    m.definition? concept = some a ∧ m'.definition? concept = some a
  negated : ∀ concept ∈ m.namingConcepts, ∃ a b,
    m.definition? concept.dual = some a ∧
      m'.definition? concept.dual = some b ∧ a.SameUpToWitness b
  others : ∀ name, m'.definition? name = none ↔ m.definition? name = none
  globals : m'.globals.Perm m.globals
  metaAxioms : m'.metaAxioms.Perm m.metaAxioms
  rigid : ∀ e, e ∈ m'.rigid ↔ e ∈ m.rigid
  metaSignature : m'.metaSignature.SameNames m.metaSignature
  objectSignature : m'.objectSignature.SameNames m.objectSignature
  flexible : ∀ n, n ∈ m'.flexibleNames ↔ n ∈ m.flexibleNames
  branches : ∀ b, (∃ v, m'.branchOntology b = .ok v) ↔
    ∃ v, m.branchOntology b = .ok v

/-- Where as much is addressed, as many concepts are naming concepts. -/
theorem namingConcepts_subset (sorted : IsSorted ss m)
    (sorted' : IsSorted ss' m') (sub : addresses ss ⊆ addresses ss') :
    m.namingConcepts ⊆ m'.namingConcepts := by
  intro c naming
  obtain ⟨d, hd, rfl⟩ := List.mem_map.1 naming
  obtain ⟨d', hd', concept, -⟩ :=
    exists_same_definition sorted sorted' sub hd
  exact concept ▸ List.mem_map_of_mem hd'

/-- Where as much is addressed and global, every axiom of the object level has
one with its signature. -/
theorem exists_same_signature (split : IsSplit supply ss m left)
    (split' : IsSplit supply' ss' m' left') (sorted : IsSorted ss m)
    (sorted' : IsSorted ss' m') (sub : addresses ss ⊆ addresses ss')
    (globals : m.globals ⊆ m'.globals) {a : Axiom}
    (ha : a ∈ m.globals ++ m.registry.map (·.2)) :
    ∃ b ∈ m'.globals ++ m'.registry.map (·.2), a.signature = b.signature := by
  rcases List.mem_append.1 ha with global | kept
  · exact ⟨a, List.mem_append_left _ (globals global), rfl⟩
  obtain ⟨⟨name, _⟩, entry, rfl⟩ := List.mem_map.1 kept
  obtain ⟨d, hd, kept⟩ := mem_registry.1 entry
  have naming : d.concept ∈ m.namingConcepts := List.mem_map_of_mem hd
  rcases kept with ⟨rfl, rfl⟩ | ⟨rfl, rfl⟩
  · obtain ⟨a, found, found'⟩ :=
      exists_same_body split split' sorted sorted' sub naming
    rw [split.definition?_eq hd, Option.some.injEq] at found
    have kept := split'.definition?_eq_some_iff.1 found'
    refine ⟨a, List.mem_append_right _ (List.mem_map_of_mem kept), ?_⟩
    rw [← found]
  · obtain ⟨a, b, found, found', same⟩ :=
      exists_same_negation split split' sorted sorted' sub naming
    rw [split.definition?_dual hd, Option.some.injEq] at found
    have kept := split'.definition?_eq_some_iff.1 found'
    refine ⟨b, List.mem_append_right _ (List.mem_map_of_mem kept), ?_⟩
    exact found ▸ same.signature_eq

/-- In another order the same axioms are global. -/
theorem perm_globals (sorted : IsSorted ss m) (sorted' : IsSorted ss' m')
    (perm : ss'.Perm ss) : m'.globals.Perm m.globals := by
  rw [sorted.globals, sorted'.globals]
  apply (List.perm_ext_iff_of_nodup (nodup_eraseDups _)
    (nodup_eraseDups _)).2
  intro a
  rw [List.mem_eraseDups, List.mem_eraseDups]
  exact (perm_logicalAxioms isGlobal perm).mem_iff

/-- In another order the meta level has the same axioms, as often. -/
theorem perm_metaAxioms (sorted : IsSorted ss m) (sorted' : IsSorted ss' m')
    (perm : ss'.Perm ss) : m'.metaAxioms.Perm m.metaAxioms := by
  rw [sorted.metaAxioms, sorted'.metaAxioms]
  exact perm_logicalAxioms isMeta perm

/-- Models of one list of statements in two orders have the same content, if
their heads have. -/
theorem sameContent_of_perm (split : IsSplit supply ss m left)
    (split' : IsSplit supply' ss' m' left') (sorted : IsSorted ss m)
    (sorted' : IsSorted ss' m') (perm : ss'.Perm ss) (iri : m'.iri = m.iri)
    (rigid : ∀ e, e ∈ m'.rigid ↔ e ∈ m.rigid) : m.SameContent m' := by
  have sub : addresses ss ⊆ addresses ss' := (perm_addresses perm).symm.subset
  have sub' : addresses ss' ⊆ addresses ss := (perm_addresses perm).subset
  have naming (c : Iri) : c ∈ m'.namingConcepts ↔ c ∈ m.namingConcepts :=
    ⟨fun h => namingConcepts_subset sorted' sorted sub' h,
      fun h => namingConcepts_subset sorted sorted' sub h⟩
  have globals := perm_globals sorted sorted' perm
  have metaAxioms := perm_metaAxioms sorted sorted' perm
  have objectSignature : m'.objectSignature.SameNames m.objectSignature := by
    apply Signature.sameNames_unionAll
    · exact fun _ => exists_same_signature split' split sorted' sorted sub'
        globals.subset
    · exact fun _ => exists_same_signature split split' sorted sorted' sub
        globals.symm.subset
  have registered (c : Iri) : m'.IsRegistered c ↔ m.IsRegistered c := by
    simp only [IsRegistered, naming]
  constructor
  case iri => exact iri
  case concepts =>
    exact (List.perm_ext_iff_of_nodup split'.nodup split.nodup).2 naming
  case duals =>
    intro name
    have same : m'.isNaming name = m.isNaming name := by
      rw [Bool.eq_iff_iff, isNaming, isNaming, List.contains_iff_mem,
        List.contains_iff_mem, naming]
    rw [dualName, dualName, same]
  case defined =>
    intro concept hc
    exact exists_same_body split split' sorted sorted' sub hc
  case negated =>
    intro concept hc
    exact exists_same_negation split split' sorted sorted' sub hc
  case others =>
    intro name
    simp only [definition?_eq_none_iff, naming]
  case globals => exact globals
  case metaAxioms => exact metaAxioms
  case rigid => exact rigid
  case metaSignature =>
    apply Signature.sameNames_unionAll
    · exact fun a ha => ⟨a, metaAxioms.mem_iff.1 ha, rfl⟩
    · exact fun a ha => ⟨a, metaAxioms.mem_iff.2 ha, rfl⟩
  case objectSignature => exact objectSignature
  case flexible =>
    intro n
    simp only [mem_flexibleNames, Signature.IsPredicate,
      objectSignature.classes, objectSignature.properties, rigid]
  case branches =>
    intro b
    simp only [branchOntology_eq_ok_iff, exists_and_left, exists_eq, and_true,
      Admits, registered, naming]

-- ================================================================= relabelling

/-- The individual that was made up for the negation of a concept's axiom. -/
def witness? (m : ContextBase) (concept : Iri) : Option BlankNode :=
  match m.definition? concept, m.definition? concept.dual with
  | some body, some negation => Definition.witness? ⟨concept, body, negation⟩
  | _, _ => none

/-- It is the witness of its definition. -/
theorem IsSplit.witness?_eq (split : IsSplit supply ss m left)
    {d : Definition} (hd : d ∈ m.definitions) :
    m.witness? d.concept = d.witness? := by
  rw [witness?, split.definition?_eq hd, split.definition?_dual hd]

/-- The witnesses of all concepts are those of the definitions. -/
theorem IsSplit.filterMap_witness? (split : IsSplit supply ss m left) :
    m.namingConcepts.filterMap m.witness? =
      m.definitions.filterMap Definition.witness? := by
  rw [namingConcepts, List.filterMap_map]
  exact List.filterMap_congr fun d hd => split.witness?_eq hd

/-- They are what was made up for the model. -/
theorem IsSplit.mem_witnesses_iff (split : IsSplit supply ss m left)
    {n : BlankNode} :
    n ∈ m.namingConcepts.filterMap m.witness? ↔ supply.MadeUp left n := by
  rw [split.filterMap_witness?, split.negated.mem_witnesses_iff]

/-- No two concepts have the same one. -/
theorem IsSplit.nodup_witnesses (split : IsSplit supply ss m left) :
    (m.namingConcepts.filterMap m.witness?).Nodup := by
  rw [split.filterMap_witness?]
  exact split.negated.nodup_witnesses

section Relabelling

variable (split : IsSplit supply ss m left)
  (split' : IsSplit supply' ss' m' left') (sorted : IsSorted ss m)
  (sorted' : IsSorted ss' m') (sub : addresses ss ⊆ addresses ss')
  (same : m.SameContent m')

include split split' sorted sorted' sub same

/-- Some permutation takes the witness of each concept in the one model to its
witness in the other. It takes what the one has made up to what the other has,
and moves nothing else. -/
theorem exists_moves_witnesses :
    ∃ σ : Equiv.Perm BlankNode,
      (∀ c ∈ m.namingConcepts, (m.witness? c).map σ = m'.witness? c) ∧
      (∀ n, supply'.MadeUp left' (σ n) ↔ supply.MadeUp left n) ∧
      ∀ n, ¬ supply.MadeUp left n → ¬ supply'.MadeUp left' n → σ n = n := by
  have both : ∀ c ∈ m.namingConcepts,
      (m.witness? c).isSome = (m'.witness? c).isSome := by
    intro c naming
    obtain ⟨d, hd, rfl⟩ := List.mem_map.1 naming
    obtain ⟨d', hd', concept, body⟩ :=
      exists_same_definition sorted sorted' sub hd
    obtain ⟨_, _, made⟩ := split.negated.exists_made hd
    obtain ⟨_, _, made'⟩ := split'.negated.exists_made hd'
    rw [split.witness?_eq hd, ← concept, split'.witness?_eq hd']
    exact Definition.isSome_witness? made made' body
  -- the second model lists its concepts in an order of its own
  have listed := same.concepts.filterMap m'.witness?
  have mem' (n : BlankNode) :
      n ∈ m.namingConcepts.filterMap m'.witness? ↔
        supply'.MadeUp left' n := by
    rw [← listed.mem_iff, split'.mem_witnesses_iff]
  obtain ⟨σ, leads, fixes⟩ := exists_perm_of_filterMap both
    split.nodup_witnesses (listed.nodup_iff.1 split'.nodup_witnesses)
  refine ⟨σ, leads, fun n => ?_, fun n hn hn' => ?_⟩
  · have image : (m.namingConcepts.filterMap m.witness?).map σ =
        m.namingConcepts.filterMap m'.witness? := by
      rw [List.map_filterMap]
      exact List.filterMap_congr leads
    rw [← split.mem_witnesses_iff, ← mem', ← image,
      List.mem_map_of_injective σ.injective]
  · exact fixes n (mt split.mem_witnesses_iff.1 hn) (mt (mem' n).1 hn')

/-- A map that takes the witness of each concept in the one model to its
witness in the other, and fixes what the document says, takes what the one
keeps under any name to what the other keeps there. -/
theorem definition?_eq_map {f : BlankNode → BlankNode}
    (leads : ∀ c ∈ m.namingConcepts, (m.witness? c).map f = m'.witness? c)
    (fixed : ∀ s ∈ ss, ∀ n ∈ s.body.nodes, f n = n) (name : Iri) :
    m'.definition? name = (m.definition? name).map (Axiom.mapNodes f) := by
  cases found : m.definition? name with
  | none => exact (same.others name).2 found
  | some a =>
    obtain ⟨d, hd, kept⟩ :=
      mem_registry.1 (split.definition?_eq_some_iff.1 found)
    obtain ⟨d', hd', concept, body⟩ :=
      exists_same_definition sorted sorted' sub hd
    have fixed : ∀ n ∈ d.body.nodes, f n = n := by
      obtain ⟨s, hs, stated⟩ := split.bodies d hd
      exact stated ▸ fixed s hs
    rcases kept with ⟨rfl, rfl⟩ | ⟨rfl, rfl⟩
    · rw [← concept, split'.definition?_eq hd', body, Option.map_some,
        Axiom.mapNodes_eq_self fixed]
    · obtain ⟨_, _, made⟩ := split.negated.exists_made hd
      obtain ⟨_, _, made'⟩ := split'.negated.exists_made hd'
      have moved := leads d.concept (List.mem_map_of_mem hd)
      rw [split.witness?_eq hd, ← concept, split'.witness?_eq hd'] at moved
      rw [← concept, split'.definition?_dual hd', Option.map_some,
        Definition.negation_eq_mapNodes made made' body fixed moved]

end Relabelling

/-- A permutation that takes what is kept under any name in the one model to
what is kept there in the other, and fixes what the document says, takes the
axioms of a branch to its axioms. -/
theorem perm_axioms_selection (split : IsSplit supply ss m left)
    (sorted : IsSorted ss m) (sorted' : IsSorted ss' m')
    (same : m.SameContent m')
    {σ : Equiv.Perm BlankNode}
    (kept : ∀ name,
      m'.definition? name = (m.definition? name).map (Axiom.mapNodes σ))
    (fixed : ∀ s ∈ ss, ∀ n ∈ s.body.nodes, σ n = n) (b : Branch) :
    (m'.selection b).axioms.Perm
      ((m.selection b).axioms.map (Axiom.mapNodes σ)) := by
  have injective : Function.Injective (Axiom.mapNodes σ) :=
    Axiom.mapNodes_injective σ.symm_apply_apply
  refine (List.perm_ext_iff_of_nodup (nodup_selection sorted' b)
    ((nodup_selection sorted b).map injective)).2 fun a => ?_
  have asks (name : Iri) : m'.AsksFor b name ↔ m.AsksFor b name := by
    simp only [AsksFor, same.duals]
  -- a global axiom is stated, so it stays as it is
  have global {a : Axiom} (ha : a ∈ m.globals) : a.mapNodes σ = a := by
    obtain ⟨s, hs, rfl⟩ := split.globals a ha
    exact Axiom.mapNodes_eq_self (fixed s hs)
  simp only [List.mem_map, mem_selection, asks, kept, Option.map_eq_some_iff,
    same.globals.mem_iff]
  constructor
  · intro h
    rcases h with ha | ⟨name, asked, c, found, rfl⟩
    · exact ⟨a, .inl ha, global ha⟩
    · exact ⟨c, .inr ⟨name, asked, found⟩, rfl⟩
  · intro h
    obtain ⟨c, hc | ⟨name, asked, found⟩, rfl⟩ := h
    · exact .inl ((global hc).symm ▸ hc)
    · exact .inr ⟨name, asked, c, found, rfl⟩

end ContextBase

-- ================================================================== conclusion

/-- A document with the same name and the same notes on every entity, whose
statements stand in any order. -/
structure Ontology.IsReordering (o o' : Ontology) : Prop where
  iri : o'.iri = o.iri
  statements : o'.statements.Perm o.statements
  notes : ∀ e, o'.notes.notesOf e = o.notes.notesOf e

/-- Reordering makes no entity rigid, and takes no label away. -/
theorem Ontology.IsReordering.mem_rigid {o o' : Ontology}
    (reordered : o.IsReordering o') {e : Iri} :
    e ∈ o'.rigid ↔ e ∈ o.rigid := by
  rw [rigid, rigid, EntityNotes.mem_rigid, EntityNotes.mem_rigid,
    EntityNotes.isRigid, EntityNotes.isRigid, reordered.notes]

namespace ContextBase

/-- A context model does not depend on the order of its document. A document
and its reordering both have a model or none. Both models have the same
content, and one renaming of the individuals that were made up, which are to be
none of the document, takes what the one keeps under any name, and the axioms
of any branch, to those of the other. -/
theorem ofOntology_reordering {o o' : Ontology}
    (reordered : o.IsReordering o') (supply supply' : Supply) :
    ((∃ r, ofOntology supply o = .ok r) ↔
      ∃ r, ofOntology supply' o' = .ok r) ∧
    ∀ m left m' left', ofOntology supply o = .ok (m, left) →
      ofOntology supply' o' = .ok (m', left') →
      m.SameContent m' ∧
      ((∀ a ∈ o.axioms, ∀ n ∈ a.nodes,
          ¬ supply.MadeUp left n ∧ ¬ supply'.MadeUp left' n) →
        ∃ σ : Equiv.Perm BlankNode,
          (∀ n, supply'.MadeUp left' (σ n) ↔ supply.MadeUp left n) ∧
          (∀ n, ¬ supply.MadeUp left n → ¬ supply'.MadeUp left' n →
            σ n = n) ∧
          (∀ name, m'.definition? name =
            (m.definition? name).map (Axiom.mapNodes σ)) ∧
          ∀ b v v', m.branchOntology b = .ok v →
            m'.branchOntology b = .ok v' →
            v'.axioms.Perm (v.axioms.map (Axiom.mapNodes σ))) := by
  have perm := reordered.statements
  constructor
  · rw [ofOntology, ofOntology, exists_addStatements_iff,
      exists_addStatements_iff, Statement.isFaultless_perm perm]
  · intro m left m' left' built built'
    have split := isSplit_of_ofOntology built
    have split' := isSplit_of_ofOntology built'
    have sorted := isSorted_of_ofOntology built
    have sorted' := isSorted_of_ofOntology built'
    obtain ⟨iri, rigid⟩ := head_of_ofOntology built
    obtain ⟨iri', rigid'⟩ := head_of_ofOntology built'
    have same : m.SameContent m' := by
      refine sameContent_of_perm split split' sorted sorted' perm ?_ fun e => ?_
      · rw [iri, iri', reordered.iri]
      · rw [rigid, rigid', reordered.mem_rigid]
    refine ⟨same, fun unused => ?_⟩
    have sub := (Statement.perm_addresses perm).symm.subset
    obtain ⟨σ, leads, madeUp, fixes⟩ :=
      exists_moves_witnesses split split' sorted sorted' sub same
    have fixed : ∀ s ∈ o.statements, ∀ n ∈ s.body.nodes, σ n = n := by
      intro s hs n hn
      obtain ⟨new, new'⟩ := unused s.body (List.mem_map_of_mem hs) n hn
      exact fixes n new new'
    have kept :=
      definition?_eq_map split split' sorted sorted' sub same leads fixed
    refine ⟨σ, madeUp, fixes, kept, fun b v v' found found' => ?_⟩
    obtain ⟨-, rfl⟩ := branchOntology_eq_ok_iff.1 found
    obtain ⟨-, rfl⟩ := branchOntology_eq_ok_iff.1 found'
    exact perm_axioms_selection split sorted sorted' same kept fixed b

/-- The document with two addressed inclusions, backwards. -/
def reversedPair : Ontology :=
  { addressedPair with statements := addressedPair.statements.reverse }

/-- The model of these statements. -/
def reversedPairModel : ContextBase where
  iri := none
  metaAxioms := []
  definitions :=
    [⟨⟨"e:N"⟩, .subClassOf .top (.atom ⟨"e:A"⟩),
        .classAssertion (.compl (.atom ⟨"e:A"⟩)) (.anonymous (.fresh 0))⟩,
      ⟨⟨"e:M"⟩,
        .roleAssertion (.named ⟨"e:r"⟩) (.named ⟨"e:a"⟩) (.named ⟨"e:b"⟩),
        .noRoleAssertion (.named ⟨"e:r"⟩) (.named ⟨"e:a"⟩)
          (.named ⟨"e:b"⟩)⟩,
      ⟨⟨"e:L"⟩, .subClassOf (.atom ⟨"e:A"⟩) (.atom ⟨"e:B"⟩),
        .classAssertion (.inter [.atom ⟨"e:A"⟩, .compl (.atom ⟨"e:B"⟩)])
          (.anonymous (.fresh 1))⟩]
  globals := [.classAssertion (.atom ⟨"e:A"⟩) (.anonymous (.labelled "x"))]
  rigid := []

/-- What the first model selects where both inclusions fail. -/
def addressedPairSelection : BranchOntology where
  globals := [.classAssertion (.atom ⟨"e:A"⟩) (.anonymous (.labelled "x"))]
  selected :=
    [.classAssertion (.inter [.atom ⟨"e:A"⟩, .compl (.atom ⟨"e:B"⟩)])
        (.anonymous (.fresh 0)),
      .roleAssertion (.named ⟨"e:r"⟩) (.named ⟨"e:a"⟩) (.named ⟨"e:b"⟩),
      .classAssertion (.compl (.atom ⟨"e:A"⟩)) (.anonymous (.fresh 1))]
  rigid := []

/-- What the second selects there: the negations of the two inclusions have
exchanged their individuals. -/
def reversedPairSelection : BranchOntology where
  globals := [.classAssertion (.atom ⟨"e:A"⟩) (.anonymous (.labelled "x"))]
  selected :=
    [.classAssertion (.compl (.atom ⟨"e:A"⟩)) (.anonymous (.fresh 0)),
      .roleAssertion (.named ⟨"e:r"⟩) (.named ⟨"e:a"⟩) (.named ⟨"e:b"⟩),
      .classAssertion (.inter [.atom ⟨"e:A"⟩, .compl (.atom ⟨"e:B"⟩)])
        (.anonymous (.fresh 1))]
  rigid := []

/-- The two inclusions change their witnesses, and the branch in which both
fail has the same axioms when these are exchanged. -/
theorem reversedPair_sameContent :
    addressedPair.IsReordering reversedPair ∧
      ofOntology .full addressedPair = .ok (addressedPairModel, ⟨2⟩) ∧
      ofOntology .full reversedPair = .ok (reversedPairModel, ⟨2⟩) ∧
      (∀ a ∈ addressedPair.axioms, ∀ n ∈ a.nodes,
        ¬ Supply.full.MadeUp ⟨2⟩ n) ∧
      addressedPairModel.SameContent reversedPairModel ∧
      addressedPairModel.branchOntology bothInclusionsFail =
        .ok addressedPairSelection ∧
      reversedPairModel.branchOntology bothInclusionsFail =
        .ok reversedPairSelection ∧
      ∃ σ : Equiv.Perm BlankNode,
        σ (.fresh 0) = .fresh 1 ∧ σ (.fresh 1) = .fresh 0 ∧
        reversedPairSelection.axioms.Perm
          (addressedPairSelection.axioms.map (Axiom.mapNodes σ)) := by
  have reordered : addressedPair.IsReordering reversedPair :=
    ⟨rfl, List.reverse_perm _, fun _ => rfl⟩
  have built : ofOntology .full addressedPair =
      .ok (addressedPairModel, ⟨2⟩) := by decide +kernel
  have built' : ofOntology .full reversedPair =
      .ok (reversedPairModel, ⟨2⟩) := by decide +kernel
  have found : addressedPairModel.branchOntology bothInclusionsFail =
      .ok addressedPairSelection := by decide +kernel
  have found' : reversedPairModel.branchOntology bothInclusionsFail =
      .ok reversedPairSelection := by decide +kernel
  have unused : ∀ a ∈ addressedPair.axioms, ∀ n ∈ a.nodes,
      ¬ Supply.full.MadeUp ⟨2⟩ n := by
    have labelled : ∀ a ∈ addressedPair.axioms, ∀ n ∈ a.nodes,
        n = .labelled "x" := by decide +kernel
    intro a ha n hn madeUp
    obtain ⟨i, -, -, rfl⟩ := madeUp
    cases labelled a ha _ hn
  obtain ⟨-, models⟩ := ofOntology_reordering reordered .full .full
  obtain ⟨same, relabelled⟩ := models _ _ _ _ built built'
  obtain ⟨σ, -, -, kept, branches⟩ :=
    relabelled fun a ha n hn => ⟨unused a ha n hn, unused a ha n hn⟩
  -- what both models keep under a dual name tells where its witness goes
  have moves (name : Iri) {c c' : Concept} {n n' : BlankNode}
      (held : addressedPairModel.definition? name =
        some (.classAssertion c (.anonymous n)))
      (held' : reversedPairModel.definition? name =
        some (.classAssertion c' (.anonymous n'))) : σ n = n' := by
    have image := kept name
    rw [held, held', Option.map_some, Option.some.injEq, Axiom.mapNodes,
      Axiom.classAssertion.injEq] at image
    exact (Individual.anonymous.inj image.2).symm
  have first : σ (.fresh 0) = .fresh 1 :=
    moves (Iri.dual ⟨"e:L"⟩) rfl rfl
  have second : σ (.fresh 1) = .fresh 0 :=
    moves (Iri.dual ⟨"e:N"⟩) rfl rfl
  exact ⟨reordered, built, built', unused, same, found, found', σ, first,
    second, branches _ _ _ found found'⟩

end ContextBase

end ContextDL
