/-
What holds of a context model after every statement that was added to it.

`ContextBase.addStatement_cases` says all that adding one statement can do,
guards included, and `ContextBase.addStatements_induction` turns what one
statement keeps into what a document keeps. Nothing below unfolds the loop
again.

# The invariant

`ContextBase.IsSplit` relates a model to the statements that it was made of
and to the supply before and after them:

- the negations were made one after the other, each from the supply that the
  one before left (`Negated`), so no two of them share a made-up individual;
- no two definitions have one concept, and no concept is reserved or a dual
  name. So the names that axioms are kept under are told apart
  (`IsSplit.nodup_registry`), and a lookup finds what was kept under its name
  (`IsSplit.definition?_eq_some_iff`);
- nothing is global or addressed that is not stated.
-/
import ContextDL.Context.Basic
import ContextDL.Distinct
import ContextDL.Proofs.Success
import Mathlib.Data.List.Induction
import Mathlib.Data.List.Nodup

namespace ContextDL

-- ==================================================================== one step

namespace ContextBase

variable {m m' : ContextBase} {supply left : Supply}

/-- A definition that was added: its concept may name an axiom and named none
before, and its negation was made from the supply. -/
theorem define_cases {concept : Iri} {body : Axiom}
    (run : m.define supply concept body = .ok (m', left)) :
    isUnfit concept = false ∧ concept ∉ m.namingConcepts ∧
      ∃ negation, body.negation supply = .ok (negation, left) ∧
        m' = { m with
          definitions := m.definitions ++ [⟨concept, body, negation⟩] } := by
  unfold define at run
  split at run
  case isTrue => cases run
  case isFalse fit =>
    split at run
    case isTrue => cases run
    case isFalse new =>
      split at run
      case h_1 => cases run
      case h_2 negation left' made =>
        cases run
        refine ⟨by simpa using fit, ?_, negation, made, rfl⟩
        simpa [isNaming] using new

/-- What adding a statement does, by the part that the statement belongs
to. -/
theorem addStatement_cases {s : Statement}
    (run : m.addStatement supply s = .ok (m', left)) :
    (s.part = .ok .outside ∧ m' = m ∧ left = supply) ∨
    (s.part = .ok .metaLevel ∧ left = supply ∧
      m' = { m with metaAxioms := m.metaAxioms ++ [s.body] }) ∨
    (s.part = .ok .everywhere ∧ left = supply ∧
      m' = { m with globals :=
        if s.body ∈ m.globals then m.globals else m.globals ++ [s.body] }) ∨
    (∃ concept, s.part = .ok (.addressed concept) ∧
      m.define supply concept s.body = .ok (m', left)) := by
  unfold addStatement at run
  obtain ⟨part, hpart, run⟩ := bind_eq_ok.1 run
  rw [hpart]
  cases part with
  | outside =>
    obtain ⟨rfl, rfl⟩ := Prod.mk.inj (pure_eq_ok.1 run)
    exact .inl ⟨rfl, rfl, rfl⟩
  | metaLevel =>
    obtain ⟨rfl, rfl⟩ := Prod.mk.inj (pure_eq_ok.1 run)
    exact .inr (.inl ⟨rfl, rfl, rfl⟩)
  | everywhere =>
    refine .inr (.inr (.inl ?_))
    dsimp only at run
    split at run
    case isTrue known =>
      obtain ⟨rfl, rfl⟩ := Prod.mk.inj (pure_eq_ok.1 run)
      rw [if_pos (List.contains_iff_mem.1 known)]
      exact ⟨rfl, rfl, rfl⟩
    case isFalse new =>
      obtain ⟨rfl, rfl⟩ := Prod.mk.inj (pure_eq_ok.1 run)
      rw [if_neg fun known => new (List.contains_iff_mem.2 known)]
      exact ⟨rfl, rfl, rfl⟩
  | addressed concept => exact .inr (.inr (.inr ⟨concept, rfl, run⟩))

-- ======================================================================== runs

/-- What holds of a model without statements, and is kept when a statement is
added, holds after any number of them. -/
theorem addStatements_induction
    {motive : List Statement → ContextBase → Supply → Prop}
    (start : motive [] m supply)
    (step : ∀ done s m₁ left₁ m₂ left₂, motive done m₁ left₁ →
      addStatement m₁ left₁ s = .ok (m₂, left₂) →
      motive (done ++ [s]) m₂ left₂)
    {statements : List Statement}
    (run : m.addStatements supply statements = .ok (m', left)) :
    motive statements m' left := by
  unfold addStatements at run
  -- the last statement is taken off, since it is the last to be added
  induction statements using List.reverseRecOn generalizing m' left with
  | nil =>
    obtain ⟨rfl, rfl⟩ := Prod.mk.inj (pure_eq_ok.1 run)
    exact start
  | append_singleton done s ih =>
    rw [List.foldlM_append] at run
    obtain ⟨state, before, last⟩ := bind_eq_ok.1 run
    rw [List.foldlM_cons] at last
    obtain ⟨state', last, stop⟩ := bind_eq_ok.1 last
    obtain rfl := pure_eq_ok.1 stop
    exact step done s _ _ _ _ (ih before) last

/-- Adding a statement leaves the head of a model alone. -/
theorem addStatement_head {s : Statement}
    (run : m.addStatement supply s = .ok (m', left)) :
    m'.iri = m.iri ∧ m'.rigid = m.rigid := by
  rcases addStatement_cases run with ⟨-, rfl, -⟩ | ⟨-, -, rfl⟩ |
    ⟨-, -, rfl⟩ | ⟨concept, -, run⟩
  · exact ⟨rfl, rfl⟩
  · exact ⟨rfl, rfl⟩
  · exact ⟨rfl, rfl⟩
  · obtain ⟨-, -, negation, -, rfl⟩ := define_cases run
    exact ⟨rfl, rfl⟩

/-- A model has the name of its document, and the rigid entities. -/
theorem head_of_ofOntology {o : Ontology}
    (built : ofOntology supply o = .ok (m, left)) :
    m.iri = o.iri ∧ m.rigid = o.rigid := by
  refine @addStatements_induction _ _ _ _
    (fun _ m _ => m.iri = o.iri ∧ m.rigid = o.rigid) ⟨rfl, rfl⟩ ?_ _ built
  intro _ _ _ _ _ _ before run
  obtain ⟨iri, rigid⟩ := addStatement_head run
  exact ⟨iri.trans before.1, rigid.trans before.2⟩

-- =================================================================== invariant

/-- Definitions whose negations were made one after the other, each from what
the one before left of the supply. -/
inductive Negated : Supply → List Definition → Supply → Prop where
  | nil {supply : Supply} : Negated supply [] supply
  | snoc {supply middle left : Supply} {ds : List Definition}
      {d : Definition} (before : Negated supply ds middle)
      (made : d.body.negation middle = .ok (d.negation, left)) :
      Negated supply (ds ++ [d]) left

/-- Every negation in a chain is made from some point of the supply. -/
theorem Negated.exists_made {ds : List Definition} {d : Definition}
    (h : Negated supply ds left) (hd : d ∈ ds) :
    ∃ s t, d.body.negation s = .ok (d.negation, t) := by
  induction h with
  | nil => cases hd
  | snoc before made ih =>
    rcases List.mem_append.1 hd with hd | hd
    · exact ih hd
    · obtain rfl := List.mem_singleton.1 hd
      exact ⟨_, _, made⟩

/-- What holds of a model that was made of some statements, and of the supply
before and after. -/
structure IsSplit (supply : Supply) (statements : List Statement)
    (m : ContextBase) (left : Supply) : Prop where
  negated : Negated supply m.definitions left
  nodup : m.namingConcepts.Nodup
  fit : ∀ c ∈ m.namingConcepts, isUnfit c = false
  globals : ∀ a ∈ m.globals, ∃ s ∈ statements, s.body = a
  bodies : ∀ d ∈ m.definitions, ∃ s ∈ statements, s.body = d.body

/-- More statements may be named than a model was made of. -/
theorem IsSplit.mono {ss ts : List Statement}
    (h : IsSplit supply ss m left) (sub : ∀ s ∈ ss, s ∈ ts) :
    IsSplit supply ts m left :=
  { h with
    globals := fun a ha =>
      (h.globals a ha).imp fun _ h => ⟨sub _ h.1, h.2⟩
    bodies := fun d hd =>
      (h.bodies d hd).imp fun _ h => ⟨sub _ h.1, h.2⟩ }

/-- Adding a statement keeps the invariant. -/
theorem IsSplit.step {middle : Supply} {done : List Statement} {s : Statement}
    (h : IsSplit supply done m middle)
    (run : m.addStatement middle s = .ok (m', left)) :
    IsSplit supply (done ++ [s]) m' left := by
  have before := h.mono fun t ht => List.mem_append_left [s] ht
  have stated : s ∈ done ++ [s] := by simp
  rcases addStatement_cases run with ⟨-, rfl, rfl⟩ | ⟨-, rfl, rfl⟩ |
    ⟨-, rfl, rfl⟩ | ⟨concept, -, run⟩
  · exact before
  · exact { before with }
  · refine { before with globals := fun a ha => ?_ }
    dsimp only at ha
    split at ha
    · exact before.globals a ha
    · rcases List.mem_append.1 ha with ha | ha
      · exact before.globals a ha
      · exact ⟨s, stated, (List.mem_singleton.1 ha).symm⟩
  · obtain ⟨fit, new, negation, made, rfl⟩ := define_cases run
    constructor
    · exact .snoc before.negated made
    · rw [namingConcepts, List.map_append, List.nodup_append]
      refine ⟨before.nodup, by simp, fun c hc c' hc' => ?_⟩
      intro same
      obtain rfl : c' = concept := by simpa using hc'
      exact new (same ▸ hc)
    · intro c hc
      rw [namingConcepts, List.map_append, List.mem_append] at hc
      rcases hc with hc | hc
      · exact before.fit c hc
      · rw [List.map_singleton, List.mem_singleton] at hc
        exact hc ▸ fit
    · exact before.globals
    · intro d hd
      rcases List.mem_append.1 hd with hd | hd
      · exact before.bodies d hd
      · exact ⟨s, stated, (List.mem_singleton.1 hd) ▸ rfl⟩

/-- The model of an ontology is made of its statements. -/
theorem isSplit_of_ofOntology {o : Ontology}
    (built : ofOntology supply o = .ok (m, left)) :
    IsSplit supply o.statements m left := by
  refine addStatements_induction ?_ (fun done s _ _ _ _ h => h.step) built
  exact
    { negated := .nil
      nodup := List.nodup_nil
      fit := by simp [start, namingConcepts]
      globals := by simp [start]
      bodies := by simp [start] }

-- ==================================================================== registry

/-- A naming concept is no dual name. -/
theorem IsSplit.isDual_eq_false {ss : List Statement} {c : Iri}
    (h : IsSplit supply ss m left) (hc : c ∈ m.namingConcepts) :
    c.isDual = false := by
  have fit := h.fit c hc
  rw [isUnfit, Bool.or_eq_false_iff] at fit
  exact fit.2

/-- A naming concept is not the dual of any name. -/
theorem IsSplit.ne_dual {ss : List Statement} {c : Iri}
    (h : IsSplit supply ss m left) (hc : c ∈ m.namingConcepts) (n : Iri) :
    c ≠ n.dual := by
  rintro rfl
  have plain := h.isDual_eq_false hc
  rw [Iri.isDual_dual] at plain
  cases plain

/-- Axioms are kept under the naming concepts and their duals. -/
theorem keys_registry (m : ContextBase) :
    m.registry.map Prod.fst =
      m.namingConcepts.flatMap fun c => [c, c.dual] := by
  simp [registry, namingConcepts, List.map_flatMap, List.flatMap_map]

/-- An entry of the registry holds a definition or its negation. -/
theorem mem_registry {name : Iri} {a : Axiom} :
    (name, a) ∈ m.registry ↔ ∃ d ∈ m.definitions,
      (name = d.concept ∧ a = d.body) ∨
        (name = d.concept.dual ∧ a = d.negation) := by
  simp [registry, List.mem_flatMap]

/-- No two axioms are kept under one name: a naming concept is no dual name,
and different concepts have different duals. -/
theorem IsSplit.nodup_registry {ss : List Statement}
    (h : IsSplit supply ss m left) : (m.registry.map Prod.fst).Nodup := by
  rw [keys_registry, List.nodup_flatMap]
  constructor
  · intro c hc
    simpa using h.ne_dual hc c
  · refine h.nodup.pairwise_of_forall_ne fun c hc d hd other => ?_
    have noDual : d ≠ c.dual ∧ d.dual ≠ c :=
      ⟨h.ne_dual hd c, (h.ne_dual hc d).symm⟩
    simp [Function.onFun, Ne.symm other, noDual, Iri.dual_inj]

/-- A lookup finds what is kept under a name. -/
theorem IsSplit.definition?_eq_some_iff {ss : List Statement} {name : Iri}
    {a : Axiom} (h : IsSplit supply ss m left) :
    m.definition? name = some a ↔ (name, a) ∈ m.registry :=
  lookup_eq_some_iff_mem h.nodup_registry

/-- The axiom that is kept under a naming concept is the one that it
defines. -/
theorem IsSplit.definition?_eq {ss : List Statement} {d : Definition}
    (h : IsSplit supply ss m left) (hd : d ∈ m.definitions) :
    m.definition? d.concept = some d.body :=
  h.definition?_eq_some_iff.2 (mem_registry.2 ⟨d, hd, .inl ⟨rfl, rfl⟩⟩)

/-- The axiom that is kept under the dual of a naming concept is the negation
of the one that it defines. -/
theorem IsSplit.definition?_dual {ss : List Statement} {d : Definition}
    (h : IsSplit supply ss m left) (hd : d ∈ m.definitions) :
    m.definition? d.concept.dual = some d.negation :=
  h.definition?_eq_some_iff.2 (mem_registry.2 ⟨d, hd, .inr ⟨rfl, rfl⟩⟩)

/-- Nothing is kept under any other name. -/
theorem definition?_eq_none_iff {name : Iri} :
    m.definition? name = none ↔
      name ∉ m.namingConcepts ∧ ∀ c ∈ m.namingConcepts, name ≠ c.dual := by
  have absent : m.definition? name = none ↔
      name ∉ m.registry.map Prod.fst := by
    rw [definition?, List.lookup_eq_none_iff, List.mem_map, not_exists]
    simp only [bne_iff_ne, not_and, ne_comm, ne_eq]
  rw [absent, keys_registry, List.mem_flatMap]
  constructor
  · intro h
    refine ⟨fun hc => h ⟨name, hc, by simp⟩, ?_⟩
    rintro c hc rfl
    exact h ⟨c, hc, by simp⟩
  · rintro ⟨new, noDual⟩ ⟨c, hc, hname⟩
    rcases List.mem_pair.1 hname with rfl | rfl
    · exact new hc
    · exact noDual c hc rfl

end ContextBase

end ContextDL
