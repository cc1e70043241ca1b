/-
Branch ontologies mean what they say: an interpretation satisfies the object
ontology of a branch exactly if it satisfies the global axioms and the
definitions of the positive concepts, and none of the definitions of the
negative ones.

"Satisfies" needs care in one place. The negation of an inclusion speaks of a
made-up individual, and an interpretation reads that individual somehow, most
likely not as a witness. So the statement lets the made-up individuals be read
anew; all other names, and the blank nodes of the document, stay as they are.

# The two directions

- From the object ontology to the definitions every negation is looked at by
  itself (`Axiom.not_satisfied_of_negation`).
- In the other direction all the negations need their witnesses in one
  interpretation. `exists_witnesses` collects them along the chain of
  supplies: the made-up individuals of one negation are disjoint from those of
  the negations before it, and none of them stands in a stated axiom, so no
  choice disturbs another.
-/
import ContextDL.Proofs.Context.Selection
import ContextDL.Proofs.Meaning.Negation

namespace ContextDL

universe u

variable {α : Type u}

-- =================================================================== witnesses

namespace Supply

/-- Nothing is made up before and after the same point. -/
theorem not_madeUp_of_madeUp {s t u : Supply} {n : BlankNode}
    (h : t.MadeUp u n) : ¬ s.MadeUp t n := by
  intro before
  obtain ⟨i, -, hi, rfl⟩ := before
  obtain ⟨j, hj, -, same⟩ := h
  have : i = j := by simpa using same
  omega

end Supply

namespace ContextBase

variable {supply left : Supply} {m : ContextBase} {ds : List Definition}

/-- Making negations uses a supply up from its front. -/
theorem Negated.next_le (h : Negated supply ds left) :
    supply.next ≤ left.next := by
  induction h with
  | nil => exact Nat.le_refl _
  | snoc before made ih =>
    exact Nat.le_trans ih (Axiom.next_le_of_negation made)

/-- What the first and the last negations of a chain make up, the whole chain
makes up. -/
theorem Negated.madeUp_mono {middle : Supply} {d : Definition} {n : BlankNode}
    (before : Negated supply ds middle)
    (made : d.body.negation middle = .ok (d.negation, left)) :
    (supply.MadeUp middle n → supply.MadeUp left n) ∧
      (middle.MadeUp left n → supply.MadeUp left n) := by
  have h₁ := before.next_le
  have h₂ := Axiom.next_le_of_negation made
  constructor
  · intro madeUp
    obtain ⟨i, hi, hi', rfl⟩ := madeUp
    exact ⟨i, hi, by omega, rfl⟩
  · intro madeUp
    obtain ⟨i, hi, hi', rfl⟩ := madeUp
    exact ⟨i, by omega, hi', rfl⟩

/-- If some of the defined axioms are false, their made-up individuals can be
read all at once so that their negations are true. Other blank nodes may be
read in any way, as long as those in the defined axioms stay. -/
theorem Negated.exists_witnesses {I : Interpretation α}
    (chain : Negated supply ds left) {chosen : Definition → Prop}
    (fails : ∀ d ∈ ds, chosen d → ¬ d.body.Satisfied I) :
    ∃ witness : BlankNode → α, ∀ nodes : BlankNode → α,
      (∀ n, supply.MadeUp left n → nodes n = witness n) →
      (∀ d ∈ ds, ∀ n ∈ d.body.nodes, nodes n = I.nodes n) →
      ∀ d ∈ ds, chosen d → d.negation.Satisfied (I.withNodes nodes) := by
  classical
  induction chain with
  | nil => exact ⟨I.nodes, fun _ _ _ d hd => absurd hd (by simp)⟩
  | @snoc middle left ds d before made ih =>
    have fails_ds := fun e he => fails e (List.mem_append_left [d] he)
    have fails_d := fails d (by simp)
    obtain ⟨witness, hw⟩ := ih fails_ds
    by_cases hd : chosen d
    · -- the last negation reads its own individual, the others are untouched
      obtain ⟨last, hl⟩ := Axiom.exists_witness made (fails_d hd)
      refine ⟨fun n => if middle.MadeUp left n then last n else witness n,
        fun nodes read same e he chosen_e => ?_⟩
      rcases List.mem_append.1 he with he | he
      · refine hw nodes (fun n hn => ?_)
          (fun e he => same e (List.mem_append_left _ he)) e he chosen_e
        exact (read n ((before.madeUp_mono made).1 hn)).trans
          (if_neg fun h => Supply.not_madeUp_of_madeUp h hn)
      · obtain rfl := List.mem_singleton.1 he
        refine hl nodes (fun n hn => ?_) (same e (by simp))
        exact (read n ((before.madeUp_mono made).2 hn)).trans (if_pos hn)
    · refine ⟨witness, fun nodes read same e he chosen_e => ?_⟩
      rcases List.mem_append.1 he with he | he
      · exact hw nodes
          (fun n hn => read n ((before.madeUp_mono made).1 hn))
          (fun e he => same e (List.mem_append_left _ he)) e he chosen_e
      · obtain rfl := List.mem_singleton.1 he
        exact absurd chosen_e hd

-- =========================================================== branch ontologies

/-- What stands in the object ontology of a branch: the global axioms, the
axioms of the positive concepts, and the negations of the axioms of the
negative ones. -/
theorem branchOntology_eq_ok {b : Branch} {ss : List Statement}
    (split : IsSplit supply ss m left)
    (positive : ∀ c ∈ b.positive, c ∈ m.namingConcepts)
    (negative : ∀ c ∈ b.negative, c ∈ m.namingConcepts) :
    ∃ v, m.branchOntology b = .ok v ∧ ∀ a, a ∈ v.axioms ↔
      a ∈ m.globals ∨ ∃ d ∈ m.definitions,
        (d.concept ∈ b.positive ∧ a = d.body) ∨
          (d.concept ∈ b.negative ∧ a = d.negation) := by
  have admits : m.Admits b := ⟨fun c hc => .inl (positive c hc), negative⟩
  refine ⟨m.selection b, branchOntology_eq_ok_iff.2 ⟨admits, rfl⟩, fun a => ?_⟩
  rw [mem_selection]
  refine or_congr_right ⟨?_, ?_⟩
  · intro h
    obtain ⟨name, asked, found⟩ := h
    obtain ⟨d, hd, kept⟩ :=
      mem_registry.1 (split.definition?_eq_some_iff.1 found)
    have naming : d.concept ∈ m.namingConcepts := List.mem_map_of_mem hd
    rcases kept with ⟨rfl, rfl⟩ | ⟨rfl, rfl⟩
    · exact ⟨d, hd, .inl ⟨(asksFor_iff split naming).1 asked, rfl⟩⟩
    · rcases (asksFor_dual_iff naming).1 asked with dual | denied
      · -- a positive concept is a naming concept, so it is no dual name
        exact absurd rfl (split.ne_dual (positive _ dual) _)
      · exact ⟨d, hd, .inr ⟨denied, rfl⟩⟩
  · intro h
    obtain ⟨d, hd, chosen⟩ := h
    have naming : d.concept ∈ m.namingConcepts := List.mem_map_of_mem hd
    rcases chosen with ⟨affirmed, rfl⟩ | ⟨denied, rfl⟩
    · exact ⟨d.concept, .inl affirmed, split.definition?_eq hd⟩
    · exact ⟨d.concept.dual, (asksFor_dual_iff naming).2 (.inr denied),
        split.definition?_dual hd⟩

-- ===================================================================== meaning

/-- The object ontology of a branch of naming concepts exists, and what it
says is what the branch means: some reading of the individuals made up for the
model satisfies it exactly if the global axioms hold, the axiom of every
positive concept holds, and the axiom of no negative concept does. Made up are
only individuals that the document does not use. -/
theorem branchOntology_models_iff {o : Ontology} {b : Branch}
    (built : ofOntology supply o = .ok (m, left))
    (unused : ∀ a ∈ o.axioms, ∀ n ∈ a.nodes, ¬ supply.MadeUp left n)
    (positive : ∀ c ∈ b.positive, c ∈ m.namingConcepts)
    (negative : ∀ c ∈ b.negative, c ∈ m.namingConcepts) :
    ∃ v, m.branchOntology b = .ok v ∧
      ∀ {α : Type u} (I : Interpretation α),
        (∃ nodes : BlankNode → α,
          (∀ n, ¬ supply.MadeUp left n → nodes n = I.nodes n) ∧
            (I.withNodes nodes).Models v.axioms) ↔
        I.Models m.globals ∧
          (∀ c ∈ b.positive,
            ∃ a, m.definition? c = some a ∧ a.Satisfied I) ∧
          ∀ c ∈ b.negative,
            ∃ a, m.definition? c = some a ∧ ¬ a.Satisfied I := by
  have split := isSplit_of_ofOntology built
  obtain ⟨v, found, mem_axioms⟩ :=
    branchOntology_eq_ok split positive negative
  refine ⟨v, found, fun I => ?_⟩
  -- no stated axiom notices how the made-up individuals are read
  have stated {a : Axiom} (h : ∃ s ∈ o.statements, s.body = a) :
      ∀ n ∈ a.nodes, ¬ supply.MadeUp left n := by
    obtain ⟨s, hs, rfl⟩ := h
    exact unused _ (List.mem_map_of_mem hs)
  have unnoticed {nodes} {a : Axiom} (h : ∃ s ∈ o.statements, s.body = a)
      (same : ∀ n, ¬ supply.MadeUp left n → nodes n = I.nodes n) :
      a.Satisfied (I.withNodes nodes) ↔ a.Satisfied I :=
    Axiom.satisfied_withNodes fun n hn => same n (stated h n hn)
  constructor
  · intro reading
    obtain ⟨nodes, same, models⟩ := reading
    refine ⟨fun a ha => ?_, fun c hc => ?_, fun c hc => ?_⟩
    · rw [← unnoticed (split.globals a ha) same]
      exact models a ((mem_axioms a).2 (.inl ha))
    · obtain ⟨d, hd, rfl⟩ := List.mem_map.1 (positive c hc)
      refine ⟨d.body, split.definition?_eq hd, ?_⟩
      rw [← unnoticed (split.bodies d hd) same]
      exact models _ ((mem_axioms _).2 (.inr ⟨d, hd, .inl ⟨hc, rfl⟩⟩))
    · obtain ⟨d, hd, rfl⟩ := List.mem_map.1 (negative c hc)
      refine ⟨d.body, split.definition?_eq hd, ?_⟩
      rw [← unnoticed (split.bodies d hd) same]
      obtain ⟨_, _, made⟩ := split.negated.exists_made hd
      refine Axiom.not_satisfied_of_negation made ?_
      exact models _ ((mem_axioms _).2 (.inr ⟨d, hd, .inr ⟨hc, rfl⟩⟩))
  · intro branch
    obtain ⟨globals, hold, fail⟩ := branch
    have fails : ∀ d ∈ m.definitions, d.concept ∈ b.negative →
        ¬ d.body.Satisfied I := by
      intro d hd hc
      obtain ⟨a, ha, not_a⟩ := fail _ hc
      rw [split.definition?_eq hd, Option.some.injEq] at ha
      exact ha ▸ not_a
    obtain ⟨witness, hw⟩ := split.negated.exists_witnesses fails
    classical
    let nodes n := if supply.MadeUp left n then witness n else I.nodes n
    have same : ∀ n, ¬ supply.MadeUp left n → nodes n = I.nodes n :=
      fun n hn => if_neg hn
    refine ⟨nodes, same, fun a ha => ?_⟩
    rcases (mem_axioms a).1 ha with ha | ⟨d, hd, ⟨hc, rfl⟩ | ⟨hc, rfl⟩⟩
    · rw [unnoticed (split.globals a ha) same]
      exact globals a ha
    · rw [unnoticed (split.bodies d hd) same]
      obtain ⟨a, ha, holds⟩ := hold _ hc
      rw [split.definition?_eq hd, Option.some.injEq] at ha
      exact ha ▸ holds
    · exact hw nodes (fun n hn => if_pos hn)
        (fun d hd n hn => same n (stated (split.bodies d hd) n hn)) d hd hc

-- ================================================================= an instance

/-- Two addressed inclusions, an addressed role assertion, and a global
assertion on an anonymous individual. -/
def addressedPair : Ontology :=
  (Ontology.empty none).extend
    [⟨.subClassOf (.atom ⟨"e:A"⟩) (.atom ⟨"e:B"⟩), [.definedBy ⟨"e:L"⟩]⟩,
      ⟨.classAssertion (.atom ⟨"e:A"⟩) (.anonymous (.labelled "x")),
        [.objectGlobal]⟩,
      ⟨.roleAssertion (.named ⟨"e:r"⟩) (.named ⟨"e:a"⟩) (.named ⟨"e:b"⟩),
        [.definedBy ⟨"e:M"⟩]⟩,
      ⟨.subClassOf .top (.atom ⟨"e:A"⟩), [.definedBy ⟨"e:N"⟩]⟩]

/-- The model of these statements. -/
def addressedPairModel : ContextBase where
  iri := none
  metaAxioms := []
  definitions :=
    [⟨⟨"e:L"⟩, .subClassOf (.atom ⟨"e:A"⟩) (.atom ⟨"e:B"⟩),
        .classAssertion (.inter [.atom ⟨"e:A"⟩, .compl (.atom ⟨"e:B"⟩)])
          (.anonymous (.fresh 0))⟩,
      ⟨⟨"e:M"⟩,
        .roleAssertion (.named ⟨"e:r"⟩) (.named ⟨"e:a"⟩) (.named ⟨"e:b"⟩),
        .noRoleAssertion (.named ⟨"e:r"⟩) (.named ⟨"e:a"⟩)
          (.named ⟨"e:b"⟩)⟩,
      ⟨⟨"e:N"⟩, .subClassOf .top (.atom ⟨"e:A"⟩),
        .classAssertion (.compl (.atom ⟨"e:A"⟩)) (.anonymous (.fresh 1))⟩]
  globals := [.classAssertion (.atom ⟨"e:A"⟩) (.anonymous (.labelled "x"))]
  rigid := []

/-- The role assertion holds and both inclusions fail. -/
def bothInclusionsFail : Branch where
  positive := [⟨"e:M"⟩]
  negative := [⟨"e:L"⟩, ⟨"e:N"⟩]
  positive_nodup := by decide
  negative_nodup := by decide
  disjoint := by decide

/-- The meaning of a branch in which two inclusions fail, so that two
individuals are made up. -/
theorem bothInclusionsFail_models_iff :
    ofOntology .full addressedPair = .ok (addressedPairModel, ⟨2⟩) ∧
    (∀ a ∈ addressedPair.axioms, ∀ n ∈ a.nodes,
      ¬ Supply.full.MadeUp ⟨2⟩ n) ∧
    (∀ c ∈ bothInclusionsFail.positive,
      c ∈ addressedPairModel.namingConcepts) ∧
    (∀ c ∈ bothInclusionsFail.negative,
      c ∈ addressedPairModel.namingConcepts) ∧
    ∃ v, addressedPairModel.branchOntology bothInclusionsFail = .ok v ∧
      ∀ {α : Type} (I : Interpretation α),
        (∃ nodes : BlankNode → α,
          (∀ n, ¬ Supply.full.MadeUp ⟨2⟩ n → nodes n = I.nodes n) ∧
            (I.withNodes nodes).Models v.axioms) ↔
        I.Models addressedPairModel.globals ∧
          (∀ c ∈ bothInclusionsFail.positive, ∃ a,
            addressedPairModel.definition? c = some a ∧ a.Satisfied I) ∧
          ∀ c ∈ bothInclusionsFail.negative, ∃ a,
            addressedPairModel.definition? c = some a ∧ ¬ a.Satisfied I := by
  have built : ofOntology .full addressedPair =
      .ok (addressedPairModel, ⟨2⟩) := by decide +kernel
  have unused : ∀ a ∈ addressedPair.axioms, ∀ n ∈ a.nodes,
      ¬ Supply.full.MadeUp ⟨2⟩ n := by
    have labelled : ∀ a ∈ addressedPair.axioms, ∀ n ∈ a.nodes,
        n = .labelled "x" := by decide +kernel
    intro a ha n hn madeUp
    obtain ⟨i, -, -, rfl⟩ := madeUp
    cases labelled a ha _ hn
  have positive : ∀ c ∈ bothInclusionsFail.positive,
      c ∈ addressedPairModel.namingConcepts := by decide
  have negative : ∀ c ∈ bothInclusionsFail.negative,
      c ∈ addressedPairModel.namingConcepts := by decide
  exact ⟨built, unused, positive, negative,
    branchOntology_models_iff built unused positive negative⟩

end ContextBase

end ContextDL
