/-
Negation and conjunction mean what their names say.

The negation of a concept has the members that the concept does not have, and
the conjunction of concepts the members that all of them have, whatever was
simplified on the way (`Concept.holds_negation`, `Concept.holds_conjunction`).

# The witness of a failed inclusion

The negation of an assertion is true exactly where the assertion is false.
That of an inclusion is not: it speaks of a made-up individual, so an
interpretation in which the inclusion fails may still read that individual as
an element that is no witness. Two facts take the place of an equivalence:

- `Axiom.not_satisfied_of_negation`: where the negation is true the axiom is
  false, whatever the made-up individual is read as;
- `Axiom.exists_witness`: where the axiom is false, some reading of the
  made-up individual makes the negation true. The reading of all other blank
  nodes is left open but for those in the axiom itself, so that the witnesses
  of several axioms can be put together.

For one axiom by itself the two make an equivalence again: if the individual
is new to the inclusion, the inclusion is false exactly if some element in its
place makes the negation true (`Interpretation.negation_complements`).
-/
import ContextDL.Axiom
import ContextDL.Proofs.Meaning.Agreement

namespace ContextDL

universe u

variable {α : Type u} {I : Interpretation α}

-- ==================================================================== concepts

namespace Concept

/-- Everything belongs to the top concept. -/
@[simp]
theorem holds_top (x : α) : top.Holds I x := by
  rw [top, Holds]
  exact I.thing x

/-- Nothing belongs to the bottom concept. -/
@[simp]
theorem not_holds_bottom (x : α) : ¬ bottom.Holds I x := by
  rw [bottom, Holds]
  exact I.nothing x

/-- What belongs to the negation of a concept does not belong to the concept,
and the other way round. -/
theorem holds_negation {c : Concept} {x : α} :
    c.negation.Holds I x ↔ ¬ c.Holds I x := by
  unfold negation
  split
  · next h => subst h; simp
  split
  · next h => subst h; simp
  split
  · -- a complement is taken off
    rw [Holds, Classical.not_not]
  · rw [Holds]

-- ================================================================= conjunction

/-- Gathering keeps what belongs to all concepts, those found so far and those
pending; it breaks off only if nothing does. -/
theorem holds_gather {found pending : List Concept} {x : α} :
    (∃ conjuncts, gather found pending = some conjuncts ∧
        ∀ c ∈ conjuncts, c.Holds I x) ↔
      (∀ c ∈ found, c.Holds I x) ∧ ∀ c ∈ pending, c.Holds I x := by
  fun_induction gather found pending with
  | case1 found => simp
  | case2 found operands pending ih =>
    rw [ih, List.forall_mem_append, List.forall_mem_cons, holds_inter]
  | case3 found pending _ ih =>
    rw [ih, List.forall_mem_cons]
    simp
  | case4 found pending _ =>
    rw [List.forall_mem_cons]
    simp
  | case5 found c pending _ _ _ known ih =>
    -- a repeated conjunct is among those found, so it asks nothing new
    rw [ih, List.forall_mem_cons]
    exact ⟨fun h => ⟨h.1, h.1 c known, h.2⟩, fun h => ⟨h.1, h.2.2⟩⟩
  | case6 found c pending _ _ _ _ ih =>
    rw [ih, List.forall_mem_cons, List.forall_mem_append,
      List.forall_mem_singleton, and_assoc]

/-- What belongs to a concept made of conjuncts belongs to each of them. -/
theorem holds_ofConjuncts {cs : List Concept} {x : α} :
    (ofConjuncts cs).Holds I x ↔ ∀ c ∈ cs, c.Holds I x := by
  match cs with
  | [] => simp [ofConjuncts]
  | [c] => simp [ofConjuncts]
  | c :: d :: cs =>
    show (inter (c :: d :: cs)).Holds I x ↔ _
    exact holds_inter

/-- What belongs to a conjunction belongs to every operand, and the other way
round. -/
theorem holds_conjunction {cs : List Concept} {x : α} :
    (conjunction cs).Holds I x ↔ ∀ c ∈ cs, c.Holds I x := by
  have work := @holds_gather α I [] cs x
  simp only [List.not_mem_nil, false_implies, implies_true, true_and] at work
  rw [← work, conjunction]
  cases gather [] cs with
  | none => simp
  | some conjuncts => simp [holds_ofConjuncts]

-- =========================================================== their individuals

/-- The negation of a concept speaks of the anonymous individuals of the
concept. -/
theorem nodes_negation (c : Concept) : c.negation.nodes = c.nodes := by
  unfold negation
  split
  · next h => subst h; rfl
  split
  · next h => subst h; rfl
  split
  · rfl
  · rfl

/-- Gathering finds no anonymous individuals but those of the concepts found
so far and of those pending. -/
theorem mem_nodes_of_gather {found pending conjuncts : List Concept}
    {n : BlankNode} (run : gather found pending = some conjuncts)
    (h : n ∈ conjuncts.flatMap nodes) :
    n ∈ found.flatMap nodes ∨ n ∈ pending.flatMap nodes := by
  fun_induction gather found pending with
  | case1 found =>
    cases run
    exact .inl h
  | case2 found operands pending ih =>
    rw [List.flatMap_cons, Concept.nodes, nodesAll_eq, ← List.flatMap_append]
    exact ih run
  | case3 found pending _ ih =>
    rw [List.flatMap_cons, List.mem_append]
    exact (ih run).imp_right .inr
  | case4 => cases run
  | case5 found c pending _ _ _ known ih =>
    rw [List.flatMap_cons, List.mem_append]
    exact (ih run).imp_right .inr
  | case6 found c pending _ _ _ _ ih =>
    have later := ih run
    rw [List.flatMap_append, List.flatMap_singleton, List.mem_append,
      or_assoc] at later
    rw [List.flatMap_cons, List.mem_append]
    exact later

/-- A conjunction speaks of no anonymous individuals but those of its
operands. -/
theorem mem_nodes_of_conjunction {cs : List Concept} {n : BlankNode}
    (h : n ∈ (conjunction cs).nodes) : n ∈ cs.flatMap nodes := by
  unfold conjunction at h
  split at h
  case h_2 => cases h
  case h_1 conjuncts run =>
    have listed : n ∈ conjuncts.flatMap nodes := by
      match conjuncts with
      | [] => cases h
      | [c] => rwa [List.flatMap_singleton]
      | c :: d :: cs =>
        have h : n ∈ (inter (c :: d :: cs)).nodes := h
        rwa [Concept.nodes, nodesAll_eq] at h
    exact (mem_nodes_of_gather run listed).resolve_left (by simp)

end Concept

-- ================================================================= blank nodes

/-- The blank nodes that are made up between two states of a supply. -/
def Supply.MadeUp (supply left : Supply) (node : BlankNode) : Prop :=
  ∃ n, supply.next ≤ n ∧ n < left.next ∧ node = .fresh n

/-- The interpretation that reads blank nodes in another way. -/
def Interpretation.withNodes (I : Interpretation α) (nodes : BlankNode → α) :
    Interpretation α :=
  { I with nodes }

/-- The interpretation that reads one blank node as a certain element. -/
def Interpretation.withNode (I : Interpretation α) (node : BlankNode)
    (x : α) : Interpretation α :=
  I.withNodes fun n => if n = node then x else I.nodes n

/-- Names do not notice how blank nodes are read. -/
theorem Interpretation.agree_withNodes {nodes : BlankNode → α}
    (s : Signature) : I.Agree (I.withNodes nodes) s :=
  ⟨fun _ _ => rfl, fun _ _ => rfl, fun _ _ => rfl⟩

/-- An axiom does not notice how blank nodes are read that are not in it. -/
theorem Axiom.satisfied_withNodes {nodes : BlankNode → α} {a : Axiom}
    (same : ∀ b ∈ a.nodes, nodes b = I.nodes b) :
    a.Satisfied (I.withNodes nodes) ↔ a.Satisfied I :=
  (satisfied_congr (Interpretation.agree_withNodes _)
    fun b hb => (same b hb).symm).symm

-- ====================================================================== axioms

namespace Axiom

/-- What has a negation: an assertion, whose negation is true exactly if the
assertion is false and takes no individual; or an inclusion, whose negation
asserts of a new individual that it is a witness against it. -/
theorem negation_cases {supply left : Supply} {a b : Axiom}
    (made : a.negation supply = .ok (b, left)) :
    (left = supply ∧
      ∀ {α : Type u} (I : Interpretation α),
        b.Satisfied I ↔ ¬ a.Satisfied I) ∨
    (∃ c d, a = .subClassOf c d ∧ left = ⟨supply.next + 1⟩ ∧
      b = .classAssertion (Concept.conjunction [c, d.negation])
        (.anonymous (.fresh supply.next))) := by
  cases a <;> simp only [negation, Except.ok.injEq, Prod.mk.injEq,
    reduceCtorEq] at made
  case subClassOf c d =>
    obtain ⟨rfl, rfl⟩ := made
    exact .inr ⟨c, d, rfl, rfl, rfl⟩
  case classAssertion c a =>
    obtain ⟨rfl, rfl⟩ := made
    exact .inl ⟨rfl, fun I => Concept.holds_negation⟩
  case roleAssertion r a b =>
    obtain ⟨rfl, rfl⟩ := made
    exact .inl ⟨rfl, fun I => Iff.rfl⟩
  case noRoleAssertion r a b =>
    obtain ⟨rfl, rfl⟩ := made
    exact .inl ⟨rfl, fun I => Classical.not_not.symm⟩

/-- A negation uses a supply up from its front, if at all. -/
theorem next_le_of_negation {supply left : Supply} {a b : Axiom}
    (made : a.negation supply = .ok (b, left)) :
    supply.next ≤ left.next := by
  rcases negation_cases.{0} made with ⟨rfl, -⟩ | ⟨c, d, -, rfl, -⟩
  · exact Nat.le_refl _
  · exact Nat.le_succ _

/-- An individual is a witness against an inclusion if it belongs to the one
concept and not to the other. -/
theorem satisfied_witness {c d : Concept} {a : Individual} :
    (classAssertion (Concept.conjunction [c, d.negation]) a).Satisfied I ↔
      c.Holds I (a.denote I) ∧ ¬ d.Holds I (a.denote I) := by
  rw [Satisfied, Concept.holds_conjunction, List.forall_mem_cons,
    List.forall_mem_singleton, Concept.holds_negation]

/-- An axiom and its negation are not both true. -/
theorem not_satisfied_of_negation {supply left : Supply} {a b : Axiom}
    (made : a.negation supply = .ok (b, left)) (htrue : b.Satisfied I) :
    ¬ a.Satisfied I := by
  rcases negation_cases made with ⟨-, spec⟩ | ⟨c, d, rfl, -, rfl⟩
  · exact (spec I).1 htrue
  · intro inclusion
    rw [satisfied_witness] at htrue
    exact htrue.2 (inclusion _ htrue.1)

/-- If an axiom is false, the made-up individual of its negation can be read
so that the negation is true. Other blank nodes may be read in any way, as
long as those in the axiom stay. -/
theorem exists_witness {supply left : Supply} {a b : Axiom}
    (made : a.negation supply = .ok (b, left)) (hfalse : ¬ a.Satisfied I) :
    ∃ witness : BlankNode → α, ∀ nodes : BlankNode → α,
      (∀ n, supply.MadeUp left n → nodes n = witness n) →
      (∀ n ∈ a.nodes, nodes n = I.nodes n) →
      b.Satisfied (I.withNodes nodes) := by
  rcases negation_cases made with ⟨-, spec⟩ | ⟨c, d, rfl, rfl, rfl⟩
  · refine ⟨I.nodes, fun nodes _ same => ?_⟩
    rw [spec, satisfied_withNodes same]
    exact hfalse
  · obtain ⟨x, hx⟩ := Classical.not_forall.1 hfalse
    obtain ⟨hc, hd⟩ := Classical.not_imp.1 hx
    refine ⟨fun _ => x, fun nodes made_up same => ?_⟩
    -- the made-up individual is the element outside the inclusion
    have hx : (Individual.anonymous (.fresh supply.next)).denote
        (I.withNodes nodes) = x :=
      made_up _ ⟨supply.next, Nat.le_refl _, Nat.lt_succ_self _, rfl⟩
    have holds (e : Concept) (he : ∀ n ∈ e.nodes, nodes n = I.nodes n) :
        e.Holds (I.withNodes nodes) x ↔ e.Holds I x :=
      (Concept.holds_congr (Interpretation.agree_withNodes _)
        (fun b hb => (he b hb).symm) x).symm
    rw [satisfied_witness, hx,
      holds c fun n hn => same n (List.mem_append_left _ hn),
      holds d fun n hn => same n (List.mem_append_right _ hn)]
    exact ⟨hc, hd⟩

-- ================================================================= complements

/-- The axioms that speak of single individuals, which belong to a concept or
are related or not. -/
def isAssertion : Axiom → Bool
  | .classAssertion .. | .roleAssertion .. | .noRoleAssertion .. => true
  | _ => false

/-- The negation of an assertion takes no individual and is true exactly where
the assertion is false. -/
theorem negation_of_assertion {a : Axiom} (assertion : a.isAssertion)
    (supply : Supply) (I : Interpretation α) :
    ∃ b, a.negation supply = .ok (b, supply) ∧
      (b.Satisfied I ↔ ¬ a.Satisfied I) := by
  have made : ∃ b, a.negation supply = .ok (b, supply) := by
    cases a <;> first | exact ⟨_, rfl⟩ | cases assertion
  obtain ⟨b, made⟩ := made
  rcases negation_cases made with ⟨-, spec⟩ | ⟨c, d, rfl, -⟩
  · exact ⟨b, made, spec I⟩
  · cases assertion

/-- The concept of a witness speaks of no anonymous individuals but those of
the inclusion. -/
theorem mem_nodes_of_witness {c d : Concept} {n : BlankNode}
    (h : n ∈ (Concept.conjunction [c, d.negation]).nodes) :
    n ∈ (subClassOf c d).nodes := by
  have h := Concept.mem_nodes_of_conjunction h
  rwa [List.flatMap_cons, List.flatMap_singleton,
    Concept.nodes_negation] at h

/-- An inclusion is false exactly if its negation is true of some element, the
individual of the negation being new to the inclusion. -/
theorem not_satisfied_iff_exists_withNode {supply left : Supply} {a b : Axiom}
    {node : BlankNode} (made : a.negation supply = .ok (b, left))
    (one : ∀ n, supply.MadeUp left n → n = node) (new : node ∉ a.nodes) :
    ¬ a.Satisfied I ↔ ∃ x : α, b.Satisfied (I.withNode node x) := by
  have same (x : α) : ∀ n ∈ a.nodes,
      (if n = node then x else I.nodes n) = I.nodes n :=
    fun n hn => if_neg (ne_of_mem_of_not_mem hn new)
  constructor
  · intro hfalse
    obtain ⟨witness, spec⟩ := exists_witness made hfalse
    refine ⟨witness node, spec _ (fun n hn => ?_) (same _)⟩
    rw [one n hn, if_pos rfl]
  · rintro ⟨x, htrue⟩ inclusion
    have hfalse := not_satisfied_of_negation made htrue
    exact hfalse ((satisfied_withNodes (same x)).2 inclusion)

end Axiom

/-- Negation is semantic. In every interpretation the negation of a concept is
its complement and a conjunction the intersection of its operands. The
negation of an assertion is true where the assertion is false, and that of an
inclusion asserts a concept of one made-up individual: if this is new to the
inclusion, then the concept does not speak of it, and the inclusion is false
exactly if some element in its place makes the negation true. -/
theorem Interpretation.negation_complements (I : Interpretation α) :
    (∀ (c : Concept) (x : α), c.negation.Holds I x ↔ ¬ c.Holds I x) ∧
    (∀ (cs : List Concept) (x : α),
      (Concept.conjunction cs).Holds I x ↔ ∀ c ∈ cs, c.Holds I x) ∧
    (∀ (a : Axiom) (supply : Supply), a.isAssertion →
      ∃ b, a.negation supply = .ok (b, supply) ∧
        (b.Satisfied I ↔ ¬ a.Satisfied I)) ∧
    ∀ (c d : Concept) (supply : Supply), ∃ concept : Concept,
      let inclusion := Axiom.subClassOf c d
      let node := BlankNode.fresh supply.next
      let refutation := Axiom.classAssertion concept (.anonymous node)
      inclusion.negation supply = .ok (refutation, ⟨supply.next + 1⟩) ∧
        (node ∉ inclusion.nodes → node ∉ concept.nodes ∧
          (¬ inclusion.Satisfied I ↔
            ∃ x : α, refutation.Satisfied (I.withNode node x))) := by
  refine ⟨fun _ _ => Concept.holds_negation,
    fun _ _ => Concept.holds_conjunction,
    fun a supply assertion => Axiom.negation_of_assertion assertion supply I,
    fun c d supply => ⟨Concept.conjunction [c, d.negation], rfl, fun new => ?_⟩⟩
  refine ⟨mt Axiom.mem_nodes_of_witness new,
    Axiom.not_satisfied_iff_exists_withNode rfl (fun n made => ?_) new⟩
  obtain ⟨k, least, below, rfl⟩ := made
  exact congrArg _ (Nat.le_antisymm (Nat.le_of_lt_succ below) least)

/-- Two elements, one of which is in the class `A`; all individuals stand for
the other one. -/
def Interpretation.halved : Interpretation Bool where
  classes name x := name = Iri.thing ∨ name = ⟨"e:#A"⟩ ∧ x = true
  properties _ _ _ := False
  individuals _ := false
  nodes _ := false
  thing _ := .inl rfl
  nothing x := by
    have other : Iri.nothing ≠ Iri.thing ∧ Iri.nothing ≠ ⟨"e:#A"⟩ := by decide
    rintro (h | ⟨h, -⟩)
    · exact other.1 h
    · exact other.2 h

/-- In the negation of `A ⊓ (⊤ ⊓ A) ⊑ {_:fresh0}` the top and the second `A`
are dropped. Its individual `_:fresh1` stands for no witness as it is, but it
can be read as one. -/
theorem Interpretation.halved_negation_complements :
    let A := Concept.atom ⟨"e:#A"⟩
    let one := Concept.oneOf [.anonymous (.fresh 0)]
    let inclusion := Axiom.subClassOf (.inter [A, .inter [.top, A]]) one
    let refutation := Axiom.classAssertion (.inter [A, .compl one])
      (.anonymous (.fresh 1))
    let assertion := Axiom.roleAssertion (.named ⟨"e:#r"⟩) (.named ⟨"e:#a"⟩)
      (.anonymous (.fresh 0))
    (assertion.isAssertion ∧ BlankNode.fresh 1 ∉ inclusion.nodes) ∧
      (∃ b, assertion.negation ⟨1⟩ = .ok (b, ⟨1⟩) ∧
        (b.Satisfied halved ↔ ¬ assertion.Satisfied halved)) ∧
      inclusion.negation ⟨1⟩ = .ok (refutation, ⟨2⟩) ∧
      (¬ inclusion.Satisfied halved ↔
        ∃ x, refutation.Satisfied (halved.withNode (.fresh 1) x)) := by
  intro A one inclusion refutation assertion
  obtain ⟨-, -, assertions, inclusions⟩ := halved.negation_complements
  obtain ⟨concept, made, spec⟩ :=
    inclusions (.inter [A, .inter [.top, A]]) one ⟨1⟩
  have simplified : Concept.conjunction
      [.inter [A, .inter [.top, A]], one.negation] =
        .inter [A, .compl one] := by
    decide +kernel
  have computed : inclusion.negation ⟨1⟩ = .ok (refutation, ⟨2⟩) := by
    simp only [inclusion, refutation, Axiom.negation, simplified]
    rfl
  -- the two runs give one answer, so the concept is the computed one
  obtain rfl : concept = .inter [A, .compl one] := by
    have same := made.symm.trans computed
    rw [Except.ok.injEq, Prod.mk.injEq, Axiom.classAssertion.injEq] at same
    exact same.1.1
  have new : BlankNode.fresh 1 ∉ inclusion.nodes := by decide
  exact ⟨⟨rfl, new⟩, assertions assertion ⟨1⟩ rfl, computed, (spec new).2⟩

end ContextDL
