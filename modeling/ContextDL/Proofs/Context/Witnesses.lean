/-
The individuals that a context model makes up.

The negation of an inclusion speaks of one individual that is made up for it,
its witness (`Definition.witness?`); no other negation has one. Along the
definitions of a model the witnesses are the blank nodes that were taken out of
the supply, in order and each once (`ContextBase.Negated.witnesses`).

# Two buildings of one definition

Two models may define the same and have taken their witnesses from different
supplies, or in another order. A permutation that leads from the witness of
each concept in the one to its witness in the other exists
(`exists_perm_of_filterMap`): it is put together of one swap for each witness,
and each swap leaves alone what the ones before it have settled. Where it
fixes all that the document says, it carries one negation into the other
(`Definition.negation_eq_mapNodes`).
-/
import ContextDL.Proofs.Context.BranchMeaning
import ContextDL.Proofs.Meaning.Relabelling
import Mathlib.Logic.Equiv.Basic

namespace ContextDL

-- =================================================================== witnesses

namespace Definition

/-- The individual that was made up for the negation, if the axiom is an
inclusion. -/
def witness? (d : Definition) : Option BlankNode :=
  match d.body, d.negation with
  | .subClassOf .., .classAssertion _ (.anonymous node) => some node
  | _, _ => none

variable {d d' : Definition} {supply left supply' left' : Supply}

/-- The witness is what the negation took out of the supply. -/
theorem witness?_of_negation
    (made : d.body.negation supply = .ok (d.negation, left)) :
    (d.witness? = none ∧ left = supply) ∨
      (d.witness? = some (.fresh supply.next) ∧ left = ⟨supply.next + 1⟩) := by
  obtain ⟨concept, body, negation⟩ := d
  cases body <;> cases made
  case subClassOf => exact .inr ⟨rfl, rfl⟩
  all_goals exact .inl ⟨rfl, rfl⟩

/-- Whether there is a witness depends on the axiom alone. -/
theorem isSome_witness?
    (made : d.body.negation supply = .ok (d.negation, left))
    (made' : d'.body.negation supply' = .ok (d'.negation, left'))
    (body : d'.body = d.body) :
    d.witness?.isSome = d'.witness?.isSome := by
  obtain ⟨concept, a, negation⟩ := d
  obtain ⟨concept', a', negation'⟩ := d'
  obtain rfl : a' = a := body
  cases a' <;> cases made <;> cases made' <;> rfl

/-- A map that fixes the blank nodes of an axiom, and leads from the one
witness to the other, leads from the one negation to the other. -/
theorem negation_eq_mapNodes
    (made : d.body.negation supply = .ok (d.negation, left))
    (made' : d'.body.negation supply' = .ok (d'.negation, left'))
    (body : d'.body = d.body) {f : BlankNode → BlankNode}
    (fixed : ∀ n ∈ d.body.nodes, f n = n)
    (moved : d.witness?.map f = d'.witness?) :
    d'.negation = d.negation.mapNodes f := by
  obtain ⟨concept, a, negation⟩ := d
  obtain ⟨concept', a', negation'⟩ := d'
  obtain rfl : a' = a := body
  cases a' <;> cases made <;> cases made'
  case subClassOf c d =>
    have witness : BlankNode.fresh supply'.next = f (.fresh supply.next) :=
      (Option.some.inj moved).symm
    have same : (Concept.conjunction [c, d.negation]).mapNodes f =
        .conjunction [c, d.negation] :=
      Concept.mapNodes_eq_self fun n hn =>
        fixed n (Axiom.mem_nodes_of_witness hn)
    show Axiom.classAssertion _ (.anonymous (.fresh supply'.next)) =
      .classAssertion _ (.anonymous (f (.fresh supply.next)))
    rw [same, witness]
  case classAssertion c a =>
    refine (Axiom.mapNodes_eq_self fun n hn => fixed n ?_).symm
    rwa [Axiom.nodes, Concept.nodes_negation] at hn
  all_goals
    refine (Axiom.mapNodes_eq_self ?_).symm
    exact fixed

end Definition

namespace ContextBase

variable {supply left : Supply} {ds : List Definition}

/-- The witnesses of a chain of negations are the blank nodes that it took out
of the supply. -/
theorem Negated.witnesses (chain : Negated supply ds left) :
    ds.filterMap Definition.witness? =
      (List.range' supply.next (left.next - supply.next)).map .fresh := by
  induction chain with
  | nil => simp
  | @snoc middle left ds d before made ih =>
    have used := before.next_le
    rw [List.filterMap_append, ih]
    rcases Definition.witness?_of_negation made with ⟨none, rfl⟩ | ⟨one, rfl⟩
    · simp [none]
    · have longer : middle.next + 1 - supply.next =
          middle.next - supply.next + 1 := by omega
      have last : supply.next + (middle.next - supply.next) = middle.next := by
        omega
      rw [longer, List.range'_1_concat, last]
      simp [one]

/-- No two witnesses are the same. -/
theorem Negated.nodup_witnesses (chain : Negated supply ds left) :
    (ds.filterMap Definition.witness?).Nodup := by
  rw [chain.witnesses]
  refine List.Nodup.map (fun i j same => ?_) List.nodup_range'
  exact BlankNode.fresh.inj same

/-- The witnesses are what was made up. -/
theorem Negated.mem_witnesses_iff (chain : Negated supply ds left)
    {n : BlankNode} :
    n ∈ ds.filterMap Definition.witness? ↔ supply.MadeUp left n := by
  have used := chain.next_le
  rw [chain.witnesses, List.mem_map]
  constructor
  · rintro ⟨i, listed, rfl⟩
    rw [List.mem_range'_1] at listed
    exact ⟨i, by omega, by omega, rfl⟩
  · rintro ⟨i, least, below, rfl⟩
    exact ⟨i, List.mem_range'_1.2 ⟨least, by omega⟩, rfl⟩

end ContextBase

-- ================================================================ permutations

section Permutations

variable {α β : Type} [DecidableEq β] {f g : α → Option β} {xs : List α}

/-- A permutation that is to lead from one value to another is followed by a
swap. This moves no third value, if it is not led to the second. -/
theorem trans_swap_apply_of_ne {σ : Equiv.Perm β} {a b c : β} (other : c ≠ a)
    (apart : σ c ≠ b) : σ.trans (Equiv.swap (σ a) b) c = σ c := by
  rw [Equiv.trans_apply,
    Equiv.swap_apply_of_ne_of_ne (σ.injective.ne other) apart]

/-- Where two functions give values to the same members of a list, and neither
gives one value twice, some permutation leads from the values of the one to
those of the other, and moves nothing else. -/
theorem exists_perm_of_filterMap
    (same : ∀ x ∈ xs, (f x).isSome = (g x).isSome)
    (nodup_f : (xs.filterMap f).Nodup) (nodup_g : (xs.filterMap g).Nodup) :
    ∃ σ : Equiv.Perm β, (∀ x ∈ xs, (f x).map σ = g x) ∧
      ∀ b, b ∉ xs.filterMap f → b ∉ xs.filterMap g → σ b = b := by
  induction xs with
  | nil => exact ⟨.refl β, by simp, fun _ _ _ => rfl⟩
  | cons x xs ih =>
    have tail := ih fun y hy => same y (List.mem_cons_of_mem x hy)
    have head := same x List.mem_cons_self
    cases hf : f x with
    | none =>
      have hg : g x = none := by simpa [hf] using head.symm
      rw [List.filterMap_cons_none hf] at nodup_f ⊢
      rw [List.filterMap_cons_none hg] at nodup_g ⊢
      obtain ⟨σ, leads, fixes⟩ := tail nodup_f nodup_g
      refine ⟨σ, List.forall_mem_cons.2 ⟨?_, leads⟩, fixes⟩
      rw [hf, hg, Option.map_none]
    | some a =>
      obtain ⟨b, hg⟩ : ∃ b, g x = some b :=
        Option.isSome_iff_exists.1 (by simp [← head, hf])
      rw [List.filterMap_cons_some hf] at nodup_f ⊢
      rw [List.filterMap_cons_some hg] at nodup_g ⊢
      obtain ⟨new_a, nodup_f⟩ := List.nodup_cons.1 nodup_f
      obtain ⟨new_b, nodup_g⟩ := List.nodup_cons.1 nodup_g
      obtain ⟨σ, leads, fixes⟩ := tail nodup_f nodup_g
      refine ⟨σ.trans (Equiv.swap (σ a) b),
        List.forall_mem_cons.2 ⟨?_, fun y hy => ?_⟩, fun c hc hc' => ?_⟩
      · rw [hf, hg, Option.map_some, Equiv.trans_apply, Equiv.swap_apply_left]
      · -- the swap moves no value that is settled
        have settled := leads y hy
        rw [← settled]
        refine Option.map_congr fun c hc => trans_swap_apply_of_ne ?_ ?_
        · rintro rfl
          exact new_a (List.mem_filterMap.2 ⟨y, hy, hc⟩)
        · rintro rfl
          rw [hc, Option.map_some] at settled
          exact new_b (List.mem_filterMap.2 ⟨y, hy, settled.symm⟩)
      · rw [List.mem_cons, not_or] at hc hc'
        have fixed := fixes c hc.2 hc'.2
        rw [trans_swap_apply_of_ne hc.1 (fixed.symm ▸ hc'.1), fixed]

end Permutations

end ContextDL
