/-
Grouping does not change a conjunction.

A conjunction depends on its operands by two things only: on whether there is a
bottom among their leaves, and if there is none, on their conjuncts
(`Concept.conjunction_congr`). Both are kept when operands are put together
beforehand. A bottom among the leaves comes out as a leaf again
(`Concept.bottom_mem_leaves_conjunction`), and without one the leaves of the
conjunction, but for a top, are the conjuncts
(`Concept.filter_leaves_conjunction`). So repetitions are left out twice, once
in every group and once over all of them, and this is as good as once
(`eraseDups_append_eraseDups`).

What comes out is simplified, and a simplified concept is its own conjunction
(`Concept.IsSimplified.conjunction_singleton`).
-/
import ContextDL.Distinct
import ContextDL.Proofs.Conjunction.Flattening

namespace ContextDL.Concept

-- ================================================================ normal forms

/-- A conjunct is its only leaf. -/
theorem IsConjunct.leaves {c : Concept} (h : c.IsConjunct) : c.leaves = [c] :=
  leaves_of_ne_inter h.ne_inter

/-- The conjuncts of operands without a bottom cannot be simplified. -/
theorem isConjunct_of_mem_conjuncts {operands : List Concept} {c : Concept}
    (proper : bottom ∉ leavesAll operands) (h : c ∈ conjuncts operands) :
    c.IsConjunct := by
  rw [conjuncts, List.mem_eraseDups, List.mem_filter] at h
  obtain ⟨leaf, apart⟩ := h
  refine ⟨of_decide_eq_true apart, ne_of_mem_of_not_mem leaf proper, ?_⟩
  rw [leavesAll_eq, List.mem_flatMap] at leaf
  obtain ⟨d, -, leaf⟩ := leaf
  exact ne_inter_of_mem_leaves leaf

/-- Conjuncts put together are simplified. -/
theorem isSimplified_ofConjuncts {cs : List Concept} (distinct : cs.Nodup)
    (each : ∀ c ∈ cs, c.IsConjunct) : (ofConjuncts cs).IsSimplified := by
  match cs with
  | [] => exact .top
  | [c] => exact .single (each c List.mem_cons_self)
  | c :: d :: cs => exact .inter (by simp) distinct each

/-- Nothing in a conjunction can be simplified. -/
theorem isSimplified_conjunction (operands : List Concept) :
    (conjunction operands).IsSimplified := by
  rw [conjunction_eq]
  split
  · exact .bottom
  · next proper =>
    exact isSimplified_ofConjuncts (nodup_eraseDups _)
      fun c hc => isConjunct_of_mem_conjuncts proper hc

-- ====================================================== leaves of conjunctions

/-- The leaves of conjuncts are the conjuncts. -/
theorem leavesAll_of_isConjunct {cs : List Concept}
    (each : ∀ c ∈ cs, c.IsConjunct) : leavesAll cs = cs := by
  induction cs with
  | nil => rfl
  | cons c cs ih =>
    obtain ⟨first, others⟩ := List.forall_mem_cons.1 each
    rw [leavesAll_cons first.ne_inter, ih others]

/-- There is no top among conjuncts. -/
theorem filter_ne_top_of_isConjunct {cs : List Concept}
    (each : ∀ c ∈ cs, c.IsConjunct) : cs.filter (· ≠ top) = cs :=
  List.filter_eq_self.2 fun c hc => decide_eq_true (each c hc).ne_top

/-- Conjuncts put together have themselves for leaves, but for a top. -/
theorem filter_leaves_ofConjuncts {cs : List Concept}
    (each : ∀ c ∈ cs, c.IsConjunct) :
    (ofConjuncts cs).leaves.filter (· ≠ top) = cs := by
  match cs with
  | [] => rfl
  | [c] =>
    rw [ofConjuncts, (each c List.mem_cons_self).leaves,
      filter_ne_top_of_isConjunct each]
  | c :: d :: cs =>
    show (leavesAll (c :: d :: cs)).filter (· ≠ top) = c :: d :: cs
    rw [leavesAll_of_isConjunct each, filter_ne_top_of_isConjunct each]

/-- The leaves of a conjunction that is not bottom are the conjuncts of its
operands, but for a top. -/
theorem filter_leaves_conjunction {operands : List Concept}
    (proper : bottom ∉ leavesAll operands) :
    (conjunction operands).leaves.filter (· ≠ top) = conjuncts operands := by
  rw [conjunction_eq, if_neg proper]
  exact filter_leaves_ofConjuncts
    fun c hc => isConjunct_of_mem_conjuncts proper hc

/-- Bottom is a leaf of a conjunction if it is one of the operands. -/
theorem bottom_mem_leaves_conjunction {operands : List Concept} :
    bottom ∈ (conjunction operands).leaves ↔ bottom ∈ leavesAll operands := by
  constructor
  · intro leaf
    by_contra proper
    have conjunct : bottom ∈ conjuncts operands := by
      rw [← filter_leaves_conjunction proper, List.mem_filter]
      exact ⟨leaf, by decide⟩
    exact (isConjunct_of_mem_conjuncts proper conjunct).ne_bottom rfl
  · intro leaf
    rw [conjunction_eq, if_pos leaf]
    exact List.mem_cons_self

-- ==================================================================== grouping

/-- Operands have the same conjunction if they have the same conjuncts, or a
bottom among their leaves. -/
theorem conjunction_congr {xs ys : List Concept}
    (bottoms : bottom ∈ leavesAll xs ↔ bottom ∈ leavesAll ys)
    (same : bottom ∉ leavesAll xs → conjuncts xs = conjuncts ys) :
    conjunction xs = conjunction ys := by
  rw [conjunction_eq, conjunction_eq]
  by_cases h : bottom ∈ leavesAll xs
  · rw [if_pos h, if_pos (bottoms.1 h)]
  · rw [if_neg h, if_neg (mt bottoms.2 h), same h]

/-- Two groups of operands may be put together first. -/
theorem conjunction_append (xs ys : List Concept) :
    conjunction (xs ++ ys) = conjunction [conjunction xs, conjunction ys] := by
  have leaves : leavesAll [conjunction xs, conjunction ys] =
      (conjunction xs).leaves ++ (conjunction ys).leaves := by
    simp [leavesAll]
  apply conjunction_congr
  · rw [leavesAll_append, leaves, List.mem_append, List.mem_append,
      bottom_mem_leaves_conjunction, bottom_mem_leaves_conjunction]
  · intro proper
    rw [leavesAll_append, List.mem_append, not_or] at proper
    calc conjuncts (xs ++ ys)
        = ((leavesAll xs).filter (· ≠ top) ++
            (leavesAll ys).filter (· ≠ top)).eraseDups := by
          rw [conjuncts, leavesAll_append, List.filter_append]
      _ = (conjuncts xs ++ conjuncts ys).eraseDups :=
          (eraseDups_append_eraseDups _ _).symm
      _ = conjuncts [conjunction xs, conjunction ys] := by
          unfold conjuncts
          rw [leaves, List.filter_append, filter_leaves_conjunction proper.1,
            filter_leaves_conjunction proper.2]
          rfl

/-- An intersection among the operands may be opened. -/
theorem conjunction_open (xs zs ys : List Concept) :
    conjunction (xs ++ .inter zs :: ys) = conjunction (xs ++ zs ++ ys) := by
  have same :
      leavesAll (xs ++ .inter zs :: ys) = leavesAll (xs ++ zs ++ ys) := by
    simp only [leavesAll_append, leavesAll, leaves, List.append_assoc]
  rw [conjunction_eq, conjunction_eq, conjuncts, conjuncts, same]

/-- Distinct conjuncts are put together as they are. -/
theorem conjunction_of_isConjunct {cs : List Concept} (distinct : cs.Nodup)
    (each : ∀ c ∈ cs, c.IsConjunct) : conjunction cs = ofConjuncts cs := by
  have proper : bottom ∉ cs := fun h => (each bottom h).ne_bottom rfl
  rw [conjunction_eq, conjuncts, leavesAll_of_isConjunct each, if_neg proper,
    filter_ne_top_of_isConjunct each, eraseDups_of_nodup distinct]

/-- A simplified concept is the conjunction of itself. -/
theorem IsSimplified.conjunction_singleton {c : Concept}
    (h : c.IsSimplified) : conjunction [c] = c := by
  cases h with
  | top => rw [conjunction_eq]; rfl
  | bottom => rw [conjunction_eq]; rfl
  | single conjunct =>
    exact conjunction_of_isConjunct (by simp)
      (List.forall_mem_singleton.2 conjunct)
  | @inter cs several distinct each =>
    have opened : conjunction [.inter cs] = conjunction cs := by
      simpa using conjunction_open [] cs []
    rw [opened, conjunction_of_isConjunct distinct each]
    match cs, several with
    | c :: d :: cs, _ => rfl

/-- Grouping does not matter to a conjunction. Two groups of operands may be put
together first, one group may be put together twice, and an intersection among
the operands may be opened. What comes out is top, bottom, a single concept that
is neither of them and no intersection, or an intersection of two or more such
concepts that are all different. -/
theorem conjunction_grouping (xs ys : List Concept) :
    conjunction (xs ++ ys) = conjunction [conjunction xs, conjunction ys] ∧
    conjunction [conjunction xs] = conjunction xs ∧
    (∀ zs, conjunction (xs ++ .inter zs :: ys) = conjunction (xs ++ zs ++ ys)) ∧
    (conjunction xs).IsSimplified :=
  ⟨conjunction_append xs ys,
    (isSimplified_conjunction xs).conjunction_singleton,
    fun zs => conjunction_open xs zs ys, isSimplified_conjunction xs⟩

end ContextDL.Concept
