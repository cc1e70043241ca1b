/-
A conjunction is made of the leaves of its operands.

`Concept.gather_eq` says what the work on a list of operands finds, whatever
was found before: nothing if there is a bottom among the leaves, and otherwise
the new leaves other than top, each once. The induction is that of the work. An
intersection in front has the leaves of its operands, so opening it leaves the
list of leaves as it was (`Concept.leavesAll_append`), and every other concept
is a leaf itself.

The work with a stack is tied to this by what is pending: the stack, read from
its top. A round leaves the answer to what is pending as it was and fewer nodes
on the stack, or it gives the answer (`Concept.Worklist.round_spec`). So the
work is over before there have been more rounds than nodes
(`Concept.Worklist.run_eq`).
-/
import ContextDL.Concept.Negation
import Mathlib.Data.List.Basic

namespace ContextDL.Concept

-- =================================================================== gathering

/-- A concept that is no intersection stands in front of the other leaves. -/
theorem leavesAll_cons {c : Concept} (closed : ∀ operands, c ≠ .inter operands)
    (cs : List Concept) : leavesAll (c :: cs) = c :: leavesAll cs := by
  rw [leavesAll, leaves_of_ne_inter closed]
  rfl

/-- A concept that is no intersection is kept, dropped or ends the work. -/
theorem gather_cons {c : Concept} (closed : ∀ operands, c ≠ .inter operands)
    (found pending : List Concept) :
    gather found (c :: pending) =
      if c = top then gather found pending
      else if c = bottom then none
      else if c ∈ found then gather found pending
      else gather (found ++ [c]) pending := by
  rw [gather]
  exact closed

/-- Gathering finds the new leaves other than top, each once, and breaks off
exactly if there is a bottom among the leaves. -/
theorem gather_eq (found pending : List Concept) :
    gather found pending =
      if bottom ∈ leavesAll pending then none
      else some (found ++ ((leavesAll pending).filter
        fun c => c ≠ top ∧ c ∉ found).eraseDups) := by
  have apart : bottom ≠ top := by decide
  induction found, pending using gather.induct with
  | case1 found => simp [gather, leavesAll]
  | case2 found operands pending ih =>
    rw [gather, ih, leavesAll_append]
    rfl
  | case3 found pending closed ih =>
    rw [gather_cons closed, if_pos rfl, ih, leavesAll_cons closed]
    simp [apart]
  | case4 found pending closed =>
    rw [gather_cons closed, if_neg apart, if_pos rfl, leavesAll_cons closed,
      if_pos List.mem_cons_self]
  | case5 found c pending closed top proper known ih =>
    rw [gather_cons closed, if_neg top, if_neg proper, if_pos known, ih,
      leavesAll_cons closed]
    simp [Ne.symm proper, known]
  | case6 found c pending closed top proper new ih =>
    -- the later leaves are new if they differ from this one too
    have later : (leavesAll pending).filter
          (fun d => d ≠ Concept.top ∧ d ∉ found ++ [c]) =
        ((leavesAll pending).filter
          fun d => d ≠ Concept.top ∧ d ∉ found).filter fun d => !d == c := by
      rw [List.filter_filter]
      refine List.filter_congr fun d _ => ?_
      by_cases same : d = c <;> simp [same]
    rw [gather_cons closed, if_neg top, if_neg proper, if_neg new, ih,
      leavesAll_cons closed, later]
    simp [Ne.symm proper, top, new, List.eraseDups_cons]

/-- A conjunction is bottom if there is a bottom among the leaves, and is put
together from the conjuncts otherwise. -/
theorem conjunction_eq (operands : List Concept) :
    conjunction operands =
      if bottom ∈ leavesAll operands then bottom
      else ofConjuncts (conjuncts operands) := by
  unfold conjunction conjuncts
  rw [gather_eq]
  by_cases h : bottom ∈ leavesAll operands <;> simp [h]

-- =================================================================== the stack

/-- The nodes of a list do not depend on its order. -/
theorem sizeAll_reverse (cs : List Concept) :
    sizeAll cs.reverse = sizeAll cs := by
  induction cs with
  | nil => rfl
  | cons c cs ih =>
    rw [List.reverse_cons, sizeAll_append, ih, sizeAll, sizeAll, sizeAll]
    omega

namespace Worklist

/-- What the work comes to. -/
def answer (w : Worklist) : Concept :=
  match gather w.found w.stack.reverse with
  | some conjuncts => ofConjuncts conjuncts
  | none => bottom

/-- The answer to some operands is their conjunction. -/
theorem answer_start (operands : List Concept) :
    (start operands).answer = conjunction operands := by
  simp only [answer, start, List.reverse_reverse]
  rfl

/-- What becomes of the work when a concept is taken up: less of it with the
same outcome, or none if the concept is bottom. -/
theorem takeUp_spec (w : Worklist) (c : Concept) :
    (∃ rest, w.takeUp c = .inl rest ∧
      gather rest.found rest.stack.reverse =
        gather w.found (c :: w.stack.reverse) ∧
      sizeAll rest.stack < sizeAll w.stack + c.size) ∨
    w.takeUp c = .inr bottom ∧
      gather w.found (c :: w.stack.reverse) = none := by
  have positive := size_pos c
  fun_cases w.takeUp c with
  | case1 operands =>
    refine .inl ⟨_, rfl, ?_, ?_⟩
    · rw [gather, List.reverse_append, List.reverse_reverse]
    · simp only [sizeAll_append, sizeAll_reverse, size]
      omega
  | case2 closed =>
    exact .inl ⟨w, rfl, by rw [gather_cons closed, if_pos rfl], by omega⟩
  | case3 closed apart =>
    exact .inr ⟨rfl, by rw [gather_cons closed, if_neg apart, if_pos rfl]⟩
  | case4 c closed top bottom known =>
    refine .inl ⟨w, rfl, ?_, by omega⟩
    rw [gather_cons closed, if_neg top, if_neg bottom, if_pos known]
  | case5 c closed top bottom new =>
    refine .inl ⟨_, rfl, ?_, Nat.lt_add_of_pos_right positive⟩
    rw [gather_cons closed, if_neg top, if_neg bottom, if_neg new]

/-- What one round does: it leaves the answer as it is and fewer nodes on the
stack, or it gives the answer. -/
theorem round_spec (w : Worklist) :
    (∃ rest, w.round = .inl rest ∧ rest.answer = w.answer ∧
      sizeAll rest.stack < sizeAll w.stack) ∨
    w.round = .inr w.answer := by
  obtain ⟨found, stack⟩ := w
  rcases List.eq_nil_or_concat' stack with rfl | ⟨stack, c, rfl⟩
  · exact .inr (by rw [round_nil, answer, List.reverse_nil, gather])
  · have pending := List.reverse_concat' stack c
    have fewer : sizeAll (stack ++ [c]) = sizeAll stack + c.size := by
      rw [sizeAll_append, sizeAll, sizeAll, Nat.add_zero]
    rw [round_concat]
    rcases takeUp_spec ⟨found, stack⟩ c with
      ⟨rest, taken, same, less⟩ | ⟨taken, none⟩
    · refine .inl ⟨rest, taken, ?_, fewer ▸ less⟩
      unfold answer
      rw [same, pending]
    · refine .inr ?_
      rw [taken, answer, pending, none]

/-- The work gives its answer if it may take more rounds than there are nodes
on the stack. -/
theorem run_eq {w : Worklist} {rounds : Nat}
    (enough : sizeAll w.stack < rounds) : w.run rounds = some w.answer := by
  induction rounds generalizing w with
  | zero => cases enough
  | succ rounds ih =>
    rw [run]
    rcases w.round_spec with ⟨rest, next, same, less⟩ | finished
    · rw [next]
      exact same ▸ ih (by omega)
    · rw [finished]

end Worklist

/-- The work computes the recursive flattening. With the operands on a stack in
reverse it is over after at most one round more than the operands have nodes,
and it gives their conjunction. This is bottom if there is a bottom among the
leaves. Otherwise the leaves other than top are taken without repetition, in
the order in which they first occur: it is top if there are none, the leaf
itself if there is one, and else their intersection. -/
theorem worklist_flattens (operands : List Concept) :
    (∀ more, (Worklist.start operands).run (sizeAll operands + 1 + more) =
      some (conjunction operands)) ∧
    conjunction operands =
      if bottom ∈ leavesAll operands then bottom
      else match ((leavesAll operands).filter (· ≠ top)).eraseDups with
        | [] => top
        | [c] => c
        | cs => .inter cs := by
  refine ⟨fun more => ?_, conjunction_eq operands⟩
  rw [← Worklist.answer_start]
  apply Worklist.run_eq
  show sizeAll operands.reverse < _
  rw [sizeAll_reverse]
  omega

-- Three operands, one of which is opened into two, and the end: six rounds.
example :
    let a := Concept.atom ⟨"e:A"⟩
    let b := Concept.atom ⟨"e:B"⟩
    (Worklist.start [b, .inter [top, a], b]).run 6 =
      some (.inter [b, a]) := by
  decide

end ContextDL.Concept
