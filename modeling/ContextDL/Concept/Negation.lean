/-
Negation and conjunction of concepts.

Negation swaps top and bottom, takes a complement off, and puts one on
everything else; it does not move inwards. Conjunction keeps the distinct
operands that are left when nested intersections are opened and tops are
dropped; a bottom among them makes the whole bottom.

# What a conjunction is made of

The leaves of a list of concepts are what stands there when all intersections
are opened, those inside other intersections too. Its conjuncts are the leaves
without repetition and without top. Both are found by recursion on the concepts,
without the work that `conjunction` does. A simplified concept is one that a
conjunction may be: nothing in it can be opened or dropped.

# The work, round by round

The operands that are still to be looked at lie on a stack, and the top of the
stack is the end of the list. So the operands of a conjunction are put there in
reverse, as are those of an intersection that is opened, and the next one to be
taken is the leftmost one. A round takes one concept from the stack, and the
work is over when the stack is empty or a bottom has been taken. The stack may
grow from round to round, but the concepts on it have fewer and fewer nodes.
-/
import ContextDL.Concept.Basic

namespace ContextDL.Concept

-- ==================================================================== negation

/-- The negation of a concept. -/
def negation (c : Concept) : Concept :=
  if c = top then bottom
  else if c = bottom then top
  else match c with
    | .compl operand => operand
    | c => .compl c

-- ======================================================================== size

mutual

/-- The number of nodes of a concept. -/
def size : Concept → Nat
  | .atom _ | .oneOf _ => 1
  | .inter operands | .union operands => sizeAll operands + 1
  | .compl operand => operand.size + 1
  | .restrict _ _ filler => filler.size + 1

/-- The number of nodes of a list of concepts. -/
def sizeAll : List Concept → Nat
  | [] => 0
  | c :: cs => c.size + sizeAll cs

end

/-- Every concept has a node. -/
theorem size_pos (c : Concept) : 0 < c.size := by
  cases c <;> simp [size]

/-- The sizes of two lists add up. -/
theorem sizeAll_append (cs ds : List Concept) :
    sizeAll (cs ++ ds) = sizeAll cs + sizeAll ds := by
  induction cs with
  | nil => simp [sizeAll]
  | cons c cs ih => simp [sizeAll, ih, Nat.add_assoc]

-- ================================================================= conjunction

/-- Works through pending operands from the left and adds to the conjuncts
found so far. An intersection is replaced by its operands, a top or a repeated
conjunct is dropped, and a bottom ends the work without a result. -/
def gather (found : List Concept) : List Concept → Option (List Concept)
  | [] => some found
  | .inter operands :: pending => gather found (operands ++ pending)
  | c :: pending =>
    if c = top then gather found pending
    else if c = bottom then none
    else if c ∈ found then gather found pending
    else gather (found ++ [c]) pending
termination_by pending => sizeAll pending
decreasing_by
  all_goals simp only [sizeAll_append, sizeAll, size]
  · omega
  all_goals have := size_pos c; omega

/-- The concept that a list of conjuncts stands for: top for none, the
conjunct itself for one. -/
def ofConjuncts : List Concept → Concept
  | [] => top
  | [c] => c
  | cs => .inter cs

/-- The conjunction of concepts, simplified. -/
def conjunction (operands : List Concept) : Concept :=
  match gather [] operands with
  | some conjuncts => ofConjuncts conjuncts
  | none => bottom

-- ====================================================================== leaves

mutual

/-- What is left of a concept when nested intersections are opened. -/
def leaves : Concept → List Concept
  | .inter operands => leavesAll operands
  | c => [c]

/-- The leaves of a list, from left to right. -/
def leavesAll : List Concept → List Concept
  | [] => []
  | c :: cs => c.leaves ++ leavesAll cs

end

/-- The leaves of a list are those of its members. -/
theorem leavesAll_eq (cs : List Concept) :
    leavesAll cs = cs.flatMap leaves := by
  induction cs with
  | nil => rfl
  | cons c cs ih => rw [leavesAll, ih]; rfl

/-- The leaves of two lists. -/
theorem leavesAll_append (cs ds : List Concept) :
    leavesAll (cs ++ ds) = leavesAll cs ++ leavesAll ds := by
  simp only [leavesAll_eq, List.flatMap_append]

/-- What is not an intersection is its only leaf. -/
theorem leaves_of_ne_inter {c : Concept}
    (closed : ∀ operands, c ≠ .inter operands) : c.leaves = [c] := by
  cases c with
  | inter operands => exact absurd rfl (closed operands)
  | _ => rfl

/-- No leaf is an intersection. -/
theorem ne_inter_of_mem_leaves {c d : Concept} (h : d ∈ c.leaves) :
    ∀ operands, d ≠ .inter operands := by
  induction c with
  | inter operands ih =>
    rw [leaves, leavesAll_eq, List.mem_flatMap] at h
    obtain ⟨c, hc, hd⟩ := h
    exact ih c hc hd
  | _ =>
    obtain rfl := List.mem_singleton.1 h
    intro operands same
    cases same

-- =================================================================== conjuncts

/-- The distinct leaves other than top, in the order in which they first
occur. -/
def conjuncts (operands : List Concept) : List Concept :=
  ((leavesAll operands).filter (· ≠ top)).eraseDups

/-- What may stand in an intersection of which nothing can be simplified. -/
structure IsConjunct (c : Concept) : Prop where
  ne_top : c ≠ top
  ne_bottom : c ≠ bottom
  ne_inter : ∀ operands, c ≠ .inter operands

/-- A conjunction of which nothing can be simplified. -/
inductive IsSimplified : Concept → Prop where
  | top : IsSimplified .top
  | bottom : IsSimplified .bottom
  | single {c : Concept} (conjunct : c.IsConjunct) : IsSimplified c
  | inter {cs : List Concept} (several : 2 ≤ cs.length) (distinct : cs.Nodup)
      (conjuncts : ∀ c ∈ cs, c.IsConjunct) : IsSimplified (.inter cs)

-- =================================================================== worklists

/-- The conjuncts found so far, and the concepts still to be looked at. -/
structure Worklist where
  found : List Concept
  stack : List Concept

namespace Worklist

/-- The work that is to be done for some operands. -/
def start (operands : List Concept) : Worklist :=
  ⟨[], operands.reverse⟩

/-- What becomes of the work when a concept is taken up: more work, or the
conjunction itself. -/
def takeUp (w : Worklist) : Concept → Worklist ⊕ Concept
  | .inter operands => .inl { w with stack := w.stack ++ operands.reverse }
  | c =>
    if c = top then .inl w
    else if c = bottom then .inr bottom
    else if c ∈ w.found then .inl w
    else .inl { w with found := w.found ++ [c] }

/-- One round of the work: it takes up the concept on top of the stack, or
puts together what has been found. -/
def round (w : Worklist) : Worklist ⊕ Concept :=
  match w.stack.getLast? with
  | none => .inr (ofConjuncts w.found)
  | some c => { w with stack := w.stack.dropLast }.takeUp c

/-- The conjunction, if so many rounds suffice for it. -/
def run : Nat → Worklist → Option Concept
  | 0, _ => none
  | rounds + 1, w =>
    match w.round with
    | .inl rest => run rounds rest
    | .inr c => some c

/-- What is on an empty stack is nothing, so the conjuncts are put together. -/
theorem round_nil (found : List Concept) :
    round ⟨found, []⟩ = .inr (ofConjuncts found) :=
  rfl

/-- The concept at the end of the stack is taken up. -/
theorem round_concat (found stack : List Concept) (c : Concept) :
    round ⟨found, stack ++ [c]⟩ = takeUp ⟨found, stack⟩ c := by
  simp [round]

end Worklist

end ContextDL.Concept
