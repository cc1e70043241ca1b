/-
Heights of concepts, and passes that recurse on them.

The height of a concept is the number of nodes on the longest way down. A part
that stands some levels inside a concept is so much lower (`IsInside.height`).

A pass is a recursive function on concepts, taken apart at the nodes: it says
what is made of a node when its operands have been gone through. `within` runs
a pass with a bound on how deeply the calls may be nested, and gives nothing
where the bound is too low. It is too low exactly for the concepts that are
higher than it (`Pass.Computes.within_eq`), whatever the pass does.
-/
import ContextDL.Concept.Basic

namespace ContextDL

namespace Concept

-- ===================================================================== heights

mutual

/-- How many nodes stand above each other in a concept. -/
def height : Concept → Nat
  | .atom _ | .oneOf _ => 1
  | .inter operands | .union operands => heightOfAll operands + 1
  | .compl operand => operand.height + 1
  | .restrict _ _ filler => filler.height + 1

/-- The height of the highest concept of a list. -/
def heightOfAll : List Concept → Nat
  | [] => 0
  | c :: cs => max c.height (heightOfAll cs)

end

/-- Every member of a list is within a bound if the highest one is. -/
theorem heightOfAll_le {cs : List Concept} {bound : Nat} :
    heightOfAll cs ≤ bound ↔ ∀ c ∈ cs, c.height ≤ bound := by
  induction cs with
  | nil => simp [heightOfAll]
  | cons c cs ih => rw [heightOfAll, Nat.max_le, ih, List.forall_mem_cons]

-- ======================================================================= parts

/-- The operands of a node, or its filler. -/
def parts : Concept → List Concept
  | .atom _ | .oneOf _ => []
  | .inter operands | .union operands => operands
  | .compl operand => [operand]
  | .restrict _ _ filler => [filler]

/-- A node is one higher than its highest part. -/
theorem height_eq (c : Concept) : c.height = heightOfAll c.parts + 1 := by
  cases c <;> simp [height, parts, heightOfAll]

/-- A concept stands some levels inside another one: it is a part of a part,
and so on. -/
inductive IsInside : Nat → Concept → Concept → Prop where
  | here (c : Concept) : IsInside 0 c c
  | deeper {levels : Nat} {c part whole : Concept} (h : part ∈ whole.parts)
      (inner : IsInside levels c part) : IsInside (levels + 1) c whole

/-- What stands inside a concept is lower, by as many levels. -/
theorem IsInside.height {levels : Nat} {c whole : Concept}
    (h : IsInside levels c whole) : levels + c.height ≤ whole.height := by
  induction h with
  | here c => exact Nat.le_of_eq (Nat.zero_add _)
  | @deeper levels c part whole h _ ih =>
    have lower : part.height ≤ heightOfAll whole.parts :=
      heightOfAll_le.1 (Nat.le_refl _) part h
    rw [height_eq whole]
    omega

end Concept

-- ====================================================================== passes

/-- What a recursive function makes of a node, given what it has made of the
parts. -/
structure Pass (α : Type) where
  atom : Iri → α
  inter : List α → α
  union : List α → α
  compl : α → α
  oneOf : List Individual → α
  restrict : Quantifier → Role → α → α

namespace Pass

variable {α : Type} (pass : Pass α)

/-- Runs a pass with calls nested no deeper than a bound. It gives nothing if
the bound does not suffice. -/
def within : Nat → Concept → Option α
  | 0, _ => none
  | _ + 1, .atom name => some (pass.atom name)
  | bound + 1, .inter operands => do
    return pass.inter (← operands.mapM (within bound))
  | bound + 1, .union operands => do
    return pass.union (← operands.mapM (within bound))
  | bound + 1, .compl operand => do
    return pass.compl (← within bound operand)
  | _ + 1, .oneOf members => some (pass.oneOf members)
  | bound + 1, .restrict quantifier role filler => do
    return pass.restrict quantifier role (← within bound filler)

/-- A function on concepts is what a pass describes. -/
structure Computes (f : Concept → α) : Prop where
  atom : ∀ name, f (.atom name) = pass.atom name
  inter : ∀ operands, f (.inter operands) = pass.inter (operands.map f)
  union : ∀ operands, f (.union operands) = pass.union (operands.map f)
  compl : ∀ operand, f (.compl operand) = pass.compl (f operand)
  oneOf : ∀ members, f (.oneOf members) = pass.oneOf members
  restrict : ∀ quantifier role filler,
    f (.restrict quantifier role filler) =
      pass.restrict quantifier role (f filler)

variable {pass} {f : Concept → α}

/-- A list is gone through if all of its members are. -/
theorem mapM_eq_ite {fits : Concept → Prop} [DecidablePred fits]
    {g : Concept → Option α} {cs : List Concept}
    (each : ∀ c ∈ cs, g c = if fits c then some (f c) else none) :
    cs.mapM g = if ∀ c ∈ cs, fits c then some (cs.map f) else none := by
  induction cs with
  | nil => rfl
  | cons c cs ih =>
    obtain ⟨first, others⟩ := List.forall_mem_cons.1 each
    rw [List.mapM_cons, first, ih others]
    by_cases fit : fits c
    · by_cases rest : ∀ d ∈ cs, fits d
      · have all := List.forall_mem_cons.2 ⟨fit, rest⟩
        rw [if_pos fit, if_pos rest, if_pos all]
        rfl
      · rw [if_pos fit, if_neg rest,
          if_neg fun all => rest (List.forall_mem_cons.1 all).2]
        rfl
    · rw [if_neg fit, if_neg fun all => fit (List.forall_mem_cons.1 all).1]
      rfl

/-- A bound on the depth of a pass suffices for the concepts that are no
higher, and for no others. -/
theorem Computes.within_eq (h : pass.Computes f) (bound : Nat) (c : Concept) :
    pass.within bound c = if c.height ≤ bound then some (f c) else none := by
  have positive (c : Concept) : 0 < c.height := by
    rw [Concept.height_eq]
    exact Nat.succ_pos _
  induction bound generalizing c with
  | zero =>
    rw [if_neg (Nat.not_le.2 (positive c))]
    rfl
  | succ bound ih =>
    have list (cs : List Concept) : cs.mapM (pass.within bound) =
        if Concept.heightOfAll cs + 1 ≤ bound + 1 then some (cs.map f)
        else none := by
      rw [mapM_eq_ite fun c _ => ih c]
      simp only [Nat.add_le_add_iff_right, Concept.heightOfAll_le]
    cases c with
    | atom name => simp [within, Concept.height, h.atom]
    | inter cs =>
      rw [within, list, h.inter, Concept.height]
      split <;> rfl
    | union cs =>
      rw [within, list, h.union, Concept.height]
      split <;> rfl
    | compl c =>
      rw [within, ih, h.compl, Concept.height]
      simp only [Nat.add_le_add_iff_right]
      split <;> rfl
    | oneOf members => simp [within, Concept.height, h.oneOf]
    | restrict q r c =>
      rw [within, ih, h.restrict, Concept.height]
      simp only [Nat.add_le_add_iff_right]
      split <;> rfl

end Pass

end ContextDL
