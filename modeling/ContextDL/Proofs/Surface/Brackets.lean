/-
Brackets: every sentence is nested.

A statement is cut into its parts before any part is read, by scans that count
brackets each in its own way: the check of the whole text counts parentheses
and braces apart, the scan for the inclusion mark counts them together, and
the scan for the last group counts parentheses only, from the right.

What all of them agree on is `Lexeme.IsNested`: parentheses and braces inside
one another, and between them lexemes at which no scan stops. A nested
sequence leaves both balances as they are (`KeepsBalance`). Sentences of the
grammar are nested (`Grammar.IsConcept.isNested`,
`Grammar.IsRole.isNested`), by induction on their budgets.
-/
import ContextDL.Proofs.Surface.Lexing
import ContextDL.Proofs.Surface.Reading

namespace ContextDL

-- ============================================================ nested sequences

namespace Lexeme

/-- Lexemes at which no scan stops or counts. -/
def IsPlain (l : Lexeme) : Prop :=
  l ∉ [openParen, closeParen, openBrace, closeBrace, inclusion, tag]

instance (l : Lexeme) : Decidable l.IsPlain :=
  inferInstanceAs (Decidable (l ∉ _))

theorem isPlain_name (text : List Char) : (name text).IsPlain := by
  simp [IsPlain]

/-- Lexemes that change neither balance. -/
def KeepsBalance (ls : List Lexeme) : Prop :=
  ∀ (depth : Nat) (ms : List Lexeme),
    Reader.isBalanced openParen closeParen depth (ls ++ ms) =
        Reader.isBalanced openParen closeParen depth ms ∧
      Reader.isBalanced openBrace closeBrace depth (ls ++ ms) =
        Reader.isBalanced openBrace closeBrace depth ms

theorem KeepsBalance.append {ls ms : List Lexeme} (hls : KeepsBalance ls)
    (hms : KeepsBalance ms) : KeepsBalance (ls ++ ms) := by
  intro depth rest
  rw [List.append_assoc, (hls _ _).1, (hls _ _).2]
  exact hms depth rest

theorem keepsBalance_of_ne {l : Lexeme} (h₁ : l ≠ openParen)
    (h₂ : l ≠ closeParen) (h₃ : l ≠ openBrace) (h₄ : l ≠ closeBrace) :
    KeepsBalance [l] := by
  intro depth ms
  exact ⟨Reader.isBalanced_other h₁ h₂ depth ms,
    Reader.isBalanced_other h₃ h₄ depth ms⟩

theorem keepsBalance_of_isPlain {l : Lexeme} (h : l.IsPlain) :
    KeepsBalance [l] := by
  simp only [IsPlain, List.mem_cons, not_or] at h
  obtain ⟨h₁, h₂, h₃, h₄, -⟩ := h
  exact keepsBalance_of_ne h₁ h₂ h₃ h₄

/-- Lexemes that change neither balance are balanced. -/
theorem KeepsBalance.isBalanced {ls : List Lexeme} (h : KeepsBalance ls) :
    Reader.isBalanced openParen closeParen 0 ls = true ∧
      Reader.isBalanced openBrace closeBrace 0 ls = true := by
  have whole := h 0 []
  rw [List.append_nil] at whole
  exact ⟨whole.1, whole.2⟩

/-- Brackets that match, with plain lexemes between them. -/
inductive IsNested : List Lexeme → Prop where
  | nil : IsNested []
  | plain {l : Lexeme} {ls : List Lexeme} (isPlain : l.IsPlain)
      (others : IsNested ls) : IsNested (l :: ls)
  | parens {ls ms : List Lexeme} (inner : IsNested ls)
      (others : IsNested ms) : IsNested (openParen :: ls ++ closeParen :: ms)
  | braces {ls ms : List Lexeme} (inner : IsNested ls)
      (others : IsNested ms) : IsNested (openBrace :: ls ++ closeBrace :: ms)

namespace IsNested

theorem append {ls ms : List Lexeme} (hls : IsNested ls) (hms : IsNested ms) :
    IsNested (ls ++ ms) := by
  induction hls with
  | nil => exact hms
  | plain isPlain _ ih => exact .plain isPlain ih
  | parens inner _ _ ih =>
    rw [List.append_assoc, List.cons_append]
    exact .parens inner ih
  | braces inner _ _ ih =>
    rw [List.append_assoc, List.cons_append]
    exact .braces inner ih

theorem of_plain {ls : List Lexeme} (h : ∀ l ∈ ls, l.IsPlain) :
    IsNested ls := by
  induction ls with
  | nil => exact .nil
  | cons l ls ih =>
    obtain ⟨hl, hls⟩ := List.forall_mem_cons.1 h
    exact .plain hl (ih hls)

theorem tag_not_mem {ls : List Lexeme} (h : IsNested ls) : tag ∉ ls := by
  induction h with
  | nil => simp
  | plain isPlain _ ih =>
    intro hmem
    rcases List.mem_cons.1 hmem with rfl | hmem
    · exact absurd isPlain (by decide)
    · exact ih hmem
  | parens _ _ inner others => simp [inner, others]
  | braces _ _ inner others => simp [inner, others]

theorem keepsBalance {ls : List Lexeme} (h : IsNested ls) :
    KeepsBalance ls := by
  induction h with
  | nil =>
    intro depth ms
    exact ⟨rfl, rfl⟩
  | plain isPlain _ ih => exact (keepsBalance_of_isPlain isPlain).append ih
  | parens _ _ inner others =>
    intro depth ms
    rw [List.append_assoc, List.cons_append, List.cons_append,
      Reader.isBalanced_opening, (inner _ _).1,
      Reader.isBalanced_closing (by decide),
      Reader.isBalanced_other (by decide) (by decide), (inner _ _).2,
      Reader.isBalanced_other (by decide) (by decide)]
    exact others depth ms
  | braces _ _ inner others =>
    intro depth ms
    rw [List.append_assoc, List.cons_append, List.cons_append,
      Reader.isBalanced_other (by decide) (by decide), (inner _ _).1,
      Reader.isBalanced_other (by decide) (by decide),
      Reader.isBalanced_opening, (inner _ _).2,
      Reader.isBalanced_closing (by decide)]
    exact others depth ms

end IsNested

end Lexeme

-- ======================================================== sentences are nested

namespace Grammar

open Lexeme (IsNested isPlain_name)

variable {reader : Reader}

theorem isPlain_of_mem_replicate {marks : Nat} :
    ∀ l ∈ List.replicate marks Lexeme.inverse, l.IsPlain := by
  intro l hl
  rw [List.eq_of_mem_replicate hl]
  decide

theorem IsRole.isNested {budget : Nat} {ls : List Lexeme} {r : Role}
    (sentence : IsRole reader budget ls r) : IsNested ls := by
  induction sentence with
  | name marks _ =>
    exact .plain (isPlain_name _) (.of_plain isPlain_of_mem_replicate)
  | group marks _ ih => exact .parens ih (.of_plain isPlain_of_mem_replicate)

theorem IsMembers.isNested {ls : List Lexeme} {members : List Individual}
    (sentence : IsMembers reader ls members) : IsNested ls := by
  induction sentence with
  | one _ => exact .plain (isPlain_name _) .nil
  | more _ _ ih => exact .plain (isPlain_name _) (.plain (by decide) ih)

theorem IsQuantifier.isNested {ls : List Lexeme} {q : Quantifier}
    (sentence : IsQuantifier ls q) : IsNested ls := by
  cases sentence with
  | existential => exact .plain (by decide) .nil
  | universal => exact .plain (by decide) .nil
  | atLeast _ => exact .plain (by decide) (.plain (isPlain_name _) .nil)
  | atMost _ => exact .plain (by decide) (.plain (isPlain_name _) .nil)
  | exactly _ => exact .plain (by decide) (.plain (isPlain_name _) .nil)

theorem Chain.isNested {IsItem : List Lexeme → Concept → Prop}
    {operator : Lexeme} (plain : operator.IsPlain)
    (items : ∀ {ls c}, IsItem ls c → IsNested ls) {ls : List Lexeme}
    {cs : List Concept} (chain : Chain IsItem operator ls cs) :
    IsNested ls := by
  induction chain with
  | one item => exact items item
  | more item _ ih => exact (items item).append (.plain plain ih)

theorem IsUnion.isNested_of {budget : Nat}
    (factors : ∀ {ls c}, IsFactor reader budget ls c → IsNested ls)
    {ls : List Lexeme} {c : Concept} (sentence : IsUnion reader budget ls c) :
    IsNested ls := by
  obtain ⟨cs, hcs, -⟩ := sentence
  exact (isFactors_iff.1 hcs).isNested (by decide) factors

theorem IsFactor.isNested {budget : Nat} {ls : List Lexeme} {c : Concept}
    (sentence : IsFactor reader budget ls c) : IsNested ls := by
  induction budget generalizing ls c with
  | zero => cases sentence
  | succ budget ih =>
    cases sentence with
    | top => exact .plain (by decide) .nil
    | bottom => exact .plain (by decide) .nil
    | name _ => exact .plain (isPlain_name _) .nil
    | oneOf inner => exact .braces inner.isNested .nil
    | compl operand => exact .plain (by decide) (ih operand)
    | restrict quantifier role filler =>
      exact (quantifier.isNested.append role.isNested).append
        (.plain (by decide) (ih filler))
    | group inner =>
      exact .parens ((isUnions_iff.1 inner).isNested (by decide)
        (IsUnion.isNested_of ih)) .nil

theorem IsUnion.isNested {budget : Nat} {ls : List Lexeme} {c : Concept}
    (sentence : IsUnion reader budget ls c) : IsNested ls :=
  sentence.isNested_of IsFactor.isNested

theorem IsConcept.isNested {budget : Nat} {ls : List Lexeme} {c : Concept}
    (sentence : IsConcept reader budget ls c) : IsNested ls := by
  obtain ⟨cs, hcs, -⟩ := sentence
  exact (isUnions_iff.1 hcs).isNested (by decide) IsUnion.isNested

end Grammar

end ContextDL
