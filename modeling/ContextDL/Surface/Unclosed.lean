/-
Brackets that do not close.

Two things can be wrong with the brackets of a text. They may be unbalanced
(`IsUnbalanced`): somewhere more of them are closed than were opened, or in the
end some are open. Or they are balanced, and what is in a pair of parentheses
goes on behind the sentence that was expected there, as in `(A B)`. Then there
is no closing parenthesis where the reader looks for one.

# Open sentences

The relations follow the grammar. A role or a factor is open (`OpenRole`,
`OpenFactor`) if the reader comes to such a pair of parentheses in it: what is
in front of the parenthesis is whole, what stands behind it starts with a whole
sentence, and the next lexeme neither closes the group nor goes on with the
sentence. What comes later is never looked at. An axiom is open (`OpenAxiom`) if
this happens in the first of its parts that is not read.
-/
import ContextDL.Surface.Grammar

namespace ContextDL

-- ==================================================================== balances

/-- Some front of a sequence closes more than it opens, or the sequence has
not as many closing marks as opening ones. -/
def IsUnbalanced {α : Type} [DecidableEq α] (opening closing : α)
    (xs : List α) : Prop :=
  (∃ front, front <+: xs ∧ front.count opening < front.count closing) ∨
    xs.count opening ≠ xs.count closing

/-- The parentheses of a text are unbalanced, or its braces are. -/
def Text.IsUnbalanced (text : List Char) : Prop :=
  ContextDL.IsUnbalanced '(' ')' text ∨ ContextDL.IsUnbalanced '{' '}' text

/-- An error of some cause is reported. -/
def Reports {α : Type} (cause : ReadError.Cause) :
    Except ReadError α → Prop
  | .ok _ => False
  | .error e => e.cause = cause

namespace Grammar

variable (reader : Reader)

-- ======================================================================= roles

/-- Lexemes that start with a role in which a group is left open. -/
inductive OpenRole : Nat → List Lexeme → Prop where
  | here {budget : Nat} {ls rest : List Lexeme} {r : Role}
      (inner : IsRole reader budget ls r)
      (stuck : ∀ l ∈ rest.head?, l ∉ [.inverse, .closeParen]) :
      OpenRole (budget + 1) (.openParen :: ls ++ rest)
  | inside {budget : Nat} {ls : List Lexeme} (inner : OpenRole budget ls) :
      OpenRole (budget + 1) (.openParen :: ls)

-- ==================================================================== concepts

mutual

/-- Lexemes that start with a factor in which a group is left open. -/
inductive OpenFactor : Nat → List Lexeme → Prop where
  | here {budget : Nat} {ls rest : List Lexeme} {c : Concept}
      (inner : IsConcept reader budget ls c)
      (stuck : ∀ l ∈ rest.head?, l ∉ [.meet, .join, .closeParen]) :
      OpenFactor (budget + 1) (.openParen :: ls ++ rest)
  | inside {budget : Nat} {ls : List Lexeme}
      (inner : OpenUnions budget ls) :
      OpenFactor (budget + 1) (.openParen :: ls)
  | compl {budget : Nat} {ls : List Lexeme}
      (operand : OpenFactor budget ls) :
      OpenFactor (budget + 1) (.complement :: ls)
  | role {budget : Nat} {qs ls : List Lexeme} {q : Quantifier}
      (quantifier : IsQuantifier qs q) (role : OpenRole reader budget ls) :
      OpenFactor (budget + 1) (qs ++ ls)
  | filler {budget : Nat} {qs rs ls : List Lexeme} {q : Quantifier}
      {r : Role} (quantifier : IsQuantifier qs q)
      (role : IsRole reader budget rs r) (filler : OpenFactor budget ls) :
      OpenFactor (budget + 1) (qs ++ (rs ++ .dot :: ls))

/-- Factors with `⊔` between them, the last of which is open. -/
inductive OpenFactors : Nat → List Lexeme → Prop where
  | one {budget : Nat} {ls : List Lexeme} (factor : OpenFactor budget ls) :
      OpenFactors budget ls
  | more {budget : Nat} {ls ms : List Lexeme} {c : Concept}
      (factor : IsFactor reader budget ls c)
      (others : OpenFactors budget ms) :
      OpenFactors budget (ls ++ .join :: ms)

/-- Unions with `⊓` between them, the last of which is open. -/
inductive OpenUnions : Nat → List Lexeme → Prop where
  | one {budget : Nat} {ls : List Lexeme}
      (factors : OpenFactors budget ls) : OpenUnions budget ls
  | more {budget : Nat} {ls ms : List Lexeme} {cs : List Concept}
      (factors : IsFactors reader budget ls cs)
      (others : OpenUnions budget ms) :
      OpenUnions budget (ls ++ .meet :: ms)

end

-- ================================================================== statements

/-- Tokens that start with a role in which a group is left open. -/
def OpenRoleTokens (ts : List Token) : Prop :=
  OpenRole reader reader.budget (ts.map Token.lexeme)

/-- Tokens that start with a concept in which a group is left open. -/
def OpenConceptTokens (ts : List Token) : Prop :=
  OpenUnions reader reader.budget (ts.map Token.lexeme)

/-- Tokens of an axiom in which a group is left open: on the left of the
inclusion mark, on the right of it behind a concept, or in the head of an
assertion whose arguments are names. -/
inductive OpenAxiom : List Token → Prop where
  | sub {body sub sup : List Token}
      (halves : Token.splitInclusion 0 body = [sub, sup])
      (left : OpenConceptTokens reader sub) : OpenAxiom body
  | sup {body sub sup : List Token} {c : Concept}
      (halves : Token.splitInclusion 0 body = [sub, sup])
      (left : reader.conceptOfTokens sub = .ok c)
      (right : OpenConceptTokens reader sup) : OpenAxiom body
  | concept {head arguments : List Token} {a : List Char} {iri : Iri}
      (whole : Token.splitInclusion 0 (head ++ arguments) =
        [head ++ arguments])
      (single : IsConceptHead head)
      (member : arguments.map Token.lexeme =
        [.openParen, .name a, .closeParen])
      (known : reader.iriOf a = .ok iri)
      (opened : OpenConceptTokens reader head) : OpenAxiom (head ++ arguments)
  | role {head arguments : List Token} {a b : List Char} {iri iri' : Iri}
      (whole : Token.splitInclusion 0 (head ++ arguments) =
        [head ++ arguments])
      (single : IsConceptHead head)
      (pair : arguments.map Token.lexeme =
        [.openParen, .name a, .comma, .name b, .closeParen])
      (known : reader.iriOf a = .ok iri) (known' : reader.iriOf b = .ok iri')
      (opened : OpenRoleTokens reader head) : OpenAxiom (head ++ arguments)

/-- Tokens of a statement whose axiom is open, whatever its tag. -/
def OpenStatement (ts : List Token) : Prop :=
  ∃ body tag, Token.cutTag ts = .ok (body, tag) ∧ OpenAxiom reader body

end Grammar

end ContextDL
