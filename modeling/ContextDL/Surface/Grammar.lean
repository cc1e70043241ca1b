/-
The grammar of expressions and statements, as relations.

A sentence is a sequence of lexemes. The relations say what a sequence is a
sentence for, without saying how to find it out: `IsRole`, `IsFactor`,
`IsUnion` and `IsConcept` each relate a budget, a sequence and what it stands
for. A factor or a role takes one unit of the budget, and its parts live on
the rest, so the budget bounds how deeply a sentence may be nested.

`IsBody` and `IsStatement` relate tokens and what they state. They leave
concepts and roles to the reader, and say how statements are put together out
of them.
-/
import ContextDL.Surface.Document

namespace ContextDL

namespace Reader

/-- The IRI that a name stands for. -/
def named (reader : Reader) (name : List Char) : Iri :=
  ⟨reader.base ++ String.ofList name⟩

/-- Every name stands for a valid IRI. -/
def NamesValid (reader : Reader) : Prop :=
  ∀ name : List Char, name ≠ [] → name.all Char.isAlphanum = true →
    (reader.named name).IsValid

end Reader

namespace Grammar

variable (reader : Reader)

-- ======================================================================= roles

/-- A role after as many inversions as there are marks. -/
def invert (role : Role) : Nat → Role
  | 0 => role
  | n + 1 => invert role.inverted n

/-- Role sentences. -/
inductive IsRole : Nat → List Lexeme → Role → Prop where
  | name {budget : Nat} {text : List Char} {p : Iri} (marks : Nat)
      (known : reader.iriOf text = .ok p) :
      IsRole (budget + 1) (.name text :: List.replicate marks .inverse)
        (invert (.named p) marks)
  | group {budget : Nat} {ls : List Lexeme} {r : Role} (marks : Nat)
      (inner : IsRole budget ls r) :
      IsRole (budget + 1)
        (.openParen :: ls ++ .closeParen :: List.replicate marks .inverse)
        (invert r marks)

-- ==================================================================== nominals

/-- Names with commas between them, one at least. -/
inductive IsMembers : List Lexeme → List Individual → Prop where
  | one {text : List Char} {a : Iri} (known : reader.iriOf text = .ok a) :
      IsMembers [.name text] [.named a]
  | more {text : List Char} {a : Iri} {ls : List Lexeme}
      {members : List Individual} (known : reader.iriOf text = .ok a)
      (others : IsMembers ls members) :
      IsMembers (.name text :: .comma :: ls) (.named a :: members)

-- ================================================================= quantifiers

/-- Quantifiers: a mark, and the number that a cardinality has. -/
inductive IsQuantifier : List Lexeme → Quantifier → Prop where
  | existential : IsQuantifier [.existential] .existential
  | universal : IsQuantifier [.universal] .universal
  | atLeast {text : List Char} {n : UInt32}
      (known : Reader.number? text = some n) :
      IsQuantifier [.atLeast, .name text] (.atLeast n)
  | atMost {text : List Char} {n : UInt32}
      (known : Reader.number? text = some n) :
      IsQuantifier [.atMost, .name text] (.atMost n)
  | exactly {text : List Char} {n : UInt32}
      (known : Reader.number? text = some n) :
      IsQuantifier [.exactly, .name text] (.exactly n)

-- ==================================================================== concepts

/-- The concept of a chain of operands: the operand of a chain of one, and a
node over all operands otherwise. -/
def chain (node : List Concept → Concept) : List Concept → Concept
  | [c] => c
  | cs => node cs

mutual

/-- Factor sentences. -/
inductive IsFactor : Nat → List Lexeme → Concept → Prop where
  | top {budget : Nat} : IsFactor (budget + 1) [.top] .top
  | bottom {budget : Nat} : IsFactor (budget + 1) [.bottom] .bottom
  | name {budget : Nat} {text : List Char} {c : Iri}
      (known : reader.iriOf text = .ok c) :
      IsFactor (budget + 1) [.name text] (.atom c)
  | oneOf {budget : Nat} {ls : List Lexeme} {members : List Individual}
      (inner : IsMembers reader ls members) :
      IsFactor (budget + 1) (.openBrace :: ls ++ [.closeBrace])
        (.oneOf members)
  | compl {budget : Nat} {ls : List Lexeme} {c : Concept}
      (operand : IsFactor budget ls c) :
      IsFactor (budget + 1) (.complement :: ls) (.compl c)
  | restrict {budget : Nat} {qs rs ls : List Lexeme} {q : Quantifier}
      {r : Role} {c : Concept} (quantifier : IsQuantifier qs q)
      (role : IsRole reader budget rs r) (filler : IsFactor budget ls c) :
      IsFactor (budget + 1) (qs ++ rs ++ .dot :: ls) (.restrict q r c)
  | group {budget : Nat} {ls : List Lexeme} {cs : List Concept}
      (inner : IsUnions budget ls cs) :
      IsFactor (budget + 1) (.openParen :: ls ++ [.closeParen])
        (chain .inter cs)

/-- Factors with `⊔` between them, one at least. -/
inductive IsFactors : Nat → List Lexeme → List Concept → Prop where
  | one {budget : Nat} {ls : List Lexeme} {c : Concept}
      (factor : IsFactor budget ls c) : IsFactors budget ls [c]
  | more {budget : Nat} {ls ms : List Lexeme} {c : Concept}
      {cs : List Concept} (factor : IsFactor budget ls c)
      (others : IsFactors budget ms cs) :
      IsFactors budget (ls ++ .join :: ms) (c :: cs)

/-- Unions with `⊓` between them, one at least. -/
inductive IsUnions : Nat → List Lexeme → List Concept → Prop where
  | one {budget : Nat} {ls : List Lexeme} {cs : List Concept}
      (factors : IsFactors budget ls cs) :
      IsUnions budget ls [chain .union cs]
  | more {budget : Nat} {ls ms : List Lexeme} {cs ds : List Concept}
      (factors : IsFactors budget ls cs) (others : IsUnions budget ms ds) :
      IsUnions budget (ls ++ .meet :: ms) (chain .union cs :: ds)

end

/-- Union sentences. -/
def IsUnion (budget : Nat) (ls : List Lexeme) (c : Concept) : Prop :=
  ∃ cs, IsFactors reader budget ls cs ∧ c = chain .union cs

/-- Concept sentences. -/
def IsConcept (budget : Nat) (ls : List Lexeme) (c : Concept) : Prop :=
  ∃ cs, IsUnions reader budget ls cs ∧ c = chain .inter cs

-- ================================================================== statements

/-- A group: tokens from a parenthesis to the one that closes it. -/
def IsGroup (ts : List Token) : Prop :=
  ∃ left inner right, ts = left :: inner ++ [right] ∧
    left.lexeme = .openParen ∧ right.lexeme = .closeParen ∧
    Reader.isBalanced .openParen .closeParen 0 (inner.map Token.lexeme) = true

/-- What may stand in front of one argument: a name, `⊤`, `⊥` or a group. -/
def IsConceptHead (ts : List Token) : Prop :=
  (∃ text, ts.map Token.lexeme = [.name text]) ∨
    ts.map Token.lexeme = [.top] ∨ ts.map Token.lexeme = [.bottom] ∨ IsGroup ts

/-- What may stand in front of two arguments: a name or a group. -/
def IsRoleHead (ts : List Token) : Prop :=
  (∃ text, ts.map Token.lexeme = [.name text]) ∨ IsGroup ts

/-- The tokens of an axiom. -/
inductive IsBody : List Token → Axiom → Prop where
  | subClassOf {sub sup : List Token} {mark : Token} {c d : Concept}
      (between : mark.lexeme = .inclusion)
      (left : reader.conceptOfTokens sub = .ok c)
      (right : reader.conceptOfTokens sup = .ok d) :
      IsBody (sub ++ mark :: sup) (.subClassOf c d)
  | classAssertion {head arguments : List Token} {a : List Char} {c : Concept}
      (single : IsConceptHead head) (concept : reader.conceptOfTokens head = .ok c)
      (member : arguments.map Token.lexeme =
        [.openParen, .name a, .closeParen]) :
      IsBody (head ++ arguments)
        (.classAssertion c (.named (reader.named a)))
  | roleAssertion {head arguments : List Token} {a b : List Char} {r : Role}
      (single : IsRoleHead head) (role : reader.roleOfTokens head = .ok r)
      (pair : arguments.map Token.lexeme =
        [.openParen, .name a, .comma, .name b, .closeParen]) :
      IsBody (head ++ arguments)
        (.roleAssertion r (.named (reader.named a)) (.named (reader.named b)))

/-- The tokens of a statement. -/
inductive IsStatement : List Token → Statement → Prop where
  | untagged {body : List Token} {a : Axiom} (axiomTokens : IsBody reader body a) :
      IsStatement body (.plain a)
  | global {body tag : List Token} {a : Axiom} (axiomTokens : IsBody reader body a)
      (word : tag.map Token.lexeme = [.tag, .name Reader.globalWord]) :
      IsStatement (body ++ tag) ⟨a, [.objectGlobal]⟩
  | definedBy {body tag : List Token} {a : Axiom} {name : List Char}
      (axiomTokens : IsBody reader body a)
      (word : tag.map Token.lexeme = [.tag, .name name])
      (other : name ≠ Reader.globalWord) :
      IsStatement (body ++ tag) ⟨a, [.definedBy (reader.named name)]⟩

end Grammar

end ContextDL
