/-
Derivations: the grammar of expressions by itself.

The relations of `Grammar` say which sentences fit in a budget, and leave to
the reader what a word is. Here a sentence is derived from its words alone. A
name is the IRI behind the base, and a number is what its digits say, leading
zeros included. There is no bound on a derivation.

# Levels

Instead a derivation has a depth (`DerivesRole`, `DerivesFactor`): the level
of the deepest role or factor in it. A whole sentence is at level zero. One
level deeper than what they are in are the operand of a complement, the role
and the filler of a restriction, and what a pair of parentheses encloses.
Operands of a chain are at the level of the chain.
-/
import ContextDL.Surface.Grammar

namespace ContextDL.Grammar

variable (reader : Reader)

-- ======================================================================= words

/-- Decimal digits, one at least, for a number of 32 bits. -/
def IsNumeral (word : List Char) (n : UInt32) : Prop :=
  word ≠ [] ∧ word.all Char.isDigit = true ∧
    Nat.ofDigitChars 10 word 0 = n.toNat

/-- The words of a quantifier. -/
inductive DerivesQuantifier : List Lexeme → Quantifier → Prop where
  | existential : DerivesQuantifier [.existential] .existential
  | universal : DerivesQuantifier [.universal] .universal
  | atLeast {word : List Char} {n : UInt32} (numeral : IsNumeral word n) :
      DerivesQuantifier [.atLeast, .name word] (.atLeast n)
  | atMost {word : List Char} {n : UInt32} (numeral : IsNumeral word n) :
      DerivesQuantifier [.atMost, .name word] (.atMost n)
  | exactly {word : List Char} {n : UInt32} (numeral : IsNumeral word n) :
      DerivesQuantifier [.exactly, .name word] (.exactly n)

/-- Some words with commas between them. -/
def listOf (words : List (List Char)) : List Lexeme :=
  (words.map Lexeme.name).intersperse .comma

/-- The individuals that some words name. -/
def membersOf (words : List (List Char)) : List Individual :=
  words.map fun word => .named (reader.named word)

-- ======================================================================= roles

/-- A role behind which there are some inverse marks. Two of them cancel. -/
def turned (r : Role) (marks : Nat) : Role :=
  if marks % 2 = 0 then r else r.inverted

/-- Role sentences and their depth. -/
inductive DerivesRole : List Lexeme → Role → Nat → Prop where
  | name (word : List Char) (marks : Nat) :
      DerivesRole (.name word :: List.replicate marks .inverse)
        (turned (.named (reader.named word)) marks) 0
  | group {ls : List Lexeme} {r : Role} {depth : Nat} (marks : Nat)
      (inner : DerivesRole ls r depth) :
      DerivesRole
        (.openParen :: ls ++ .closeParen :: List.replicate marks .inverse)
        (turned r marks) (depth + 1)

-- ==================================================================== concepts

mutual

/-- Factor sentences and their depth. -/
inductive DerivesFactor : List Lexeme → Concept → Nat → Prop where
  | top : DerivesFactor [.top] .top 0
  | bottom : DerivesFactor [.bottom] .bottom 0
  | name (word : List Char) :
      DerivesFactor [.name word] (.atom (reader.named word)) 0
  | oneOf {words : List (List Char)} (nonempty : words ≠ []) :
      DerivesFactor (.openBrace :: listOf words ++ [.closeBrace])
        (.oneOf (membersOf reader words)) 0
  | compl {ls : List Lexeme} {c : Concept} {depth : Nat}
      (operand : DerivesFactor ls c depth) :
      DerivesFactor (.complement :: ls) (.compl c) (depth + 1)
  | restrict {qs rs ls : List Lexeme} {q : Quantifier} {r : Role}
      {c : Concept} {outer inner : Nat} (quantifier : DerivesQuantifier qs q)
      (role : DerivesRole reader rs r outer)
      (filler : DerivesFactor ls c inner) :
      DerivesFactor (qs ++ rs ++ .dot :: ls) (.restrict q r c)
        (max outer inner + 1)
  | group {ls : List Lexeme} {cs : List Concept} {depth : Nat}
      (inner : DerivesUnions ls cs depth) :
      DerivesFactor (.openParen :: ls ++ [.closeParen]) (chain .inter cs)
        (depth + 1)

/-- Factors with `⊔` between them, one at least, and their depth. -/
inductive DerivesFactors : List Lexeme → List Concept → Nat → Prop where
  | one {ls : List Lexeme} {c : Concept} {depth : Nat}
      (factor : DerivesFactor ls c depth) : DerivesFactors ls [c] depth
  | more {ls ms : List Lexeme} {c : Concept} {cs : List Concept}
      {first others : Nat} (factor : DerivesFactor ls c first)
      (rest : DerivesFactors ms cs others) :
      DerivesFactors (ls ++ .join :: ms) (c :: cs) (max first others)

/-- Unions with `⊓` between them, one at least, and their depth. -/
inductive DerivesUnions : List Lexeme → List Concept → Nat → Prop where
  | one {ls : List Lexeme} {cs : List Concept} {depth : Nat}
      (factors : DerivesFactors ls cs depth) :
      DerivesUnions ls [chain .union cs] depth
  | more {ls ms : List Lexeme} {cs ds : List Concept} {first others : Nat}
      (factors : DerivesFactors ls cs first)
      (rest : DerivesUnions ms ds others) :
      DerivesUnions (ls ++ .meet :: ms) (chain .union cs :: ds)
        (max first others)

end

/-- Concept sentences and their depth. -/
def DerivesConcept (ls : List Lexeme) (c : Concept) (depth : Nat) : Prop :=
  ∃ cs, DerivesUnions reader ls cs depth ∧ c = chain .inter cs

end ContextDL.Grammar
