/-
Reading concepts and roles.

The grammar, from loose to tight:

    concept := union (⊓ union)*
    union   := factor (⊔ factor)*
    factor  := ¬ factor | (∃ | ∀) role . factor
             | (≥ | ≤ | =) number role . factor
             | name | ⊤ | ⊥ | names in braces | ( concept )
    role    := (name | ( role )) ^-1*

A chain of one operator makes one node, a chain of one operand is the operand,
and parentheses leave no trace. Every factor and every role takes one unit of
a budget, which starts one above the depth limit of the reader; what is inside
a complement, a restriction or parentheses gets the budget that is left.

A step reads something from the front of some tokens and gives the tokens that
are left. It recurses on the budget, and a chain on the number of tokens.
-/
import ContextDL.Concept.Basic
import ContextDL.Iri.Grammar
import ContextDL.Surface.Token
import ContextDL.Text.Decimal

namespace ContextDL

-- ===================================================================== readers

/-- What a reader of surface text is set to. -/
structure Reader where
  base : String
  maxDepth : Nat
deriving DecidableEq

/-- What is read from some tokens, and the tokens that are left. -/
abbrev Parsed (α : Type) :=
  α × List Token

/-- A way to read something from the front of some tokens. -/
abbrev Step (α : Type) :=
  List Token → Except ReadError (Parsed α)

namespace Reader

/-- The reader that is used where nothing is set. -/
def standard : Reader :=
  ⟨"http://oxigraph.org/context/default#", 128⟩

/-- The IRI of a name. -/
def iriOf (reader : Reader) (name : List Char) : Except ReadError Iri :=
  match Iri.ofText (reader.base ++ String.ofList name) with
  | .ok iri => .ok iri
  | .error _ => .error ⟨.badName, name⟩

/-- The budget of a whole expression. -/
def budget (reader : Reader) : Nat :=
  reader.maxDepth + 1

-- ====================================================================== pieces

/-- An operand is missing somewhere in these tokens. -/
def missing {α : Type} (whole : List Token) : Except ReadError α :=
  .error ⟨.wrongArity, Token.span whole⟩

/-- Takes a closing parenthesis. -/
def closeParen : List Token → Except ReadError (List Token)
  | [] => .error ⟨.unbalanced, []⟩
  | t :: rest =>
    if t.lexeme = .closeParen then .ok rest
    else .error ⟨.unbalanced, Token.span (t :: rest)⟩

/-- Takes the dot of a restriction that starts at given tokens. Without a dot
the restriction is quoted up to the token in its place. -/
def takeDot (start : List Token) (ts : List Token) :
    Except ReadError (List Token) :=
  let shown := start.take (start.length - ts.length + 1)
  match ts with
  | [] => .error ⟨.missingDot, Token.span shown⟩
  | t :: rest =>
    if t.lexeme = .dot then .ok rest
    else .error ⟨.missingDot, Token.span shown⟩

/-- The number that decimal digits stand for, if it has 32 bits at most. -/
def number? (text : List Char) : Option UInt32 :=
  match Text.decimal? text with
  | some n => if n < UInt32.size then some (UInt32.ofNat n) else none
  | none => none

/-- Reads a number. -/
def readNumber (whole : List Token) :
    List Token → Except ReadError (Parsed UInt32)
  | [] => missing whole
  | t :: rest =>
    match t.lexeme with
    | .name text =>
      match number? text with
      | some n => .ok (n, rest)
      | none => .error ⟨.badName, text⟩
    | _ => .error ⟨.badName, t.chars⟩

/-- Reads the members of a nominal, after its opening brace. -/
def readMembers (reader : Reader) (whole : List Token) :
    List Token → Except ReadError (Parsed (List Individual))
  | [] => missing whole
  | t :: rest =>
    match t.lexeme with
    | .name text => do
      let iri ← reader.iriOf text
      match rest with
      | [] => missing whole
      | s :: rest =>
        match s.lexeme with
        | .comma => do
          let (members, rest) ← readMembers reader whole rest
          return (.named iri :: members, rest)
        | .closeBrace => return ([.named iri], rest)
        | _ => .error ⟨.unexpected, s.chars⟩
    | _ => .error ⟨.badName, t.chars⟩

-- ======================================================================= roles

/-- Takes the inverse marks after a role. -/
def readInverses (role : Role) : List Token → Role × List Token
  | [] => (role, [])
  | t :: rest =>
    if t.lexeme = .inverse then readInverses role.inverted rest
    else (role, t :: rest)

/-- Reads a role within a budget. -/
def readRole (reader : Reader) (whole : List Token) :
    Nat → List Token → Except ReadError (Parsed Role)
  | 0, ts => .error ⟨.tooDeep, Token.span ts⟩
  | _ + 1, [] => missing whole
  | budget + 1, t :: rest =>
    match t.lexeme with
    | .name text => do
      let iri ← reader.iriOf text
      return readInverses (.named iri) rest
    | .openParen => do
      let (role, rest) ← readRole reader whole budget rest
      return readInverses role (← closeParen rest)
    | .top | .bottom => .error ⟨.badName, t.chars⟩
    | _ => .error ⟨.unexpected, t.chars⟩

-- ====================================================================== chains

/-- Reads the operands that follow the first, each behind an operator. The
number bounds how many there may be. -/
def readOperands (item : Step Concept) (operator : Lexeme) :
    Nat → List Token → Except ReadError (Parsed (List Concept))
  | bound + 1, t :: rest =>
    if t.lexeme = operator then do
      let (operand, rest) ← item rest
      let (operands, rest) ← readOperands item operator bound rest
      return (operand :: operands, rest)
    else .ok ([], t :: rest)
  | _, ts => .ok ([], ts)

/-- The concept of a chain: its one operand, or a node over two or more. -/
def chained (node : List Concept → Concept) (first : Concept)
    (others : List Concept) : Concept :=
  if others.isEmpty then first else node (first :: others)

/-- Reads a chain of operands. -/
def readChain (item : Step Concept) (operator : Lexeme)
    (node : List Concept → Concept) : Step Concept := fun ts => do
  let (first, rest) ← item ts
  let (others, rest) ← readOperands item operator rest.length rest
  return (chained node first others, rest)

/-- Reads a union, or the one operand there is. -/
def readUnion (factor : Step Concept) : Step Concept :=
  readChain factor .join .union

/-- Reads an intersection, or the one operand there is. -/
def readInter (factor : Step Concept) : Step Concept :=
  readChain (readUnion factor) .meet .inter

-- ==================================================================== concepts

/-- Reads the role, the dot and the filler of a restriction that starts at
given tokens. -/
def readRestriction (start : List Token) (role : Step Role)
    (filler : Step Concept) (quantifier : Quantifier) : Step Concept :=
  fun ts => do
    let (r, rest) ← role ts
    let rest ← takeDot start rest
    let (c, rest) ← filler rest
    return (.restrict quantifier r c, rest)

/-- Reads a factor within a budget. -/
def readFactor (reader : Reader) (whole : List Token) :
    Nat → List Token → Except ReadError (Parsed Concept)
  | 0, ts => .error ⟨.tooDeep, Token.span ts⟩
  | _ + 1, [] => missing whole
  | budget + 1, t :: rest =>
    let restriction := readRestriction (t :: rest)
      (readRole reader whole budget) (readFactor reader whole budget)
    let counted (quantifier : UInt32 → Quantifier) := do
      let (n, rest) ← readNumber whole rest
      restriction (quantifier n) rest
    match t.lexeme with
    | .complement => do
      let (c, rest) ← readFactor reader whole budget rest
      return (.compl c, rest)
    | .existential => restriction .existential rest
    | .universal => restriction .universal rest
    | .atLeast => counted .atLeast
    | .atMost => counted .atMost
    | .exactly => counted .exactly
    | .top => .ok (.top, rest)
    | .bottom => .ok (.bottom, rest)
    | .name text => do
      let iri ← reader.iriOf text
      return (.atom iri, rest)
    | .openBrace => do
      let (members, rest) ← readMembers reader whole rest
      return (.oneOf members, rest)
    | .openParen => do
      let (c, rest) ← readInter (readFactor reader whole budget) rest
      return (c, ← closeParen rest)
    | _ => .error ⟨.unexpected, t.chars⟩

-- =========================================================== whole expressions

/-- Checks that no token is left. -/
def finish {α : Type} (result : Except ReadError (Parsed α)) :
    Except ReadError α := do
  let (value, rest) ← result
  if rest.isEmpty then return value
  else .error ⟨.unexpected, Token.span rest⟩

/-- Reads all of some tokens as a concept. -/
def conceptOfTokens (reader : Reader) (ts : List Token) :
    Except ReadError Concept :=
  finish (readInter (readFactor reader ts reader.budget) ts)

/-- Reads all of some tokens as a role. -/
def roleOfTokens (reader : Reader) (ts : List Token) :
    Except ReadError Role :=
  finish (readRole reader ts reader.budget ts)

-- ======================================================================= texts

/-- Checks that every opening mark has a closing one after it and the other
way round, given how many are open. -/
def isBalanced {α : Type} [DecidableEq α] (opening closing : α) :
    Nat → List α → Bool
  | depth, [] => depth == 0
  | depth, c :: cs =>
    if c = opening then isBalanced opening closing (depth + 1) cs
    else if c = closing then
      match depth with
      | 0 => false
      | depth + 1 => isBalanced opening closing depth cs
    else isBalanced opening closing depth cs

/-- The tokens of a text in which parentheses and braces are balanced, each
kind by itself. -/
def tokens (text : List Char) : Except ReadError (List Token) :=
  if isBalanced '(' ')' 0 text && isBalanced '{' '}' 0 text then
    Token.ofText text
  else .error ⟨.unbalanced, Text.trim text⟩

/-- Reads a text as a concept. -/
def concept (reader : Reader) (text : String) : Except ReadError Concept := do
  reader.conceptOfTokens (← tokens text.toList)

/-- Reads a text as a role. -/
def role (reader : Reader) (text : String) : Except ReadError Role := do
  reader.roleOfTokens (← tokens text.toList)

end Reader

end ContextDL
