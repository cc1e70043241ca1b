/-
Reading by positions.

A token can be kept without its text: a placed token says what kind of lexeme
it is, and from which byte of the text to which the lexeme reaches. What a name
is, and what an error quotes, has to be cut out of the text again. So a run may
also break off: where a slice is asked for that is not there
(`Checked`). `Placed.scan` cuts a text into placed tokens, and keeps the count
of bytes as it goes.

The reader of `Expression` and `Document` once more, over placed tokens. A state
of reading is an index into the tokens, what is left is never built, and parts
of a statement are slices between indices. Texts of names and the fragments
of errors are slices of the text: from the first token of some to the last, or
of one token. Each slice is asked for with the bounds that are at hand at
that place, and a run breaks off where there is no such slice (`Checked`).

Values and errors are those of the other reader.
-/
import ContextDL.Surface.Document
import ContextDL.Text.Slice

namespace ContextDL

-- ======================================================================== runs

/-- A run that ends well or with an error, or breaks off at a slice that is not
there. -/
abbrev Checked (α : Type) :=
  ExceptT ReadError Option α

namespace Checked

variable {α : Type}

/-- A run that takes no slices. -/
def of (x : Except ReadError α) : Checked α :=
  ExceptT.mk (some x)

/-- Takes a slice of a text. -/
def slice (text : List Char) (start stop : Nat) : Checked (List Char) :=
  ExceptT.lift (Text.slice? text start stop)

/-- Takes a slice of a sequence. -/
def part (xs : List α) (start stop : Nat) : Checked (List α) :=
  ExceptT.lift (part? xs start stop)

/-- Takes a member of a sequence. -/
def member (xs : List α) (index : Nat) : Checked α :=
  ExceptT.lift xs[index]?

end Checked

-- ====================================================================== tokens

/-- The kind of a lexeme: the lexeme itself, but for a name, which is left
empty. -/
def Lexeme.kind : Lexeme → Lexeme
  | .name _ => .name []
  | l => l

/-- A kind of lexeme, and the bytes where such a lexeme starts and stops. -/
structure Placed where
  kind : Lexeme
  start : Nat
  stop : Nat
deriving DecidableEq

namespace Placed

open Checked

/-- The places of some tokens that stand one after the other, from a byte
on. -/
def locate (pos : Nat) : List Token → List Placed
  | [] => []
  | t :: ts =>
    let start := pos + Text.size t.gap
    let stop := start + Text.size t.chars
    ⟨t.lexeme.kind, start, stop⟩ :: locate stop ts

/-- The placed tokens of the end of a text that starts at a byte. -/
def scan (text : List Char) (pos : Nat) : List Char → Checked (List Placed)
  | [] => return []
  | c :: rest =>
    match Lexeme.ofMark? c with
    | some mark => do
      let stop := pos + c.utf8Size
      return ⟨mark, pos, stop⟩ :: (← scan text stop rest)
    | none =>
      if c = '^' then do
        let after ← slice text (pos + 1) (Text.size text)
        if ['-', '1'].isPrefixOf after then
          -- two more characters are taken, whatever they are
          let next := pos + Text.size (c :: rest.take 2)
          return ⟨.inverse, pos, pos + 3⟩ ::
            (← scan text next (rest.drop 2))
        else
          let whole ← slice text pos (Text.size text)
          let word := whole.takeWhile fun c => !Text.isBlank c
          throw ⟨.unexpected, ← slice text pos (pos + Text.size word)⟩
      else if Text.isBlank c then scan text (pos + c.utf8Size) rest
      else if Lexeme.isNameChar c then do
        let stop := pos + Text.size (c :: rest.takeWhile Lexeme.isNameChar)
        let word ← slice text pos stop
        if word.all Char.isAlphanum then
          return ⟨.name [], pos, stop⟩ ::
            (← scan text stop (rest.dropWhile Lexeme.isNameChar))
        else throw ⟨.badName, word⟩
      else throw ⟨.unexpected, [c]⟩
termination_by cs => cs.length
decreasing_by
  · exact Nat.lt_succ_self _
  · exact Nat.lt_succ_of_le (List.drop_suffix 2 rest).length_le
  · exact Nat.lt_succ_self _
  · exact Nat.lt_succ_of_le (List.dropWhile_suffix _).length_le

end Placed

namespace Positional

open Checked

-- ====================================================================== pieces

/-- The text from the first of some tokens to the last. -/
def span (text : List Char) (ps : List Placed) : Checked (List Char) :=
  match ps.head?, ps.getLast? with
  | some first, some last => slice text first.start last.stop
  | _, _ => return []

/-- The text of a token. -/
def word (text : List Char) (p : Placed) : Checked (List Char) :=
  slice text p.start p.stop

section Reading

variable (reader : Reader) (text : List Char) (ps : List Placed)

/-- The kind of the next token. -/
def next? (pos : Nat) : Option Lexeme :=
  ps[pos]?.map Placed.kind

/-- The text of the tokens that are left. -/
def remaining (pos : Nat) : Checked (List Char) := do
  span text (← part ps (min pos ps.length) ps.length)

/-- An operand is missing somewhere in the tokens. -/
def missing {α : Type} : Checked α := do
  throw ⟨.wrongArity, ← span text ps⟩

/-- The IRI of a name. -/
def resolve (p : Placed) : Checked Iri := do
  of (reader.iriOf (← word text p))

/-- Takes a closing parenthesis. -/
def closeParen (pos : Nat) : Checked Nat :=
  if next? ps pos = some .closeParen then return pos + 1
  else do throw ⟨.unbalanced, ← remaining text ps pos⟩

/-- The text from a token to the one at an index, or to the last. -/
def shown (start pos : Nat) : Checked (List Char) := do
  span text (← part ps start (min (pos + 1) ps.length))

/-- Takes the dot of a restriction that starts at a token. -/
def takeDot (start pos : Nat) : Checked Nat :=
  if next? ps pos = some .dot then return pos + 1
  else do throw ⟨.missingDot, ← shown text ps start pos⟩

/-- Reads a number. -/
def readNumber (pos : Nat) : Checked (UInt32 × Nat) :=
  match ps[pos]? with
  | none => missing text ps
  | some p =>
    match p.kind with
    | .name _ => do
      let digits ← word text p
      match Reader.number? digits with
      | some n => return (n, pos + 1)
      | none => throw ⟨.badName, digits⟩
    | _ => do throw ⟨.badName, ← word text p⟩

/-- Reads the members of a nominal, after its opening brace. -/
def readMembers (pos : Nat) : Checked (List Individual × Nat) :=
  match here : ps[pos]? with
  | none => missing text ps
  | some p =>
    have := (List.getElem?_eq_some_iff.1 here).1
    match p.kind with
    | .name _ => do
      let iri ← resolve reader text p
      match ps[pos + 1]? with
      | none => missing text ps
      | some q =>
        match q.kind with
        | .comma => do
          let (members, left) ← readMembers (pos + 2)
          return (.named iri :: members, left)
        | .closeBrace => return ([.named iri], pos + 2)
        | _ => do throw ⟨.unexpected, ← word text q⟩
    | _ => do throw ⟨.badName, ← word text p⟩
termination_by ps.length - pos

-- ======================================================================= roles

/-- Takes the inverse marks after a role. -/
def readInverses (role : Role) (pos : Nat) : Role × Nat :=
  if here : next? ps pos = some .inverse then
    readInverses role.inverted (pos + 1)
  else (role, pos)
termination_by ps.length - pos
decreasing_by
  obtain ⟨p, found, -⟩ := Option.map_eq_some_iff.1 here
  have := (List.getElem?_eq_some_iff.1 found).1
  omega

/-- Reads a role within a budget. -/
def readRole : Nat → Nat → Checked (Role × Nat)
  | 0, pos => do throw ⟨.tooDeep, ← remaining text ps pos⟩
  | budget + 1, pos =>
    match ps[pos]? with
    | none => missing text ps
    | some p =>
      match p.kind with
      | .name _ => do
        let iri ← resolve reader text p
        return readInverses ps (.named iri) (pos + 1)
      | .openParen => do
        let (role, left) ← readRole budget (pos + 1)
        return readInverses ps role (← closeParen text ps left)
      | .top | .bottom => do throw ⟨.badName, ← word text p⟩
      | _ => do throw ⟨.unexpected, ← word text p⟩

-- ====================================================================== chains

/-- Reads the operands that follow the first, each behind an operator. The
number bounds how many there may be. -/
def readOperands (item : Nat → Checked (Concept × Nat)) (operator : Lexeme) :
    Nat → Nat → Checked (List Concept × Nat)
  | 0, pos => return ([], pos)
  | bound + 1, pos =>
    if next? ps pos = some operator then do
      let (operand, left) ← item (pos + 1)
      let (operands, left) ← readOperands item operator bound left
      return (operand :: operands, left)
    else return ([], pos)

/-- Reads a chain of operands. -/
def readChain (item : Nat → Checked (Concept × Nat)) (operator : Lexeme)
    (node : List Concept → Concept) (pos : Nat) : Checked (Concept × Nat) := do
  let (first, left) ← item pos
  let (others, left) ← readOperands ps item operator (ps.length - left) left
  return (Reader.chained node first others, left)

/-- Reads an intersection of unions, or the one operand there is. -/
def readInter (factor : Nat → Checked (Concept × Nat)) :
    Nat → Checked (Concept × Nat) :=
  readChain ps (readChain ps factor .join .union) .meet .inter

-- ==================================================================== concepts

/-- Reads the role, the dot and the filler of a restriction that starts at a
token. -/
def readRestriction (start : Nat) (role : Nat → Checked (Role × Nat))
    (filler : Nat → Checked (Concept × Nat)) (quantifier : Quantifier)
    (pos : Nat) : Checked (Concept × Nat) := do
  let (r, left) ← role pos
  let left ← takeDot text ps start left
  let (c, left) ← filler left
  return (.restrict quantifier r c, left)

/-- Reads a factor within a budget. -/
def readFactor : Nat → Nat → Checked (Concept × Nat)
  | 0, pos => do throw ⟨.tooDeep, ← remaining text ps pos⟩
  | budget + 1, pos =>
    match ps[pos]? with
    | none => missing text ps
    | some p =>
      let restriction := readRestriction text ps pos
        (readRole reader text ps budget) (readFactor budget)
      let counted (quantifier : UInt32 → Quantifier) := do
        let (n, left) ← readNumber text ps (pos + 1)
        restriction (quantifier n) left
      match p.kind with
      | .complement => do
        let (c, left) ← readFactor budget (pos + 1)
        return (.compl c, left)
      | .existential => restriction .existential (pos + 1)
      | .universal => restriction .universal (pos + 1)
      | .atLeast => counted .atLeast
      | .atMost => counted .atMost
      | .exactly => counted .exactly
      | .top => return (.top, pos + 1)
      | .bottom => return (.bottom, pos + 1)
      | .name _ => do
        let iri ← resolve reader text p
        return (.atom iri, pos + 1)
      | .openBrace => do
        let (members, left) ← readMembers reader text ps (pos + 1)
        return (.oneOf members, left)
      | .openParen => do
        let (c, left) ← readInter ps (readFactor budget) (pos + 1)
        return (c, ← closeParen text ps left)
      | _ => do throw ⟨.unexpected, ← word text p⟩

-- =========================================================== whole expressions

/-- Checks that no token is left. -/
def finish {α : Type} (result : Checked (α × Nat)) : Checked α := do
  let (value, pos) ← result
  if pos < ps.length then throw ⟨.unexpected, ← remaining text ps pos⟩
  else return value

/-- Reads all of some tokens as a concept. -/
def conceptOf : Checked Concept :=
  finish text ps (readInter ps (readFactor reader text ps reader.budget) 0)

/-- Reads all of some tokens as a role. -/
def roleOf : Checked Role :=
  finish text ps (readRole reader text ps reader.budget 0)

end Reading

-- =================================================================== splitting

/-- The name behind a tag mark, which has to be all that is left. -/
def tagOf (text : List Char) (tail : List Placed) : Checked Placed :=
  match tail with
  | [_, p] =>
    if p.kind = .name [] then return p
    else do throw ⟨.unexpected, ← span text tail⟩
  | _ => do throw ⟨.unexpected, ← span text tail⟩

/-- Splits off the tag at the end of some tokens. -/
def cutTag (text : List Char) (ps : List Placed) :
    Checked (List Placed × Option Placed) :=
  match ps.findIdx? (·.kind = .tag) with
  | none => return (ps, none)
  | some pos => do
    let p ← tagOf text (← part ps pos ps.length)
    return (← part ps 0 pos, some p)

/-- The indices of the inclusion marks that stand outside all parentheses and
braces, given how many are open, and the index of the first token. -/
def inclusions : Nat → Nat → List Placed → List Nat
  | _, _, [] => []
  | depth, pos, p :: rest =>
    let others := inclusions (Token.openAfter depth p.kind) (pos + 1) rest
    if p.kind = .inclusion && depth = 0 then pos :: others else others

/-- Looks backwards, from in front of an index, for the parenthesis that opens
a group, given how many are closed behind it. -/
def openingOf (ps : List Placed) : Nat → Nat → Checked (Option Nat)
  | 0, _ => return none
  | pos + 1, depth => do
    match (← member ps pos).kind with
    | .closeParen => openingOf ps pos (depth + 1)
    | .openParen =>
      match depth with
      | 0 => return none
      | 1 => return some pos
      | depth + 1 => openingOf ps pos depth
    | _ => openingOf ps pos depth

/-- One name or one of `⊤` and `⊥`, or one group in parentheses, up to an
index. -/
def isSingle (ps : List Placed) (stop : Nat) : Checked Bool := do
  match ← part ps 0 stop with
  | [] => return false
  | [p] =>
    match p.kind with
    | .name _ | .top | .bottom => return true
    | _ => return false
  | first :: second :: others =>
    let last := (second :: others).getLast (List.cons_ne_nil _ _)
    if first.kind = .openParen && last.kind = .closeParen then
      return (← openingOf ps stop 0) = some 0
    else return false

/-- The parts of some tokens between the commas. -/
def splitCommas : List Placed → List (List Placed)
  | [] => [[]]
  | p :: rest =>
    match splitCommas rest with
    | part :: parts =>
      if p.kind = .comma then [] :: part :: parts else (p :: part) :: parts
    | [] => [[p]]

-- ================================================================== statements

section Statements

variable (reader : Reader) (text : List Char)

/-- Reads an argument of a body: one name. -/
def argument (body : List Placed) : List Placed → Checked Individual
  | [] => do throw ⟨.wrongArity, ← span text body⟩
  | [p] =>
    if p.kind = .name [] then do return .named (← resolve reader text p)
    else do throw ⟨.badName, ← span text [p]⟩
  | group => do throw ⟨.badName, ← span text group⟩

/-- The index of the parenthesis that opens the last group, if some tokens end
in a closing one. -/
def lastOpening (body : List Placed) : Checked (Option Nat) :=
  match body.getLast? with
  | some last =>
    if last.kind = .closeParen then openingOf body body.length 0
    else return none
  | none => return none

/-- Reads a head and its arguments. -/
def assertion (body : List Placed) : Checked Axiom := do
  let opening ← lastOpening body
  match opening with
  | none => throw ⟨.unexpected, ← span text body⟩
  | some pos =>
    if ← (if 0 < pos then isSingle body pos else return false) then
      let head ← part body 0 pos
      let group ← part body (pos + 1) (body.length - 1)
      let arguments ← (splitCommas group).mapM (argument reader text body)
      match arguments with
      | [a] => return .classAssertion (← conceptOf reader text head) a
      | [a, b] => return .roleAssertion (← roleOf reader text head) a b
      | _ => throw ⟨.wrongArity, ← span text group⟩
    else throw ⟨.unexpected, ← span text body⟩

/-- Reads the tokens of an axiom. -/
def axiomOf (body : List Placed) : Checked Axiom :=
  if body.isEmpty then throw ⟨.wrongArity, Text.trim text⟩
  else
    match inclusions 0 0 body with
    | [] => assertion reader text body
    | [pos] => do
      let sub ← part body 0 pos
      let c ← conceptOf reader text sub
      let sup ← part body (pos + 1) body.length
      return .subClassOf c (← conceptOf reader text sup)
    | _ => do throw ⟨.wrongArity, ← span text body⟩

/-- The placed tokens of a text in which parentheses and braces are
balanced. -/
def tokens : Checked (List Placed) :=
  if Reader.isBalanced '(' ')' 0 text && Reader.isBalanced '{' '}' 0 text then
    Placed.scan text 0 text
  else throw ⟨.unbalanced, Text.trim text⟩

/-- Reads the characters of a statement. -/
def statement : Checked Statement := do
  let (body, tag) ← cutTag text (← tokens text)
  let statement := Statement.plain (← axiomOf reader text body)
  match tag with
  | some p =>
    let name ← word text p
    return { statement with notes := [← of (reader.noteOfTag name)] }
  | none => return statement

/-- Reads the characters of a concept. -/
def concept : Checked Concept := do
  conceptOf reader text (← tokens text)

/-- Reads the characters of a role. -/
def role : Checked Role := do
  roleOf reader text (← tokens text)

/-- Reads a line. -/
def line : Checked Line := do
  let text := Text.trim text
  if text.isEmpty || text.head? = some '#' then return .skipped
  match Reader.rigidNames? text with
  | some names =>
    let names := names.splitOn ','
    return .rigid (← names.mapM fun name => of (reader.rigidName name))
  | none => return .statement (← statement reader text)

/-- Reads the characters of a document. -/
def ontology : Checked Ontology :=
  (Text.lines text).foldlM (fun o text => do
    return o.addLine (← line reader text)) (.empty none)

end Statements

end Positional

end ContextDL
