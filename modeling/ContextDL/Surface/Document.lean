/-
Reading statements and documents.

    statement := (concept ⊑ concept | head ( name ) | head ( name, name ))
                 (@ name)?

A head is one name, `⊤` or `⊥`, or one group in parentheses. With one
argument it is a concept, with two a role. A tag makes the axiom global, if it
is the word `global`, and else names the concept that addresses the axiom.

A document has one statement on a line. Blank lines and lines that start with
`#` are skipped. A line that starts with the word `rigid` lists names, with
commas between them, that are labelled rigid.
-/
import ContextDL.Ontology
import ContextDL.Surface.Expression

namespace ContextDL

namespace Token

-- =================================================================== splitting

/-- Splits off the tag at the end of some tokens. Nothing but one name may
follow the first tag mark. -/
def cutTag : List Token →
    Except ReadError (List Token × Option (List Char))
  | [] => .ok ([], none)
  | t :: rest =>
    if t.lexeme = .tag then
      match rest with
      | [⟨_, .name text⟩] => .ok ([], some text)
      | _ => .error ⟨.unexpected, span (t :: rest)⟩
    else do
      let (body, tag) ← cutTag rest
      return (t :: body, tag)

/-- How many parentheses and braces are open after a lexeme, given how many
are open before it. -/
def openAfter (depth : Nat) : Lexeme → Nat
  | .openParen | .openBrace => depth + 1
  | .closeParen | .closeBrace => depth - 1
  | _ => depth

/-- The parts of some tokens between the inclusion marks that stand outside
all parentheses and braces, given how many are open. -/
def splitInclusion : Nat → List Token → List (List Token)
  | _, [] => [[]]
  | depth, t :: rest =>
    let next := openAfter depth t.lexeme
    if t.lexeme = .inclusion && depth = 0 then [] :: splitInclusion next rest
    else
      match splitInclusion next rest with
      | part :: parts => (t :: part) :: parts
      | [] => [[t]]

/-- Looks backwards for the parenthesis that opens a group, given how many
inner groups are open and the tokens of the group so far. It gives what
stands before the group, and the group. -/
def openGroup : Nat → List Token → List Token →
    Option (List Token × List Token)
  | _, _, [] => none
  | depth, group, t :: before =>
    match t.lexeme with
    | .closeParen => openGroup (depth + 1) (t :: group) before
    | .openParen =>
      match depth with
      | 0 => some (before.reverse, group)
      | depth + 1 => openGroup depth (t :: group) before
    | _ => openGroup depth (t :: group) before

/-- Splits some tokens that end in a group in parentheses: what stands before
the group, and what stands in it. -/
def splitGroup (ts : List Token) : Option (List Token × List Token) :=
  match ts.reverse with
  | t :: before =>
    if t.lexeme = .closeParen then openGroup 0 [] before else none
  | [] => none

/-- One name or one of `⊤` and `⊥`, or one group in parentheses. -/
def isSingle (ts : List Token) : Bool :=
  match ts with
  | [⟨_, .name _⟩] | [⟨_, .top⟩] | [⟨_, .bottom⟩] => true
  | ts =>
    match splitGroup ts with
    | some ([], _) => true
    | _ => false

/-- The parts of some tokens between the commas. -/
def splitCommas : List Token → List (List Token)
  | [] => [[]]
  | t :: rest =>
    match splitCommas rest with
    | part :: parts =>
      if t.lexeme = .comma then [] :: part :: parts else (t :: part) :: parts
    | [] => [[t]]

end Token

namespace Reader

-- ================================================================== assertions

/-- Reads an argument of a body: one name. -/
def argument (reader : Reader) (body : List Token) :
    List Token → Except ReadError Individual
  | [⟨_, .name text⟩] => do return .named (← reader.iriOf text)
  | [] => .error ⟨.wrongArity, Token.span body⟩
  | part => .error ⟨.badName, Token.span part⟩

/-- Reads a head and its arguments. -/
def assertion (reader : Reader) (body : List Token) :
    Except ReadError Axiom := do
  match Token.splitGroup body with
  | some (head, group) =>
    if Token.isSingle head then
      let arguments ←
        (Token.splitCommas group).mapM (reader.argument body)
      match arguments with
      | [a] => return .classAssertion (← reader.conceptOfTokens head) a
      | [a, b] => return .roleAssertion (← reader.roleOfTokens head) a b
      | _ => .error ⟨.wrongArity, Token.span group⟩
    else .error ⟨.unexpected, Token.span body⟩
  | none => .error ⟨.unexpected, Token.span body⟩

-- ================================================================== statements

/-- Reads the tokens of an axiom in a text. -/
def axiomOfTokens (reader : Reader) (text : List Char) (body : List Token) :
    Except ReadError Axiom :=
  if body.isEmpty then .error ⟨.wrongArity, Text.trim text⟩
  else
    match Token.splitInclusion 0 body with
    | [_] => reader.assertion body
    | [sub, sup] => do
      return .subClassOf (← reader.conceptOfTokens sub)
        (← reader.conceptOfTokens sup)
    | _ => .error ⟨.wrongArity, Token.span body⟩

/-- The word that tags a global axiom. -/
def globalWord : List Char :=
  "global".toList

/-- The note that a tag stands for. -/
def noteOfTag (reader : Reader) (tag : List Char) : Except ReadError Note := do
  if tag = globalWord then return .objectGlobal
  else return .definedBy (← reader.iriOf tag)

/-- Reads the characters of a statement. -/
def statementOfChars (reader : Reader) (text : List Char) :
    Except ReadError Statement := do
  let (body, tag) ← Token.cutTag (← tokens text)
  let statement := Statement.plain (← reader.axiomOfTokens text body)
  match tag with
  | some tag => return { statement with notes := [← reader.noteOfTag tag] }
  | none => return statement

/-- Reads a text as a statement. -/
def statement (reader : Reader) (text : String) :
    Except ReadError Statement :=
  reader.statementOfChars text.toList

end Reader

-- ======================================================================= lines

/-- What a line of a document says. -/
inductive Line where
  | skipped
  | rigid (entities : List Iri)
  | statement (content : Statement)
deriving DecidableEq

/-- Adds to an ontology what a line says. -/
def Ontology.addLine (o : Ontology) : Line → Ontology
  | .skipped => o
  | .rigid entities => entities.foldl Ontology.markRigid o
  | .statement content => o.add content

namespace Reader

/-- The word that starts a line of rigid names. -/
def rigidWord : List Char :=
  "rigid".toList

/-- The names on a line that starts with the word `rigid` and a blank. -/
def rigidNames? (line : List Char) : Option (List Char) :=
  if rigidWord.isPrefixOf line then
    match line.drop rigidWord.length with
    | c :: rest => if Text.isBlank c then some (c :: rest) else none
    | [] => none
  else none

/-- Reads a name between commas. -/
def rigidName (reader : Reader) (part : List Char) : Except ReadError Iri :=
  let name := Text.trim part
  if name.isEmpty || !name.all Char.isAlphanum then
    .error ⟨.badName, name⟩
  else reader.iriOf name

/-- Reads a line. -/
def line (reader : Reader) (text : List Char) : Except ReadError Line := do
  let text := Text.trim text
  if text.isEmpty || text.head? = some '#' then return .skipped
  match rigidNames? text with
  | some names => return .rigid (← (names.splitOn ',').mapM reader.rigidName)
  | none => return .statement (← reader.statementOfChars text)

-- =================================================================== documents

/-- Adds to an ontology what some lines say. -/
def addLines (reader : Reader) (o : Ontology) (lines : List (List Char)) :
    Except ReadError Ontology :=
  lines.foldlM (fun o text => do return o.addLine (← reader.line text)) o

/-- Reads a text as a document. The ontology has no name. -/
def ontology (reader : Reader) (text : String) : Except ReadError Ontology :=
  reader.addLines (.empty none) (Text.lines text.toList)

end Reader

end ContextDL
