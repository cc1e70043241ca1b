/-
Statements: axioms with their notes.

A note is an annotation of an axiom or of an entity: a property with an IRI or
a literal for a value. A literal is a string, plain, with a language tag or with
a datatype; a literal of datatype `xsd:string` is a plain one. Literals are
written with double quotes, as in N-Triples.

Two properties have a meaning here. `definedBy` on an
axiom names the concept that addresses the axiom. A label says that an axiom is
global (`objectGlobal`) or that an entity is rigid (`rigid`).

A statement is an annotated axiom, and its notes say to which part of a
contextual ontology it belongs. A statement with a `definedBy` note is addressed
by a naming concept, one with the label `objectGlobal` is global, and any other
is meta.
-/
import ContextDL.Axiom
import ContextDL.Signature

namespace ContextDL

-- ==================================================================== literals

/-- A literal value. -/
inductive Literal where
  | plain (value : String)
  | tagged (value : String) (tag : String)
  | typed (value : String) (datatype : Iri)
deriving DecidableEq

namespace Literal

/-- The datatype of plain strings. -/
def stringType : Iri :=
  ⟨"http://www.w3.org/2001/XMLSchema#string"⟩

/-- The literal of a string and a datatype; the datatype of plain strings is
left away. -/
def ofDatatype (value : String) (datatype : Iri) : Literal :=
  if datatype = stringType then .plain value else .typed value datatype

/-- The literal of a string and a language tag. Tags are kept in lower
case. -/
def ofLanguage (value tag : String) : Literal :=
  .tagged value (String.ofList (tag.toList.map Char.toLower))

/-- The string of a literal. -/
def value : Literal → String
  | .plain value | .tagged value _ | .typed value _ => value

/-- A code point as four hexadecimal digits, after `\u`. -/
def escape (c : Char) : List Char :=
  let digits := (Nat.toDigits 16 c.toNat).map Char.toUpper
  '\\' :: 'u' :: (List.replicate (4 - digits.length) '0' ++ digits)

/-- A character as it stands between quotes. -/
def quoteChar (c : Char) : List Char :=
  if c = '\x08' then ['\\', 'b']
  else if c = '\t' then ['\\', 't']
  else if c = '\n' then ['\\', 'n']
  else if c = '\x0c' then ['\\', 'f']
  else if c = '\r' then ['\\', 'r']
  else if c = '"' then ['\\', '"']
  else if c = '\\' then ['\\', '\\']
  else if c.toNat ≤ 0x1F || c.toNat = 0x7F || c.toNat = 0xFFFE ||
      c.toNat = 0xFFFF then escape c
  else [c]

/-- A string between quotes. -/
def quote (value : String) : String :=
  "\"" ++ String.ofList (value.toList.flatMap quoteChar) ++ "\""

/-- The written form of a literal. -/
def written : Literal → String
  | .plain value => quote value
  | .tagged value tag => quote value ++ "@" ++ tag
  | .typed value datatype => quote value ++ "^^" ++ datatype.quoted

end Literal

-- ====================================================================== values

/-- The value of an annotation: what a note says of its property. -/
inductive NoteValue where
  | iri (target : Iri)
  | literal (content : Literal)
deriving DecidableEq

/-- The written form of a value. -/
def NoteValue.written : NoteValue → String
  | .iri target => target.quoted
  | .literal content => content.written

-- ======================================================================= notes

/-- An annotation: a property and its value. -/
structure Note where
  property : Iri
  value : NoteValue
deriving DecidableEq

namespace Note

/-- The property that links an axiom to the concept that names it. -/
def definedByProperty : Iri :=
  ⟨"http://oxigraph.org/context#definedBy"⟩

/-- The property that labels axioms and entities. -/
def labelProperty : Iri :=
  ⟨"http://www.w3.org/2000/01/rdf-schema#label"⟩

/-- The note that a concept names an axiom. -/
def definedBy (concept : Iri) : Note :=
  ⟨definedByProperty, .iri concept⟩

/-- A plain label. -/
def label (text : String) : Note :=
  ⟨labelProperty, .literal (.plain text)⟩

/-- The label of global axioms. -/
def objectGlobal : Note :=
  label "objectGlobal"

/-- The label of rigid entities. -/
def rigid : Note :=
  label "rigid"

/-- A note that says what an axiom is defined by. -/
def isDefinedBy (note : Note) : Bool :=
  note.property = definedByProperty

/-- A label with a given text, whatever its language or datatype. -/
def isLabel (note : Note) (text : String) : Bool :=
  note.property = labelProperty &&
    match note.value with
    | .literal content => content.value = text
    | .iri _ => false

/-- The written form of a note. -/
def written (note : Note) : String :=
  note.property.quoted ++ " " ++ note.value.written

end Note

-- ================================================================== statements

/-- An annotated axiom: an axiom and the notes on it. -/
structure Statement where
  body : Axiom
  notes : List Note
deriving DecidableEq

namespace Statement

/-- An axiom without notes. -/
def plain (body : Axiom) : Statement :=
  ⟨body, []⟩

/-- The values of the `definedBy` notes, in order. -/
def definedBy (s : Statement) : List NoteValue :=
  (s.notes.filter Note.isDefinedBy).map Note.value

/-- A statement that belongs to every branch. -/
def isGlobal (s : Statement) : Bool :=
  s.notes.any (·.isLabel "objectGlobal")

/-- A statement that is neither addressed nor global. -/
def isMeta (s : Statement) : Bool :=
  s.definedBy.isEmpty && !s.isGlobal

/-- The names in the axiom of a statement. -/
def signature (s : Statement) : Signature :=
  s.body.signature

/-- A `definedBy` value behind its tag mark. -/
def tagChars : NoteValue → List Char
  | .iri target => " @ ".toList ++ target.localName
  | .literal content => " @ ".toList ++ content.written.toList

/-- The written form of a statement: the axiom and a tag for each note with a
meaning. Other notes are not written. -/
def chars (s : Statement) : List Char :=
  s.body.chars ++ s.definedBy.flatMap tagChars ++
    (if s.isGlobal then " @ global".toList else [])

/-- The text of a statement. -/
def text (s : Statement) : String :=
  String.ofList s.chars

end Statement

end ContextDL
