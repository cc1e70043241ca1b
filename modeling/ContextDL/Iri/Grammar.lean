/-
The grammar of absolute IRIs.

A text is checked from left to right, part by part: scheme, authority (user
info, host and the digits after it), path, query, fragment. Each part is a run
of characters of its own class, in which `%` must be followed by two
hexadecimal digits, and ends at one of the marks that may follow the part. The
first offence is the fault of the text. An address in brackets is of ASCII.

An IPv6 address is eight groups of one to four hexadecimal digits with colons
between them. Its last two groups may be written as a dotted quad, and one run
of zero groups may be left out as `::`.

A text without a scheme is checked as a relative reference first, so that an
offence in it is named before the missing scheme.

# What it stands for

IRIs are parsed by a third-party package that is not part of this repository.
The grammar stands for that parser. It follows the syntax of absolute IRIs as the
package documents it, with the order of the tests and the texts of the errors.
What is proved of valid IRIs rests on this, most of all the condition under which
a dual name is one (`Iri.isValid_dual_iff`).
-/
import ContextDL.Iri.Basic

namespace ContextDL.Iri

-- ====================================================== pieces of an address

/-- A hexadecimal digit. -/
def isHexDigit (c : Char) : Bool :=
  c.isDigit || ('a' ≤ c && c ≤ 'f') || ('A' ≤ c && c ≤ 'F')

/-- A group: one to four hexadecimal digits. -/
def isGroup (cs : List Char) : Bool :=
  1 ≤ cs.length && cs.length ≤ 4 && cs.all isHexDigit

/-- A part of a dotted quad: a number up to 255 without leading zeros. -/
def isOctet (cs : List Char) : Bool :=
  1 ≤ cs.length && cs.length ≤ 3 && cs.all Char.isDigit &&
    (cs.length == 1 || cs.head? != some '0') &&
    Nat.ofDigitChars 10 cs 0 ≤ 255

/-- Four octets with dots between them. -/
def isQuad (cs : List Char) : Bool :=
  let parts := cs.splitOn '.'
  parts.length == 4 && parts.all isOctet

-- =================================================================== addresses

/-- How many groups a list of pieces stands for. The last piece may be a
dotted quad, which stands for two. -/
def groupCount : List (List Char) → Option Nat
  | [] => some 0
  | [piece] =>
    if isGroup piece then some 1 else if isQuad piece then some 2 else none
  | piece :: pieces =>
    if isGroup piece then (groupCount pieces).map (· + 1) else none

/-- The pieces of a text between its colons; an empty text has none. -/
def pieces (cs : List Char) : List (List Char) :=
  if cs.isEmpty then [] else cs.splitOn ':'

/-- What stands before and after the first `::`. -/
def splitGap : List Char → Option (List Char × List Char)
  | ':' :: ':' :: rest => some ([], rest)
  | c :: rest => (splitGap rest).map fun (front, back) => (c :: front, back)
  | [] => none

/-- Checks an IPv6 address. A gap leaves out at least one group, and no
dotted quad stands before it. -/
def isAddress (cs : List Char) : Bool :=
  match splitGap cs with
  | some (front, back) =>
    (pieces front).all isGroup &&
      match groupCount (pieces back) with
      | some n => (pieces front).length + n ≤ 7
      | none => false
  | none => groupCount (pieces cs) == some 8

-- ====================================================================== faults

/-- Why a text is no absolute IRI. -/
inductive Fault where
  | noScheme
  | character (c : Char)
  /-- A `%` is followed by these up to two characters instead of two
  hexadecimal digits. -/
  | escape (follow : List Char)
  | host (c : Char)
  | digits (c : Char)
  | address
deriving DecidableEq

/-- The sentence that reports a fault. -/
def Fault.message : Fault → String
  | .noScheme => "No scheme found in an absolute IRI"
  | .character c => "Invalid IRI code point '" ++ c.toString ++ "'"
  | .escape follow =>
    "Invalid IRI percent encoding '%" ++ String.ofList follow ++ "'"
  | .host c => "Invalid character '" ++ c.toString ++ "' in host"
  | .digits c => "Invalid character '" ++ c.toString ++ "'"
  | .address => "Invalid host IP (invalid IPv6 address syntax)"

-- =========================================================== character classes

/-- The characters beyond ASCII that stand for themselves. -/
def isUcsChar (c : Char) : Bool :=
  let n := c.val
  (0xA0 ≤ n && n ≤ 0xD7FF) || (0xF900 ≤ n && n ≤ 0xFDCF) ||
    (0xFDF0 ≤ n && n ≤ 0xFFEF) ||
    (0x10000 ≤ n && n < 0xE0000 && n % 0x10000 ≤ 0xFFFD) ||
    (0xE1000 ≤ n && n ≤ 0xEFFFD)

/-- The punctuation of ASCII that is allowed in every part after the
scheme. -/
def plainMarks : List Char :=
  "!$&'()*+,-.;=_~".toList

/-- The unreserved characters and the delimiters of ASCII. -/
def isUriChar (c : Char) : Bool :=
  c.isAlphanum || plainMarks.contains c

/-- The unreserved characters and the delimiters that are allowed in every
part after the scheme. -/
def isPlain (c : Char) : Bool :=
  isUriChar c || isUcsChar c

/-- The characters of private use, allowed in a query. -/
def isPrivate (c : Char) : Bool :=
  let n := c.val
  (0xE000 ≤ n && n ≤ 0xF8FF) || (0xF0000 ≤ n && n ≤ 0xFFFFD) ||
    (0x100000 ≤ n && n ≤ 0x10FFFD)

/-- The characters of a scheme after its first letter. -/
def isSchemeChar (c : Char) : Bool :=
  c.isAlphanum || c == '+' || c == '-' || c == '.'

/-- The characters of the user info in an authority. -/
def isUserChar (c : Char) : Bool :=
  isPlain c || c == ':'

/-- The characters of a path. -/
def isPathChar (c : Char) : Bool :=
  isPlain c || c == ':' || c == '@' || c == '/'

/-- The characters of the first segment of a relative path. -/
def isSegmentChar (c : Char) : Bool :=
  isPlain c || c == '@'

/-- The characters of a fragment. -/
def isFragmentChar (c : Char) : Bool :=
  isPathChar c || c == '?'

/-- The characters of a query. -/
def isQueryChar (c : Char) : Bool :=
  isFragmentChar c || isPrivate c

/-- The marks that end an authority. -/
def endsAuthority (c : Char) : Bool :=
  c == '/' || c == '?' || c == '#'

/-- The marks that end a path. -/
def endsPath (c : Char) : Bool :=
  c == '?' || c == '#'

-- ======================================================================== runs

/-- Reads a run of allowed characters and escapes up to the first mark that
may end it, and gives what is left. -/
def skip (allowed ends : Char → Bool) : List Char → Except Fault (List Char)
  | [] => .ok []
  | c :: rest =>
    if ends c then .ok (c :: rest)
    else if c = '%' then
      match rest with
      | a :: b :: rest =>
        if isHexDigit a && isHexDigit b then skip allowed ends rest
        else .error (.escape [a, b])
      | rest => .error (.escape rest)
    else if allowed c then skip allowed ends rest
    else .error (.character c)

-- ============================================================== path and after

/-- Reads a fragment, after its `#`. -/
def checkFragment (cs : List Char) : Except Fault Unit := do
  let _ ← skip isFragmentChar (fun _ => false) cs

/-- Reads a query, after its `?`, and the fragment that may follow. -/
def checkQuery (cs : List Char) : Except Fault Unit := do
  match ← skip isQueryChar (· == '#') cs with
  | _ :: rest => checkFragment rest
  | [] => return ()

/-- Reads what may follow a path: nothing, a query or a fragment. -/
def checkTail : List Char → Except Fault Unit
  | '?' :: rest => checkQuery rest
  | _ :: rest => checkFragment rest
  | [] => .ok ()

/-- Reads a path and what follows it. -/
def checkPath (cs : List Char) : Except Fault Unit := do
  checkTail (← skip isPathChar endsPath cs)

-- =================================================================== authority

/-- Reads the digits that may follow a host, after their colon, up to the end
of the authority. -/
def checkDigits : List Char → Except Fault Unit
  | [] => .ok ()
  | c :: rest =>
    if endsAuthority c then checkPath (c :: rest)
    else if c.isDigit then checkDigits rest
    else .error (.digits c)

/-- The characters of a future address after its dot. They are of ASCII, as
in all addresses. -/
def isFutureChar (c : Char) : Bool :=
  isUriChar c || c == ':'

/-- Checks the part of a future address after its dot. -/
def checkFutureBody (cs : List Char) : Except Fault Unit :=
  if cs.isEmpty then .error (.host ']')
  else match cs.find? fun c => !isFutureChar c with
    | some c => .error (.host c)
    | none => .ok ()

/-- Checks an address of a future version, after its `v`: hexadecimal digits,
a dot, and at least one character. -/
def checkFuture (cs : List Char) : Except Fault Unit :=
  match cs.span isHexDigit with
  | ([], '.' :: rest) => .error (.host (rest.head?.getD ']'))
  | ([], []) => .error (.host ']')
  | (_, []) => checkFutureBody []
  | (_, c :: rest) =>
    if c = '.' then checkFutureBody rest else .error (.host c)

/-- Checks what stands between the brackets of a host. -/
def checkAddress : List Char → Except Fault Unit
  | 'v' :: rest | 'V' :: rest => checkFuture rest
  | cs => if isAddress cs then .ok () else .error .address

/-- Reads a host, and after it the digits, the path and the rest. -/
def checkHost : List Char → Except Fault Unit
  | '[' :: rest =>
    match rest.span (· != ']') with
    | (_, []) => .error (.host '[')
    | (inside, _ :: rest) => do
      checkAddress inside
      match rest with
      | ':' :: rest => checkDigits rest
      | c :: rest =>
        if endsAuthority c then checkPath (c :: rest) else .error (.host c)
      | [] => return ()
  | cs => do
    match ← skip isPlain (fun c => c == ':' || endsAuthority c) cs with
    | ':' :: rest => checkDigits rest
    | rest => checkPath rest

/-- Reads an authority, after its `//`. It is read as user info first; if no
`@` ends that, it is read again as a host. -/
def checkAuthority (cs : List Char) : Except Fault Unit := do
  match ← skip isUserChar
      (fun c => c == '@' || c == '[' || endsAuthority c) cs with
  | '@' :: rest => checkHost rest
  | _ => checkHost cs

-- ======================================================================= whole

/-- What follows the scheme of a text, after the colon; nothing if the text
has no scheme. -/
def afterScheme : List Char → Option (List Char)
  | c :: rest =>
    if c.isAlpha then
      match rest.dropWhile isSchemeChar with
      | ':' :: rest => some rest
      | _ => none
    else none
  | [] => none

/-- Reads what follows a scheme. -/
def checkHierarchy : List Char → Except Fault Unit
  | '/' :: '/' :: rest => checkAuthority rest
  | cs => checkPath cs

/-- Reads a relative reference, whose first segment holds no colon. -/
def checkRelative : List Char → Except Fault Unit
  | '/' :: rest => checkHierarchy ('/' :: rest)
  | cs => do checkPath (← skip isSegmentChar endsAuthority cs)

/-- Checks that a text is an absolute IRI. -/
def check (cs : List Char) : Except Fault Unit :=
  match afterScheme cs with
  | some rest => checkHierarchy rest
  | none => do
    unless cs.head? = some ':' do checkRelative cs
    .error .noScheme

/-- The IRI with a given text, if the text is an absolute IRI. -/
def ofText (text : String) : Except Fault Iri := do
  check text.toList
  return ⟨text⟩

/-- An IRI that could have been made from its text. -/
def IsValid (iri : Iri) : Prop :=
  check iri.chars = .ok ()

/-- A text makes the IRI of that text, if it is a valid one, and no other. -/
theorem ofText_eq_ok {text : String} {iri : Iri} :
    ofText text = .ok iri ↔ iri.IsValid ∧ iri = ⟨text⟩ := by
  constructor
  · intro made
    unfold ofText at made
    cases h : check text.toList with
    | error e => rw [h] at made; cases made
    | ok u => rw [h] at made; cases made; exact ⟨h, rfl⟩
  · intro h
    obtain ⟨valid, rfl⟩ := h
    unfold ofText
    rw [show check text.toList = .ok () from valid]
    rfl

end ContextDL.Iri
