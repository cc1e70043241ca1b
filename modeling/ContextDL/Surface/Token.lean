/-
Tokens of the surface language.

A text is a sequence of lexemes with blanks between them. A token is a lexeme
together with the blanks in front of it, so the tokens of a text, written one
after the other, give the text back up to the blanks at its end. A reader
decides by lexemes only; the blanks serve to quote the text in an error.

Names are runs of ASCII letters and digits. A run is taken as long as it
gets, over letters and digits of all scripts and some marks of IRIs, so that
a wrong name is reported whole.
-/
import ContextDL.Text.Alphanumeric
import ContextDL.Text.Blank

namespace ContextDL

-- ====================================================================== errors

/-- What is wrong with a text. -/
inductive ReadError.Cause where
  | unbalanced
  | badName
  | wrongArity
  | missingDot
  /-- An unknown operator: a token, or the end of the text, stands where the
  grammar wants something else. -/
  | unexpected
  | tooDeep
deriving DecidableEq

/-- A cause in words. -/
def ReadError.Cause.message : ReadError.Cause → String
  | .unbalanced => "unbalanced parentheses"
  | .badName => "invalid identifier"
  | .wrongArity => "wrong number of operands"
  | .missingDot => "missing '.' after the quantified role"
  | .unexpected => "unknown operator"
  | .tooDeep => "expression nested too deeply"

/-- A cause and the part of the text that shows it. -/
structure ReadError where
  cause : ReadError.Cause
  fragment : List Char
deriving DecidableEq

/-- The sentence that reports an error. -/
def ReadError.message (e : ReadError) : String :=
  e.cause.message ++ ": '" ++ String.ofList e.fragment ++ "'"

-- ===================================================================== lexemes

/-- The words and marks of the surface language. -/
inductive Lexeme where
  | name (text : List Char)
  | top
  | bottom
  | meet
  | join
  | complement
  | existential
  | universal
  | atLeast
  | atMost
  | exactly
  | inclusion
  | inverse
  | dot
  | comma
  | openParen
  | closeParen
  | openBrace
  | closeBrace
  | tag
deriving DecidableEq

namespace Lexeme

/-- The characters of a lexeme. -/
def chars : Lexeme → List Char
  | .name text => text
  | .top => ['⊤']
  | .bottom => ['⊥']
  | .meet => ['⊓']
  | .join => ['⊔']
  | .complement => ['¬']
  | .existential => ['∃']
  | .universal => ['∀']
  | .atLeast => ['≥']
  | .atMost => ['≤']
  | .exactly => ['=']
  | .inclusion => ['⊑']
  | .inverse => ['^', '-', '1']
  | .dot => ['.']
  | .comma => [',']
  | .openParen => ['(']
  | .closeParen => [')']
  | .openBrace => ['{']
  | .closeBrace => ['}']
  | .tag => ['@']

/-- The lexeme that a single character is. -/
def ofMark? : Char → Option Lexeme
  | '⊤' => some .top
  | '⊥' => some .bottom
  | '⊓' => some .meet
  | '⊔' => some .join
  | '¬' => some .complement
  | '∃' => some .existential
  | '∀' => some .universal
  | '≥' => some .atLeast
  | '≤' => some .atMost
  | '=' => some .exactly
  | '⊑' => some .inclusion
  | '.' => some .dot
  | ',' => some .comma
  | '(' => some .openParen
  | ')' => some .closeParen
  | '{' => some .openBrace
  | '}' => some .closeBrace
  | '@' => some .tag
  | _ => none

/-- The characters that a run of name characters goes on over. -/
def isNameChar (c : Char) : Bool :=
  Text.isAlphanumeric c || c == '_' || c == '-' || c == ':' || c == '#' ||
    c == '/'

/-- Reads the lexeme that starts with a character, which is not blank, and
gives what is left after it. -/
def read (c : Char) (rest : List Char) :
    Except ReadError (Lexeme × List Char) :=
  match ofMark? c with
  | some lexeme => .ok (lexeme, rest)
  | none =>
    if c = '^' then
      match rest with
      | '-' :: '1' :: rest => .ok (.inverse, rest)
      | rest =>
        .error ⟨.unexpected, c :: rest.takeWhile fun c => !Text.isBlank c⟩
    else if isNameChar c then
      let word := c :: rest.takeWhile isNameChar
      if word.all Char.isAlphanum then
        .ok (.name word, rest.dropWhile isNameChar)
      else .error ⟨.badName, word⟩
    else .error ⟨.unexpected, [c]⟩

/-- What is left after a lexeme is no longer than what was there. -/
theorem length_le_of_read {c : Char} {rest left : List Char} {lexeme : Lexeme}
    (h : read c rest = .ok (lexeme, left)) : left.length ≤ rest.length := by
  unfold read at h
  split at h
  · cases h; exact Nat.le_refl _
  split at h
  · split at h
    · cases h; simp only [List.length_cons]; omega
    · cases h
  split at h
  · dsimp only at h
    split at h
    · cases h; exact (List.dropWhile_suffix _).length_le
    · cases h
  · cases h

end Lexeme

-- ====================================================================== tokens

/-- A lexeme and the blanks in front of it. -/
structure Token where
  gap : List Char
  lexeme : Lexeme
deriving DecidableEq

namespace Token

/-- The characters of the lexeme of a token. -/
def chars (t : Token) : List Char :=
  t.lexeme.chars

/-- The text of some tokens, with the blanks in front of the first. -/
def render (ts : List Token) : List Char :=
  ts.flatMap fun t => t.gap ++ t.chars

/-- The text of some tokens from the first lexeme to the last. -/
def span : List Token → List Char
  | [] => []
  | t :: ts => t.chars ++ render ts

/-- What is left after the first lexeme of a text is shorter than the
text. -/
theorem length_lt_of_read {cs rest left : List Char} {c : Char}
    {lexeme : Lexeme} (start : cs.dropWhile Text.isBlank = c :: rest)
    (first : Lexeme.read c rest = .ok (lexeme, left)) :
    left.length < cs.length := by
  have h₁ := Lexeme.length_le_of_read first
  have h₂ := (List.dropWhile_suffix (l := cs) Text.isBlank).length_le
  rw [start, List.length_cons] at h₂
  omega

/-- The tokens of a text. -/
def ofText (cs : List Char) : Except ReadError (List Token) :=
  match start : cs.dropWhile Text.isBlank with
  | [] => .ok []
  | c :: rest =>
    match first : Lexeme.read c rest with
    | .error e => .error e
    | .ok (lexeme, left) =>
      have := length_lt_of_read start first
      (ofText left).map (⟨cs.takeWhile Text.isBlank, lexeme⟩ :: ·)
termination_by cs.length

end Token

end ContextDL
