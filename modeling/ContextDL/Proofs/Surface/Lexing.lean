/-
Lexing: what the tokens of a text say of the text.

Readers decide by lexemes only, so what follows turns what is said of the
characters of a text into what is said of its lexemes (`Lexeme.ofText`).

# The text is given back

`Token.render_of_ofText`: the text is its tokens, written one after the other,
and blanks at the end. The gaps are blanks, and every name is a run of ASCII
letters and digits (`Lexeme.IsProper`).

# Brackets

A bracket is written as itself and stands in no other lexeme (`IsBracketPair`),
so the brackets of the text are those of its lexemes, and either way of
counting them gives the same answer. `Reader.tokens_eq_ok` states the check of
brackets on lexemes.

# Names

A name is read as the IRI that it makes behind the base, if that is a valid
one (`Reader.iriOf_eq_ok`).
-/
import Mathlib.Data.List.TakeWhile
import ContextDL.Proofs.Success
import ContextDL.Surface.Grammar

namespace ContextDL

-- ===================================================================== lexemes

namespace Lexeme

/-- The lexemes of a text. -/
def ofText (cs : List Char) : Except ReadError (List Lexeme) :=
  List.map Token.lexeme <$> Token.ofText cs

theorem ofText_eq_ok {cs : List Char} {ls : List Lexeme} :
    ofText cs = .ok ls ↔
      ∃ ts, Token.ofText cs = .ok ts ∧ ts.map Token.lexeme = ls :=
  map_eq_ok

/-- A name is a run of letters and digits of ASCII. Other lexemes are proper
as they are. -/
def IsProper : Lexeme → Prop
  | .name text => text ≠ [] ∧ text.all Char.isAlphanum = true
  | _ => True

/-- The word of a tag is a name. -/
theorem isProper_globalWord : IsProper (.name Reader.globalWord) := by
  constructor <;> decide

/-- A mark is the one character that it is written with. -/
theorem of_ofMark? {c : Char} {l : Lexeme} (h : ofMark? c = some l) :
    l.chars = [c] ∧ l.IsProper := by
  unfold ofMark? at h
  split at h <;> cases h <;> exact ⟨rfl, trivial⟩

/-- Reading a lexeme takes its characters off the text, and no name that is
read is malformed. -/
theorem of_read {c : Char} {rest left : List Char} {l : Lexeme}
    (h : read c rest = .ok (l, left)) :
    c :: rest = l.chars ++ left ∧ l.IsProper := by
  unfold read at h
  split at h
  · next m hm =>
    cases h
    obtain ⟨chars, proper⟩ := of_ofMark? hm
    exact ⟨by rw [chars]; rfl, proper⟩
  split at h
  · next hc =>
    subst hc
    split at h
    · cases h
      exact ⟨rfl, trivial⟩
    · cases h
  split at h
  · dsimp only at h
    split at h
    · next word =>
      cases h
      refine ⟨?_, by simp, word⟩
      show _ = c :: _ ++ _
      rw [List.cons_append, List.takeWhile_append_dropWhile]
    · cases h
  · cases h

end Lexeme

-- ====================================================================== tokens

/-- The tokens of a text give the text back, up to the blanks at its end. -/
theorem Token.render_of_ofText {cs : List Char} {ts : List Token}
    (h : ofText cs = .ok ts) :
    (∃ tail, (∀ c ∈ tail, Text.isBlank c = true) ∧ cs = render ts ++ tail) ∧
      ∀ t ∈ ts, (∀ c ∈ t.gap, Text.isBlank c = true) ∧ t.lexeme.IsProper := by
  fun_induction ofText cs generalizing ts with
  | case1 cs start =>
    cases h
    have blank : ∀ c ∈ cs, Text.isBlank c = true := by
      simpa using List.dropWhile_eq_nil_iff.1 start
    exact ⟨⟨cs, blank, rfl⟩, by simp⟩
  | case2 => cases h
  | case3 cs c rest start l left first _ ih =>
    obtain ⟨ts, hts, rfl⟩ := map_eq_ok.1 h
    obtain ⟨⟨tail, blank, hleft⟩, sound⟩ := ih hts
    obtain ⟨chars, proper⟩ := Lexeme.of_read first
    refine ⟨⟨tail, blank, ?_⟩, ?_⟩
    · calc cs
        _ = cs.takeWhile Text.isBlank ++ (l.chars ++ left) := by
          rw [← chars, ← start, List.takeWhile_append_dropWhile]
        _ = render (⟨cs.takeWhile Text.isBlank, l⟩ :: ts) ++ tail := by
          simp [hleft, render, Token.chars]
    · intro t ht
      rcases List.mem_cons.1 ht with rfl | ht
      · exact ⟨fun c hc => List.all_eq_true.1 List.all_takeWhile c hc, proper⟩
      · exact sound t ht

theorem Token.isProper_of_ofText {cs : List Char} {ts : List Token}
    (h : ofText cs = .ok ts) {l : Lexeme} (hl : l ∈ ts.map Token.lexeme) :
    l.IsProper := by
  obtain ⟨t, ht, rfl⟩ := List.mem_map.1 hl
  exact ((render_of_ofText h).2 t ht).2

-- ==================================================================== brackets

/-- An opening and a closing character are written as lexemes of their own, and
no other lexeme and no gap holds one of them. -/
structure IsBracketPair (opening closing : Char) (left right : Lexeme) :
    Prop where
  left_chars : left.chars = [opening]
  right_chars : right.chars = [closing]
  opening_visible : Text.isBlank opening = false
  closing_visible : Text.isBlank closing = false
  differ : closing ≠ opening
  alone : ∀ l : Lexeme, l.IsProper → l ≠ left → l ≠ right →
    opening ∉ l.chars ∧ closing ∉ l.chars

/-- A character that is no letter or digit of ASCII stands in no name. -/
theorem Lexeme.IsProper.not_mem {text : List Char} {c : Char}
    (proper : (Lexeme.name text).IsProper) (hc : c.isAlphanum = false) :
    c ∉ text := by
  intro h
  have := List.all_eq_true.1 proper.2 c h
  rw [hc] at this
  cases this

theorem isBracketPair_parens :
    IsBracketPair '(' ')' .openParen .closeParen := by
  refine ⟨rfl, rfl, by decide, by decide, by decide, ?_⟩
  intro l proper hleft hright
  cases l with
  | name text => exact ⟨proper.not_mem (by decide), proper.not_mem (by decide)⟩
  | openParen => exact absurd rfl hleft
  | closeParen => exact absurd rfl hright
  | _ => decide

theorem isBracketPair_braces :
    IsBracketPair '{' '}' .openBrace .closeBrace := by
  refine ⟨rfl, rfl, by decide, by decide, by decide, ?_⟩
  intro l proper hleft hright
  cases l with
  | name text => exact ⟨proper.not_mem (by decide), proper.not_mem (by decide)⟩
  | openBrace => exact absurd rfl hleft
  | closeBrace => exact absurd rfl hright
  | _ => decide

namespace Reader

variable {α : Type} [DecidableEq α] {opening closing : α}

theorem isBalanced_opening (depth : Nat) (xs : List α) :
    isBalanced opening closing depth (opening :: xs) =
      isBalanced opening closing (depth + 1) xs := by
  simp [isBalanced]

theorem isBalanced_closing (differ : closing ≠ opening) (depth : Nat)
    (xs : List α) :
    isBalanced opening closing (depth + 1) (closing :: xs) =
      isBalanced opening closing depth xs := by
  simp [isBalanced, differ]

theorem isBalanced_zero_closing (differ : closing ≠ opening) (xs : List α) :
    isBalanced opening closing 0 (closing :: xs) = false := by
  simp [isBalanced, differ]

theorem isBalanced_other {x : α} (ho : x ≠ opening) (hc : x ≠ closing)
    (depth : Nat) (xs : List α) :
    isBalanced opening closing depth (x :: xs) =
      isBalanced opening closing depth xs := by
  simp [isBalanced, ho, hc]

/-- What is neither an opening nor a closing mark does not count. -/
theorem isBalanced_append (depth : Nat) {xs : List α} (ys : List α)
    (ho : opening ∉ xs) (hc : closing ∉ xs) :
    isBalanced opening closing depth (xs ++ ys) =
      isBalanced opening closing depth ys := by
  induction xs with
  | nil => rfl
  | cons x xs ih =>
    obtain ⟨ho, ho'⟩ := List.ne_and_not_mem_of_not_mem_cons ho
    obtain ⟨hc, hc'⟩ := List.ne_and_not_mem_of_not_mem_cons hc
    rw [List.cons_append, isBalanced_other ho.symm hc.symm, ih ho' hc']

/-- The brackets of a text are balanced if those of its lexemes are. -/
theorem isBalanced_render {opening closing : Char} {left right : Lexeme}
    (pair : IsBracketPair opening closing left right) {ts : List Token}
    {tail : List Char} (htail : ∀ c ∈ tail, Text.isBlank c = true)
    (sound : ∀ t ∈ ts,
      (∀ c ∈ t.gap, Text.isBlank c = true) ∧ t.lexeme.IsProper)
    (depth : Nat) :
    isBalanced opening closing depth (Token.render ts ++ tail) =
      isBalanced left right depth (ts.map Token.lexeme) := by
  have visible : ∀ {gap : List Char}, (∀ c ∈ gap, Text.isBlank c = true) →
      opening ∉ gap ∧ closing ∉ gap := by
    intro gap blank
    constructor <;> intro h
    · exact absurd (blank _ h) (by simp [pair.opening_visible])
    · exact absurd (blank _ h) (by simp [pair.closing_visible])
  induction ts generalizing depth with
  | nil =>
    obtain ⟨ho, hc⟩ := visible htail
    have := isBalanced_append depth [] ho hc
    simpa [Token.render, isBalanced] using this
  | cons t ts ih =>
    obtain ⟨⟨blank, proper⟩, sound⟩ := List.forall_mem_cons.1 sound
    have ih := ih sound
    obtain ⟨ho, hc⟩ := visible blank
    have start : Token.render (t :: ts) ++ tail =
        t.gap ++ (t.lexeme.chars ++ (Token.render ts ++ tail)) := by
      simp [Token.render, Token.chars]
    rw [start, isBalanced_append _ _ ho hc, List.map_cons]
    by_cases hl : t.lexeme = left
    · rw [hl, pair.left_chars, List.singleton_append, isBalanced_opening,
        isBalanced_opening, ih]
    by_cases hr : t.lexeme = right
    · rw [hr] at hl ⊢
      rw [pair.right_chars, List.singleton_append]
      cases depth with
      | zero =>
        rw [isBalanced_zero_closing pair.differ, isBalanced_zero_closing hl]
      | succ depth =>
        rw [isBalanced_closing pair.differ, isBalanced_closing hl, ih]
    · obtain ⟨ho, hc⟩ := pair.alone _ proper hl hr
      rw [isBalanced_append _ _ ho hc, isBalanced_other hl hr, ih]

/-- The brackets of a text are those of its tokens. -/
theorem isBalanced_of_ofText {opening closing : Char} {left right : Lexeme}
    (pair : IsBracketPair opening closing left right) {cs : List Char}
    {ts : List Token} (h : Token.ofText cs = .ok ts) :
    isBalanced opening closing 0 cs =
      isBalanced left right 0 (ts.map Token.lexeme) := by
  obtain ⟨⟨tail, blank, hcs⟩, sound⟩ := Token.render_of_ofText h
  rw [hcs]
  exact isBalanced_render pair blank sound 0

/-- The check of brackets can be made on the lexemes of a text. -/
theorem tokens_eq_ok {cs : List Char} {ts : List Token} :
    tokens cs = .ok ts ↔ Token.ofText cs = .ok ts ∧
      isBalanced .openParen .closeParen 0 (ts.map Token.lexeme) = true ∧
      isBalanced .openBrace .closeBrace 0 (ts.map Token.lexeme) = true := by
  have same (h : Token.ofText cs = .ok ts) :=
    And.intro (isBalanced_of_ofText isBracketPair_parens h)
      (isBalanced_of_ofText isBracketPair_braces h)
  unfold tokens
  split
  · next balanced =>
    rw [Bool.and_eq_true] at balanced
    constructor
    · intro h
      obtain ⟨parens, braces⟩ := same h
      exact ⟨h, parens ▸ balanced.1, braces ▸ balanced.2⟩
    · exact And.left
  · next unbalanced =>
    constructor
    · intro h
      cases h
    · intro h
      obtain ⟨h, hparens, hbraces⟩ := h
      obtain ⟨parens, braces⟩ := same h
      exact absurd (by rw [parens, braces, hparens, hbraces]; rfl) unbalanced

end Reader

-- ======================================================================= names

namespace Reader

variable {reader : Reader}

theorem iriOf_eq_ok {name : List Char} {iri : Iri} :
    reader.iriOf name = .ok iri ↔
      (reader.named name).IsValid ∧ iri = reader.named name := by
  unfold iriOf named
  split
  · next made =>
    obtain ⟨valid, rfl⟩ := Iri.ofText_eq_ok.1 made
    constructor
    · intro h
      cases h
      exact ⟨valid, rfl⟩
    · intro h
      rw [h.2]
  · next failed =>
    constructor
    · intro h
      cases h
    · intro h
      rw [Iri.ofText_eq_ok.2 ⟨h.1, rfl⟩] at failed
      cases failed

/-- Where all names are valid, a proper name is read. -/
theorem NamesValid.iriOf (valid : reader.NamesValid) {name : List Char}
    (proper : (Lexeme.name name).IsProper) :
    reader.iriOf name = .ok (reader.named name) :=
  iriOf_eq_ok.2 ⟨valid name proper.1 proper.2, rfl⟩

end Reader

end ContextDL
