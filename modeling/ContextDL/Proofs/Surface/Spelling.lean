/-
Spelling: texts that are read as given lexemes.

A printer puts a text together out of marks, blanks and names. `Spells` says
that a text is read as some lexemes in front of anything that cannot go on
with a name, and the lemmas here follow the printer piece by piece. A mark or
a blank ends whatever stands in front of it, so the only place where two
pieces could run into each other is behind a name; what is printed there
always starts with a mark or a blank (`Breaks`).
-/
import ContextDL.Concept.Printer
import ContextDL.Proofs.Surface.Lexing

namespace ContextDL

-- ================================================================== characters

namespace Lexeme

theorem isBlank_eq_false_of_isAlphanum {c : Char}
    (h : c.isAlphanum = true) : Text.isBlank c = false := by
  have bound : c.toNat < 128 := by
    delta Char.isAlphanum Char.isAlpha Char.isUpper Char.isLower
      Char.isDigit at h
    simp only [Bool.or_eq_true, Bool.and_eq_true, decide_eq_true_eq,
      UInt32.le_iff_toNat_le, ge_iff_le] at h
    have : c.toNat = c.val.toNat := rfl
    simp at h
    omega
  have table : ∀ n < 128, (Char.ofNat n).isAlphanum = true →
      Text.isBlank (Char.ofNat n) = false := by
    decide +kernel
  have at' := table c.toNat bound
  rw [Char.ofNat_toNat] at at'
  exact at' h

theorem ofMark?_eq_none_of_isAlphanum {c : Char}
    (h : c.isAlphanum = true) : ofMark? c = none := by
  unfold ofMark?
  split
  all_goals first | rfl | exact absurd h (by decide)

theorem isBlank_eq_false_of_ofMark? {c : Char} {l : Lexeme}
    (h : ofMark? c = some l) : Text.isBlank c = false := by
  unfold ofMark? at h
  split at h
  all_goals first | decide | cases h

theorem isNameChar_eq_false_of_ofMark? {c : Char} {l : Lexeme}
    (h : ofMark? c = some l) : isNameChar c = false := by
  unfold ofMark? at h
  split at h
  all_goals first | decide +kernel | cases h

theorem isNameChar_of_isAlphanum {c : Char} (h : c.isAlphanum = true) :
    isNameChar c = true := by
  simp [isNameChar, Text.isAlphanumeric_of_isAlphanum h]

-- ======================================================================= steps

/-- The lexemes of a text, from the first character that is not blank. -/
theorem ofText_eq (cs : List Char) :
    ofText cs =
      match cs.dropWhile Text.isBlank with
      | [] => .ok []
      | c :: rest =>
        match read c rest with
        | .error e => .error e
        | .ok (l, left) => (l :: ·) <$> ofText left := by
  unfold ofText
  rw [Token.ofText]
  split
  · next h =>
    rw [h]
    rfl
  · next c rest h =>
    simp only [h]
    split
    · next hread =>
      rw [hread]
      rfl
    · next left hread =>
      rw [hread]
      dsimp only
      cases Token.ofText left <;> rfl

theorem ofText_blank {c : Char} (h : Text.isBlank c = true)
    (cs : List Char) : ofText (c :: cs) = ofText cs := by
  rw [ofText_eq, ofText_eq cs, List.dropWhile_cons_of_pos h]

theorem ofText_read {c : Char} {rest left : List Char} {l : Lexeme}
    (visible : Text.isBlank c = false) (h : read c rest = .ok (l, left)) :
    ofText (c :: rest) = (l :: ·) <$> ofText left := by
  rw [ofText_eq, List.dropWhile_cons_of_neg (by simp [visible])]
  dsimp only
  rw [h]

theorem ofText_mark {c : Char} {l : Lexeme} (h : ofMark? c = some l)
    (rest : List Char) : ofText (c :: rest) = (l :: ·) <$> ofText rest := by
  refine ofText_read (isBlank_eq_false_of_ofMark? h) ?_
  unfold read
  rw [h]

theorem ofText_inverse (rest : List Char) :
    ofText ('^' :: '-' :: '1' :: rest) = (.inverse :: ·) <$> ofText rest :=
  ofText_read (by decide) rfl

/-- Characters in front of which a name ends. -/
def Breaks (cs : List Char) : Prop :=
  ∀ c ∈ cs.head?, isNameChar c = false

theorem ofText_name {name rest : List Char} (proper : (Lexeme.name name).IsProper)
    (breaks : Breaks rest) :
    ofText (name ++ rest) = (.name name :: ·) <$> ofText rest := by
  obtain ⟨nonempty, alphanum⟩ := proper
  cases name with
  | nil => exact absurd rfl nonempty
  | cons c cs =>
    have all := List.all_eq_true.1 alphanum
    obtain ⟨hc, hcs⟩ := List.forall_mem_cons.1 all
    have word : ∀ d ∈ cs, isNameChar d = true := by
      intro d hd
      exact isNameChar_of_isAlphanum (hcs d hd)
    have run : (cs ++ rest).takeWhile isNameChar = cs ∧
        (cs ++ rest).dropWhile isNameChar = rest := by
      rw [List.takeWhile_append_of_pos word, List.dropWhile_append_of_pos word]
      cases rest with
      | nil => simp
      | cons d rest =>
        have hd : isNameChar d = false := breaks d rfl
        simp [hd]
    rw [List.cons_append]
    refine ofText_read (isBlank_eq_false_of_isAlphanum hc) ?_
    have noCaret : c ≠ '^' := by
      intro h
      rw [h] at hc
      cases hc
    unfold read
    rw [ofMark?_eq_none_of_isAlphanum hc]
    dsimp only
    rw [if_neg noCaret, if_pos (isNameChar_of_isAlphanum hc), run.1, run.2,
      if_pos alphanum]

end Lexeme

-- ==================================================================== spelling

open Lexeme

/-- A text is read as some lexemes, in front of anything that does not go on
with a name. -/
def Spells (cs : List Char) (ls : List Lexeme) : Prop :=
  ∀ rest, Breaks rest → ofText (cs ++ rest) = (ls ++ ·) <$> ofText rest

theorem Lexeme.breaks_cons {c : Char} (h : isNameChar c = false)
    (cs : List Char) : Breaks (c :: cs) := by
  intro d hd
  cases hd
  exact h

namespace Spells

variable {cs ds : List Char} {ls ms : List Lexeme}

theorem ofText_eq_ok (h : Spells cs ls) : ofText cs = .ok ls := by
  have whole := h [] (by simp [Breaks])
  rw [List.append_nil] at whole
  rw [whole, ofText_eq]
  show Except.ok (ls ++ []) = _
  rw [List.append_nil]

theorem nil : Spells [] [] := by
  intro rest _
  rw [List.nil_append]
  cases ofText rest <;> rfl

theorem mark {c : Char} {l : Lexeme} (hc : ofMark? c = some l)
    (h : Spells cs ls) : Spells (c :: cs) (l :: ls) := by
  intro rest breaks
  rw [List.cons_append, ofText_mark hc, h rest breaks]
  cases ofText rest <;> rfl

theorem blank {c : Char} (hc : Text.isBlank c = true) (h : Spells cs ls) :
    Spells (c :: cs) ls := by
  intro rest breaks
  rw [List.cons_append, ofText_blank hc, h rest breaks]

theorem inverse_cons (h : Spells cs ls) :
    Spells ('^' :: '-' :: '1' :: cs) (.inverse :: ls) := by
  intro rest breaks
  rw [List.cons_append, List.cons_append, List.cons_append, ofText_inverse,
    h rest breaks]
  cases ofText rest <;> rfl

theorem inverse : Spells ['^', '-', '1'] [.inverse] :=
  inverse_cons nil

theorem name {text : List Char} (proper : (Lexeme.name text).IsProper) :
    Spells text [.name text] := by
  intro rest breaks
  exact ofText_name proper breaks

theorem append (hcs : Spells cs ls) (hds : Spells ds ms) (breaks : Breaks ds) :
    Spells (cs ++ ds) (ls ++ ms) := by
  intro rest hrest
  have breaks' : Breaks (ds ++ rest) := by
    cases ds with
    | nil => exact hrest
    | cons d ds => exact breaks
  rw [List.append_assoc, hcs _ breaks', hds rest hrest]
  cases ofText rest with
  | error e => rfl
  | ok ks =>
    show Except.ok (ls ++ (ms ++ ks)) = Except.ok (ls ++ ms ++ ks)
    rw [List.append_assoc]

theorem append_mark {c : Char} {l : Lexeme} (hc : ofMark? c = some l)
    (hcs : Spells cs ls) (hds : Spells ds ms) :
    Spells (cs ++ c :: ds) (ls ++ l :: ms) :=
  hcs.append (mark hc hds)
    (breaks_cons (isNameChar_eq_false_of_ofMark? hc) ds)

theorem append_space (hcs : Spells cs ls) (hds : Spells ds ms) :
    Spells (cs ++ ' ' :: ds) (ls ++ ms) :=
  hcs.append (blank (by decide) hds) (breaks_cons (by decide +kernel) ds)

/-- A text between two marks. -/
theorem enclosed {opening closing : Char} {left right : Lexeme}
    (hopening : ofMark? opening = some left)
    (hclosing : ofMark? closing = some right) (h : Spells cs ls) :
    Spells (opening :: cs ++ [closing]) (left :: ls ++ [right]) :=
  mark hopening (append_mark hclosing h nil)

theorem bracketed (h : Spells cs ls) :
    Spells (ContextDL.bracketed cs) (.openParen :: ls ++ [.closeParen]) :=
  @enclosed cs ls '(' ')' _ _ rfl rfl h

/-- A text with another behind it in parentheses. -/
theorem applied (hcs : Spells cs ls) (hds : Spells ds ms) :
    Spells (cs ++ ContextDL.bracketed ds)
      (ls ++ (.openParen :: ms ++ [.closeParen])) :=
  hcs.append hds.bracketed
    (breaks_cons (isNameChar_eq_false_of_ofMark? (l := .openParen) rfl) _)

/-- Two texts with a mark between them that stands between spaces. -/
theorem joined {c : Char} {l : Lexeme} (hc : ofMark? c = some l)
    (hcs : Spells cs ls) (hds : Spells ds ms) :
    Spells (cs ++ [' ', c, ' '] ++ ds) (ls ++ l :: ms) := by
  rw [List.append_assoc]
  exact hcs.append_space (mark hc (blank (by decide) hds))

end Spells

end ContextDL
