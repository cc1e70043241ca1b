/-
Blanks between lexemes do not matter.

A text writes some lexemes if it has them one after the other with blanks
between them, and at the two ends (`Writes`). There need not be any blanks, but
for two names next to each other, which would run into one. So there are many
ways to write the same lexemes, and all of them are read alike.

# From the text to the lexemes

The lexer finds the lexemes again (`Writes.ofText`): a mark ends with itself,
and a name in front of whatever may stand behind it. The check of brackets is a
check of the lexemes as well.

# Two runs at once

From there on two runs have tokens with the same lexemes and other gaps
(`SameLexemes`). `Alike` compares the outcomes: related values, or errors of one
cause. The fragments of the errors differ, since they quote the gaps. Readers
decide by lexemes, so each step takes alike tokens to alike outcomes, and runs
are compared part by part (`Alike.bind`).
-/
import Mathlib.Data.List.Forall2
import ContextDL.Proofs.Surface.Nesting
import ContextDL.Proofs.Surface.Spelling

namespace ContextDL

open Lexeme

-- ======================================================================= texts

/-- A lexeme that is a name. -/
def Lexeme.IsName : Lexeme → Prop
  | .name _ => True
  | _ => False

/-- Tokens as they may be written: blanks in front of proper lexemes, one at
least between two names. -/
structure Token.IsSpaced (ts : List Token) : Prop where
  blank : ∀ t ∈ ts, ∀ c ∈ t.gap, Text.isBlank c = true
  proper : ∀ t ∈ ts, t.lexeme.IsProper
  apart : ts.IsChain fun s t =>
    s.lexeme.IsName → t.lexeme.IsName → t.gap ≠ []

/-- A text consists of some lexemes, and of blanks in front of, between and
behind them. -/
def Writes (text : List Char) (ls : List Lexeme) : Prop :=
  ∃ ts tail, ts.map Token.lexeme = ls ∧ Token.IsSpaced ts ∧
    (∀ c ∈ tail, Text.isBlank c = true) ∧ text = Token.render ts ++ tail

/-- The code points of the blanks. -/
def Text.blankPoints : List Nat :=
  List.range' 0x9 5 ++ List.range' 0x2000 11 ++
    [0x20, 0x85, 0xA0, 0x1680, 0x2028, 0x2029, 0x202F, 0x205F, 0x3000]

theorem Text.mem_blankPoints {c : Char} (h : isBlank c = true) :
    c.toNat ∈ blankPoints := by
  have same : c.toNat = c.val.toNat := rfl
  simp only [isBlank, Bool.or_eq_true, Bool.and_eq_true, decide_eq_true_eq,
    beq_iff_eq, UInt32.le_iff_toNat_le, ← UInt32.toNat_inj] at h
  simp [blankPoints, List.mem_range'_1] at h ⊢
  omega

/-- No name goes on over a blank. -/
theorem Lexeme.isNameChar_eq_false_of_isBlank {c : Char}
    (h : Text.isBlank c = true) : isNameChar c = false := by
  have table : Text.blankPoints.all
      (fun n => isNameChar (Char.ofNat n) == false) = true := by
    decide +kernel
  have at' := List.all_eq_true.1 table _ (Text.mem_blankPoints h)
  rwa [Char.ofNat_toNat, beq_iff_eq] at at'

-- ====================================================================== lexing

/-- Blanks in front do not count. -/
theorem Spells.blanks {gap cs : List Char} {ls : List Lexeme}
    (blank : ∀ c ∈ gap, Text.isBlank c = true) (h : Spells cs ls) :
    Spells (gap ++ cs) ls := by
  induction gap with
  | nil => exact h
  | cons c gap ih =>
    obtain ⟨hc, hgap⟩ := List.forall_mem_cons.1 blank
    exact .blank hc (ih hgap)

/-- A lexeme that is no name is read in front of anything. -/
theorem Spells.cons {l : Lexeme} (mark : ¬l.IsName) {cs : List Char}
    {ls : List Lexeme} (h : Spells cs ls) :
    Spells (l.chars ++ cs) (l :: ls) := by
  cases l with
  | name text => exact absurd trivial mark
  | inverse => exact h.inverse_cons
  | _ => exact .mark rfl h

/-- A name ends in front of a blank, and in front of a lexeme that is none. -/
theorem Token.IsSpaced.breaks {ts : List Token} (spaced : IsSpaced ts)
    (first : ∀ t ∈ ts.head?, t.lexeme.IsName → t.gap ≠ []) {tail : List Char}
    (blank : ∀ c ∈ tail, Text.isBlank c = true) :
    Breaks (render ts ++ tail) := by
  have ends {c : Char} {cs : List Char} (h : Text.isBlank c = true) :
      Breaks (c :: cs) :=
    breaks_cons (isNameChar_eq_false_of_isBlank h) cs
  cases ts with
  | nil =>
    cases tail with
    | nil => simp [Breaks, render]
    | cons c tail => exact ends (blank c List.mem_cons_self)
  | cons t ts =>
    have gap := spaced.blank t List.mem_cons_self
    obtain ⟨_ | ⟨c, gap⟩, l⟩ := t
    · have mark : ¬l.IsName := fun name => first _ rfl name rfl
      cases l with
      | name text => exact absurd trivial mark
      | inverse => exact breaks_cons (by decide +kernel) _
      | _ => exact breaks_cons (isNameChar_eq_false_of_ofMark? rfl) _
    · exact ends (gap c List.mem_cons_self)

/-- Tokens that are written down are read as their lexemes. -/
theorem Token.IsSpaced.spells {ts : List Token} (spaced : IsSpaced ts)
    {tail : List Char} (blank : ∀ c ∈ tail, Text.isBlank c = true) :
    Spells (render ts ++ tail) (ts.map Token.lexeme) := by
  induction ts with
  | nil =>
    have empty := Spells.nil.blanks blank
    rwa [List.append_nil] at empty
  | cons t ts ih =>
    have rest : IsSpaced ts :=
      ⟨fun u hu => spaced.blank u (List.mem_cons_of_mem _ hu),
        fun u hu => spaced.proper u (List.mem_cons_of_mem _ hu),
        spaced.apart.of_cons⟩
    have start : render (t :: ts) ++ tail =
        t.gap ++ (t.lexeme.chars ++ (render ts ++ tail)) := by
      simp [render, chars]
    rw [start, List.map_cons]
    refine Spells.blanks (spaced.blank t List.mem_cons_self) ?_
    by_cases name : t.lexeme.IsName
    · have proper := spaced.proper t List.mem_cons_self
      have breaks : Breaks (render ts ++ tail) := by
        refine rest.breaks (fun u hu other => ?_) blank
        obtain ⟨us, rfl⟩ := List.head?_eq_some_iff.1 hu
        exact (List.isChain_cons_cons.1 spaced.apart).1 name other
      cases hl : t.lexeme with
      | name text => exact (Spells.name (hl ▸ proper)).append (ih rest) breaks
      | _ => rw [hl] at name; exact absurd name id
    · exact .cons name (ih rest)

/-- The lexemes of a text that writes them are found again. -/
theorem Writes.ofText {text : List Char} {ls : List Lexeme}
    (h : Writes text ls) : Lexeme.ofText text = .ok ls := by
  obtain ⟨ts, tail, rfl, spaced, blank, rfl⟩ := h
  exact (spaced.spells blank).ofText_eq_ok

-- ==================================================================== outcomes

variable {α β γ δ : Type}

/-- Two runs that end well with related values, or fail for the same cause. -/
inductive Alike (R : α → β → Prop) :
    Except ReadError α → Except ReadError β → Prop where
  | ok {a : α} {b : β} (h : R a b) : Alike R (.ok a) (.ok b)
  | error {cause : ReadError.Cause} {fragment fragment' : List Char} :
      Alike R (.error ⟨cause, fragment⟩) (.error ⟨cause, fragment'⟩)

/-- The same value, or errors of the same kind. -/
abbrev SameOutcome : Except ReadError α → Except ReadError α → Prop :=
  Alike Eq

/-- Where the one succeeds, the other does with the same value. -/
theorem SameOutcome.eq_ok {x y : Except ReadError α} {a : α}
    (same : SameOutcome x y) (h : x = .ok a) : y = .ok a := by
  subst h
  cases same with
  | ok equal => rw [equal]

/-- The same lexemes behind other gaps. -/
abbrev SameLexemes : List Token → List Token → Prop :=
  List.Forall₂ fun t u => t.lexeme = u.lexeme

/-- The same value, with the same lexemes left. -/
def SameParsed (p q : Parsed α) : Prop :=
  p.1 = q.1 ∧ SameLexemes p.2 q.2

namespace Alike

variable {R : α → β → Prop} {S : γ → δ → Prop}

theorem bind {x : Except ReadError α} {y : Except ReadError β}
    {f : α → Except ReadError γ} {g : β → Except ReadError δ}
    (first : Alike R x y) (next : ∀ a b, R a b → Alike S (f a) (g b)) :
    Alike S (x >>= f) (y >>= g) := by
  cases first with
  | ok h => exact next _ _ h
  | error => exact .error

theorem mapM {f : α → Except ReadError γ} {g : β → Except ReadError δ}
    {xs : List α} {ys : List β} (members : List.Forall₂ R xs ys)
    (each : ∀ a b, R a b → Alike S (f a) (g b)) :
    Alike (List.Forall₂ S) (xs.mapM f) (ys.mapM g) := by
  induction members with
  | nil => exact .ok .nil
  | cons h _ ih =>
    rw [List.mapM_cons, List.mapM_cons]
    refine (each _ _ h).bind fun c d hcd => ?_
    exact ih.bind fun cs ds hs => .ok (.cons hcd hs)

/-- The next step gets the value that was read, and what is left of both. -/
theorem bind_parsed {x y : Except ReadError (Parsed α)}
    {f g : Parsed α → Except ReadError β} {T : β → β → Prop}
    (first : Alike SameParsed x y)
    (next : ∀ a ts us, SameLexemes ts us → Alike T (f (a, ts)) (g (a, us))) :
    Alike T (x >>= f) (y >>= g) := by
  refine first.bind fun p q parsed => ?_
  obtain ⟨a, ts⟩ := p
  obtain ⟨_, us⟩ := q
  obtain ⟨rfl, same⟩ := parsed
  exact next a ts us same

end Alike

theorem sameLexemes_iff {ts us : List Token} :
    SameLexemes ts us ↔ ts.map Token.lexeme = us.map Token.lexeme := by
  rw [← List.forall₂_eq_eq_eq, List.forall₂_map_left_iff,
    List.forall₂_map_right_iff]

-- ======================================================================= steps

namespace Reader

variable {reader : Reader} {whole whole' start start' ts us : List Token}

/-- What does not read tokens ends alike. -/
theorem SameOutcome.refl (x : Except ReadError α) : SameOutcome x x := by
  cases x with
  | ok a => exact .ok rfl
  | error e => exact .error

theorem alike_closeParen (h : SameLexemes ts us) :
    Alike SameLexemes (closeParen ts) (closeParen us) := by
  cases h with
  | nil => exact .error
  | @cons t u ts us same rest =>
    rw [closeParen, closeParen, same]
    split
    · exact .ok rest
    · exact .error

theorem alike_takeDot (h : SameLexemes ts us) :
    Alike SameLexemes (takeDot start ts) (takeDot start' us) := by
  cases h with
  | nil => exact .error
  | @cons t u ts us same rest =>
    rw [takeDot, takeDot, same]
    split
    · exact .ok rest
    · exact .error

theorem alike_readNumber (h : SameLexemes ts us) :
    Alike SameParsed (readNumber whole ts) (readNumber whole' us) := by
  cases h with
  | nil => exact .error
  | @cons t u ts us same rest =>
    rw [readNumber, readNumber, Token.chars, Token.chars, same]
    split
    · split
      · exact .ok ⟨rfl, rest⟩
      · exact .error
    · exact .error

theorem alike_readMembers {ts us : List Token} (h : SameLexemes ts us) :
    Alike SameParsed (reader.readMembers whole ts)
      (reader.readMembers whole' us) := by
  cases h with
  | nil => exact .error
  | @cons t u ts us same rest =>
    rw [readMembers.eq_def, readMembers.eq_def reader whole']
    dsimp only
    rw [Token.chars, Token.chars, same]
    cases u.lexeme with
    | name text =>
      refine (SameOutcome.refl _).bind fun a b hab => ?_
      subst hab
      cases rest with
      | nil => exact .error
      | @cons s v ts us same rest =>
        dsimp only
        rw [Token.chars, Token.chars, same]
        cases v.lexeme with
        | comma =>
          exact (alike_readMembers rest).bind_parsed fun _ _ _ same =>
            .ok ⟨rfl, same⟩
        | closeBrace => exact .ok ⟨rfl, rest⟩
        | _ => exact .error
    | _ => exact .error

theorem sameParsed_readInverses (role : Role) (h : SameLexemes ts us) :
    SameParsed (readInverses role ts) (readInverses role us) := by
  induction h generalizing role with
  | nil => exact ⟨rfl, .nil⟩
  | @cons t u ts us same rest ih =>
    rw [readInverses, readInverses, same]
    split
    · exact ih role.inverted
    · exact ⟨rfl, .cons same rest⟩

theorem alike_readRole (budget : Nat) (h : SameLexemes ts us) :
    Alike SameParsed (reader.readRole whole budget ts)
      (reader.readRole whole' budget us) := by
  induction budget generalizing ts us with
  | zero => exact .error
  | succ budget ih =>
    cases h with
    | nil => exact .error
    | @cons t u ts us same rest =>
      rw [readRole, readRole, Token.chars, Token.chars, same]
      cases u.lexeme with
      | name text =>
        refine (SameOutcome.refl _).bind fun a b hab => ?_
        subst hab
        exact .ok (sameParsed_readInverses _ rest)
      | openParen =>
        refine (ih rest).bind_parsed fun r _ _ left => ?_
        exact (alike_closeParen left).bind fun _ _ after =>
          .ok (sameParsed_readInverses r after)
      | _ => exact .error

-- ====================================================================== chains

section Steps

variable {item item' : Step Concept}

/-- Two steps that take alike tokens to alike outcomes. -/
def AlikeSteps (step step' : Step α) : Prop :=
  ∀ ts us, SameLexemes ts us → Alike SameParsed (step ts) (step' us)

theorem alike_readOperands (items : AlikeSteps item item') (operator : Lexeme)
    (bound : Nat) (h : SameLexemes ts us) :
    Alike SameParsed (readOperands item operator bound ts)
      (readOperands item' operator bound us) := by
  induction bound generalizing ts us with
  | zero =>
    cases h with
    | nil => exact .ok ⟨rfl, .nil⟩
    | cons same rest => exact .ok ⟨rfl, .cons same rest⟩
  | succ bound ih =>
    cases h with
    | nil => exact .ok ⟨rfl, .nil⟩
    | @cons t u ts us same rest =>
      rw [readOperands, readOperands, same]
      split
      · refine (items ts us rest).bind_parsed fun _ _ _ left => ?_
        exact (ih left).bind_parsed fun _ _ _ after => .ok ⟨rfl, after⟩
      · exact .ok ⟨rfl, .cons same rest⟩

theorem alike_readChain (items : AlikeSteps item item') (operator : Lexeme)
    (node : List Concept → Concept) :
    AlikeSteps (readChain item operator node)
      (readChain item' operator node) := by
  intro ts us h
  refine (items ts us h).bind_parsed fun c left left' same => ?_
  dsimp only
  rw [same.length_eq]
  exact (alike_readOperands items operator _ same).bind_parsed
    fun _ _ _ after => .ok ⟨rfl, after⟩

theorem alike_readInter (items : AlikeSteps item item') :
    AlikeSteps (readInter item) (readInter item') :=
  alike_readChain (alike_readChain items .join .union) .meet .inter

theorem alike_readRestriction {role role' : Step Role}
    (roles : AlikeSteps role role') (fillers : AlikeSteps item item')
    (q : Quantifier) :
    AlikeSteps (readRestriction start role item q)
      (readRestriction start' role' item' q) := by
  intro ts us h
  refine (roles ts us h).bind_parsed fun _ _ _ left => ?_
  refine (alike_takeDot left).bind fun after after' same => ?_
  exact (fillers after after' same).bind_parsed fun _ _ _ left =>
    .ok ⟨rfl, left⟩

theorem alike_counted {next next' : Quantifier → Step Concept}
    (nexts : ∀ q, AlikeSteps (next q) (next' q))
    (quantifier : UInt32 → Quantifier) (h : SameLexemes ts us) :
    Alike SameParsed
      (do
        let (n, left) ← readNumber whole ts
        next (quantifier n) left)
      (do
        let (n, left) ← readNumber whole' us
        next' (quantifier n) left) :=
  (alike_readNumber h).bind_parsed fun n left left' same =>
    nexts (quantifier n) left left' same

end Steps

theorem alike_readFactor (budget : Nat) :
    AlikeSteps (reader.readFactor whole budget)
      (reader.readFactor whole' budget) := by
  induction budget with
  | zero => exact fun _ _ _ => .error
  | succ budget factors =>
    intro ts us h
    cases h with
    | nil => exact .error
    | @cons t u ts us same rest =>
      have roles : AlikeSteps (reader.readRole whole budget)
          (reader.readRole whole' budget) :=
        fun _ _ h => alike_readRole budget h
      have restriction (q : Quantifier) :
          AlikeSteps (readRestriction (t :: ts) _ _ q)
            (readRestriction (u :: us) _ _ q) :=
        alike_readRestriction roles factors q
      rw [readFactor, readFactor, Token.chars, Token.chars, same]
      dsimp only
      cases u.lexeme with
      | complement =>
        exact (factors ts us rest).bind_parsed fun _ _ _ left =>
          .ok ⟨rfl, left⟩
      | existential => exact restriction _ ts us rest
      | universal => exact restriction _ ts us rest
      | atLeast => exact alike_counted restriction .atLeast rest
      | atMost => exact alike_counted restriction .atMost rest
      | exactly => exact alike_counted restriction .exactly rest
      | top => exact .ok ⟨rfl, rest⟩
      | bottom => exact .ok ⟨rfl, rest⟩
      | name text =>
        refine (SameOutcome.refl _).bind fun a b hab => ?_
        subst hab
        exact .ok ⟨rfl, rest⟩
      | openBrace =>
        exact (alike_readMembers rest).bind_parsed fun _ _ _ left =>
          .ok ⟨rfl, left⟩
      | openParen =>
        refine (alike_readInter factors ts us rest).bind_parsed
          fun _ _ _ left => ?_
        exact (alike_closeParen left).bind fun _ _ after => .ok ⟨rfl, after⟩
      | _ => exact .error

-- =========================================================== whole expressions

theorem alike_finish {x y : Except ReadError (Parsed α)}
    (h : Alike SameParsed x y) : SameOutcome (finish x) (finish y) := by
  refine h.bind_parsed fun a ts us left => ?_
  cases left with
  | nil => exact .ok rfl
  | cons _ _ => exact .error

theorem alike_conceptOfTokens (h : SameLexemes ts us) :
    SameOutcome (reader.conceptOfTokens ts) (reader.conceptOfTokens us) :=
  alike_finish (alike_readInter (alike_readFactor _) ts us h)

theorem alike_roleOfTokens (h : SameLexemes ts us) :
    SameOutcome (reader.roleOfTokens ts) (reader.roleOfTokens us) :=
  alike_finish (alike_readRole _ h)

-- ================================================================== statements

/-- Parts of a text with the same lexemes, one by one. -/
abbrev SameParts : List (List Token) → List (List Token) → Prop :=
  List.Forall₂ SameLexemes

theorem alike_cutTag (h : SameLexemes ts us) :
    Alike (fun p q => SameLexemes p.1 q.1 ∧ p.2 = q.2)
      (Token.cutTag ts) (Token.cutTag us) := by
  induction h with
  | nil => exact .ok ⟨.nil, rfl⟩
  | @cons t u ts us same rest ih =>
    rw [Token.cutTag.eq_def, Token.cutTag.eq_def (u :: us)]
    dsimp only
    rw [same]
    split
    · cases rest with
      | nil => exact .error
      | @cons s v _ _ same rest =>
        obtain ⟨_, l⟩ := s
        obtain ⟨_, _⟩ := v
        cases same
        cases rest with
        | nil =>
          cases l with
          | name text => exact .ok ⟨.nil, rfl⟩
          | _ => exact .error
        | cons _ _ => cases l <;> exact .error
    · exact ih.bind fun p q cut => .ok ⟨.cons same cut.1, cut.2⟩

theorem sameParts_splitInclusion (depth : Nat) (h : SameLexemes ts us) :
    SameParts (Token.splitInclusion depth ts)
      (Token.splitInclusion depth us) := by
  induction h generalizing depth with
  | nil => exact .cons .nil .nil
  | @cons t u ts us same rest ih =>
    rw [Token.splitInclusion, Token.splitInclusion, same]
    have parts := ih (Token.openAfter depth u.lexeme)
    split
    · exact .cons .nil parts
    · generalize Token.splitInclusion _ ts = ps at parts
      generalize Token.splitInclusion _ us = qs at parts
      cases parts with
      | nil => exact .cons (.cons same .nil) .nil
      | cons first others => exact .cons (.cons same first) others

theorem sameParts_splitCommas (h : SameLexemes ts us) :
    SameParts (Token.splitCommas ts) (Token.splitCommas us) := by
  induction h with
  | nil => exact .cons .nil .nil
  | @cons t u ts us same rest parts =>
    rw [Token.splitCommas, Token.splitCommas, same]
    generalize Token.splitCommas ts = ps at parts
    generalize Token.splitCommas us = qs at parts
    cases parts with
    | nil => exact .cons (.cons same .nil) .nil
    | cons first others =>
      dsimp only
      split
      · exact .cons .nil (.cons first others)
      · exact .cons (.cons same first) others

/-- Groups are found at the same lexemes. -/
theorem openGroup_sameLexemes {depth : Nat} {group group' : List Token}
    (inner : SameLexemes group group') (h : SameLexemes ts us) :
    Option.Rel (fun p q => SameLexemes p.1 q.1 ∧ SameLexemes p.2 q.2)
      (Token.openGroup depth group ts) (Token.openGroup depth group' us) := by
  induction h generalizing depth group group' with
  | nil => exact .none
  | @cons t u ts us same rest ih =>
    rw [Token.openGroup.eq_def, Token.openGroup.eq_def _ _ (u :: us)]
    dsimp only
    rw [same]
    cases u.lexeme with
    | closeParen => exact ih (.cons same inner)
    | openParen =>
      cases depth with
      | zero => exact .some ⟨List.rel_reverse rest, inner⟩
      | succ depth => exact ih (.cons same inner)
    | _ => exact ih (.cons same inner)

theorem splitGroup_sameLexemes (h : SameLexemes ts us) :
    Option.Rel (fun p q => SameLexemes p.1 q.1 ∧ SameLexemes p.2 q.2)
      (Token.splitGroup ts) (Token.splitGroup us) := by
  have turned : SameLexemes ts.reverse us.reverse := List.rel_reverse h
  rw [Token.splitGroup, Token.splitGroup]
  generalize ts.reverse = ts' at turned
  generalize us.reverse = us' at turned
  cases turned with
  | nil => exact .none
  | @cons t u _ _ same before =>
    dsimp only
    rw [same]
    split
    · exact openGroup_sameLexemes .nil before
    · exact .none

theorem isSingle_sameLexemes (h : SameLexemes ts us) :
    Token.isSingle ts = Token.isSingle us := by
  rw [Bool.eq_iff_iff, Token.isSingle_iff, Token.isSingle_iff]
  unfold Grammar.IsConceptHead
  rw [Grammar.isGroup_iff, Grammar.isGroup_iff, sameLexemes_iff.1 h]

theorem alike_argument {body body' : List Token} (h : SameLexemes ts us) :
    SameOutcome (reader.argument body ts) (reader.argument body' us) := by
  cases h with
  | nil => exact .error
  | @cons t u _ _ same rest =>
    obtain ⟨_, l⟩ := t
    obtain ⟨_, _⟩ := u
    cases same
    cases rest with
    | nil =>
      cases l with
      | name text => exact SameOutcome.refl _
      | _ => exact .error
    | cons _ _ => cases l <;> exact .error

theorem alike_assertion (h : SameLexemes ts us) :
    SameOutcome (reader.assertion ts) (reader.assertion us) := by
  have groups := splitGroup_sameLexemes h
  rw [assertion, assertion]
  generalize Token.splitGroup ts = g at groups
  generalize Token.splitGroup us = g' at groups
  cases groups with
  | none => exact .error
  | @some p q same =>
    obtain ⟨head, group⟩ := p
    obtain ⟨head', group'⟩ := q
    obtain ⟨heads, groups⟩ := same
    dsimp only at heads groups ⊢
    rw [isSingle_sameLexemes heads]
    split
    · refine (Alike.mapM (sameParts_splitCommas groups) fun _ _ part =>
        alike_argument part).bind fun members members' named => ?_
      rw [List.forall₂_eq_eq_eq] at named
      subst named
      match members with
      | [] => exact .error
      | [a] =>
        exact (alike_conceptOfTokens heads).bind fun _ _ e => .ok (by rw [e])
      | [a, b] =>
        exact (alike_roleOfTokens heads).bind fun _ _ e => .ok (by rw [e])
      | _ :: _ :: _ :: _ => exact .error
    · exact .error

theorem alike_axiomOfTokens (text text' : List Char) (h : SameLexemes ts us) :
    SameOutcome (reader.axiomOfTokens text ts)
      (reader.axiomOfTokens text' us) := by
  have parts := sameParts_splitInclusion 0 h
  rw [axiomOfTokens, axiomOfTokens]
  cases h with
  | nil => exact .error
  | @cons t u ts us same rest =>
    dsimp only [List.isEmpty_cons, Bool.false_eq_true, if_false]
    generalize Token.splitInclusion 0 (t :: ts) = ps at parts
    generalize Token.splitInclusion 0 (u :: us) = qs at parts
    match ps, qs, parts with
    | [], [], .nil => exact .error
    | [_], [_], .cons _ .nil => exact alike_assertion (.cons same rest)
    | [_, _], [_, _], .cons sub (.cons sup .nil) =>
      refine (alike_conceptOfTokens sub).bind fun c _ e => ?_
      subst e
      exact (alike_conceptOfTokens sup).bind fun _ _ e => .ok (by rw [e])
    | _ :: _ :: _ :: _, _ :: _ :: _ :: _, .cons _ (.cons _ (.cons _ _)) =>
      exact .error

-- ======================================================================= texts

/-- Two texts that write the same lexemes have alike tokens, or in both the
brackets are not balanced. -/
theorem alike_tokens {ls : List Lexeme} {text text' : List Char}
    (h : Writes text ls) (h' : Writes text' ls) :
    Alike SameLexemes (tokens text) (tokens text') := by
  obtain ⟨ts, cut, lexemes⟩ := Lexeme.ofText_eq_ok.1 h.ofText
  obtain ⟨us, cut', lexemes'⟩ := Lexeme.ofText_eq_ok.1 h'.ofText
  have same : SameLexemes ts us :=
    sameLexemes_iff.2 (lexemes.trans lexemes'.symm)
  rw [tokens, tokens, isBalanced_of_ofText isBracketPair_parens cut,
    isBalanced_of_ofText isBracketPair_braces cut,
    isBalanced_of_ofText isBracketPair_parens cut',
    isBalanced_of_ofText isBracketPair_braces cut', lexemes, lexemes', cut,
    cut']
  split
  · exact .ok same
  · exact .error

/-- The spacing of a text is of no account. Two texts that write the same
lexemes, with any blanks in front of, between and behind them, are read alike:
both as the same statement, concept or role, or both with an error of the same
kind. -/
theorem spacing_insignificant (reader : Reader) {ls : List Lexeme}
    {text text' : String} (h : Writes text.toList ls)
    (h' : Writes text'.toList ls) :
    SameOutcome (reader.statement text) (reader.statement text') ∧
      SameOutcome (reader.concept text) (reader.concept text') ∧
      SameOutcome (reader.role text) (reader.role text') := by
  have cut := alike_tokens h h'
  refine ⟨?_, ?_, ?_⟩
  · refine cut.bind fun ts us same => ?_
    refine (alike_cutTag same).bind fun p q parts => ?_
    obtain ⟨body, tag⟩ := p
    obtain ⟨body', _⟩ := q
    obtain ⟨bodies, rfl⟩ := parts
    refine (alike_axiomOfTokens _ _ bodies).bind fun a _ e => ?_
    subst e
    cases tag with
    | none => exact .ok rfl
    | some tag => exact SameOutcome.refl _
  · exact cut.bind fun ts us => alike_conceptOfTokens
  · exact cut.bind fun ts us => alike_roleOfTokens

/-- An inclusion with a tag, a concept and a role. Each is written without any
blanks and with many of several scripts, and read the same. -/
theorem spacing_insignificant_tagged :
    let short : Reader := ⟨"e:#", 128⟩
    let a : Concept := .atom ⟨"e:#A"⟩
    let b : Concept := .atom ⟨"e:#B"⟩
    let inclusion : Statement := ⟨.subClassOf a b, [.objectGlobal]⟩
    let reaches : Concept := .restrict .existential (.named ⟨"e:#r"⟩) a
    let turned : Role := .inverse ⟨"e:#r"⟩
    (short.statement "A⊑B@global" = .ok inclusion ∧
      short.statement "\u2003A ⊑\u3000B\n@\tglobal " = .ok inclusion) ∧
    (short.concept "∃r.A⊓B" = .ok (.inter [reaches, b]) ∧
      short.concept " ∃\tr\u2003.A\n⊓ B" = .ok (.inter [reaches, b])) ∧
    short.role "r^-1" = .ok turned ∧
      short.role "\u00A0r\n^-1\t" = .ok turned := by
  intro short a b inclusion reaches turned
  have statement : short.statement "A⊑B@global" = .ok inclusion := by
    decide +kernel
  have concept : short.concept "∃r.A⊓B" = .ok (.inter [reaches, b]) := by
    decide +kernel
  have role : short.role "r^-1" = .ok turned := by decide +kernel
  obtain ⟨statements, -, -⟩ := @spacing_insignificant short
    [.name ['A'], .inclusion, .name ['B'], .tag, .name globalWord]
    "A⊑B@global" "\u2003A ⊑\u3000B\n@\tglobal "
    ⟨[⟨[], .name ['A']⟩, ⟨[], .inclusion⟩, ⟨[], .name ['B']⟩, ⟨[], .tag⟩,
        ⟨[], .name globalWord⟩], [], rfl,
      ⟨by simp, by simpa [IsProper] using isProper_globalWord,
        by simp [IsName]⟩,
      by simp, by decide⟩
    ⟨[⟨['\u2003'], .name ['A']⟩, ⟨[' '], .inclusion⟩, ⟨['\u3000'], .name ['B']⟩,
        ⟨['\n'], .tag⟩, ⟨['\t'], .name globalWord⟩], [' '], rfl,
      ⟨by simp; decide, by simpa [IsProper] using isProper_globalWord,
        by simp [IsName]⟩,
      by simp; decide, by decide⟩
  obtain ⟨-, concepts, -⟩ := @spacing_insignificant short
    [.existential, .name ['r'], .dot, .name ['A'], .meet, .name ['B']]
    "∃r.A⊓B" " ∃\tr\u2003.A\n⊓ B"
    ⟨[⟨[], .existential⟩, ⟨[], .name ['r']⟩, ⟨[], .dot⟩, ⟨[], .name ['A']⟩,
        ⟨[], .meet⟩, ⟨[], .name ['B']⟩], [], rfl,
      ⟨by simp, by simp [IsProper], by simp [IsName]⟩, by simp, by decide⟩
    ⟨[⟨[' '], .existential⟩, ⟨['\t'], .name ['r']⟩, ⟨['\u2003'], .dot⟩,
        ⟨[], .name ['A']⟩, ⟨['\n'], .meet⟩, ⟨[' '], .name ['B']⟩], [], rfl,
      ⟨by simp; decide, by simp [IsProper], by simp [IsName]⟩, by simp,
      by decide⟩
  obtain ⟨-, -, roles⟩ := @spacing_insignificant short
    [.name ['r'], .inverse] "r^-1" "\u00A0r\n^-1\t"
    ⟨[⟨[], .name ['r']⟩, ⟨[], .inverse⟩], [], rfl,
      ⟨by simp, by simp [IsProper], by simp [IsName]⟩, by simp, by decide⟩
    ⟨[⟨['\u00A0'], .name ['r']⟩, ⟨['\n'], .inverse⟩], ['\t'], rfl,
      ⟨by simp; decide, by simp [IsProper], by simp [IsName]⟩,
      by simp; decide, by decide⟩
  exact ⟨⟨statement, statements.eq_ok statement⟩,
    ⟨concept, concepts.eq_ok concept⟩, role, roles.eq_ok role⟩

end Reader

end ContextDL
