/-
Which errors report unbalanced brackets.

An error that reports unbalanced brackets has one of two sources. Either the
brackets of the text are unbalanced (`Reader.isUnbalanced_iff`), which is found
out before anything is read, or the reader has come to a group that is left
open (`Grammar.OpenRole`, `Grammar.OpenFactor`). Both do occur: the second half
is about texts whose brackets are balanced.

# Steps

A step takes as much as it can: what it leaves does not go on with the
sentence that it took (`Step.Stops`). Without this the relations would not be
exact, since a closing parenthesis may be looked for only behind all inverse
marks and all operands. With it each step is taken apart at its binds
(`reports_bind`), and a factor of a budget is as open as its parts are in the
budget below.

# Conclusion

`Reader.reports_unbalanced_iff` says for axioms, concepts and roles when
unbalanced brackets are reported.
-/
import ContextDL.Proofs.Surface.Statement
import ContextDL.Surface.Unclosed

namespace ContextDL

open Grammar

variable {α β : Type}

-- ===================================================================== reports

section Reports

variable {cause : ReadError.Cause}

theorem not_reports_ok (a : α) : ¬ Reports cause (.ok a) :=
  id

theorem not_reports_error {other : ReadError.Cause} {fragment : List Char}
    (h : other ≠ cause) :
    ¬ Reports cause (.error ⟨other, fragment⟩ : Except ReadError α) :=
  h

/-- An error comes from the first step, or from the second on the value of
the first. -/
theorem reports_bind {x : Except ReadError α}
    {f : α → Except ReadError β} :
    Reports cause (x >>= f) ↔
      Reports cause x ∨ ∃ a, x = .ok a ∧ Reports cause (f a) := by
  cases x with
  | ok a =>
    constructor
    · exact fun h => Or.inr ⟨a, rfl, h⟩
    · rintro (h | ⟨_, h, reported⟩)
      · exact absurd h id
      · cases h
        exact reported
  | error e =>
    constructor
    · exact Or.inl
    · rintro (h | ⟨_, h, -⟩)
      · exact h
      · cases h

/-- Where the second step reports nothing, only the first counts. -/
theorem reports_bind_of_not {x : Except ReadError α}
    {f : α → Except ReadError β} (quiet : ∀ a, ¬ Reports cause (f a)) :
    Reports cause (x >>= f) ↔ Reports cause x := by
  rw [reports_bind]
  constructor
  · intro h
    rcases h with h | ⟨a, -, h⟩
    · exact h
    · exact absurd h (quiet a)
  · exact Or.inl

/-- Where no step reports anything, both together do not. -/
theorem not_reports_bind {x : Except ReadError α}
    {f : α → Except ReadError β} (first : ¬ Reports cause x)
    (quiet : ∀ a, ¬ Reports cause (f a)) : ¬ Reports cause (x >>= f) :=
  fun h => first ((reports_bind_of_not quiet).1 h)

theorem not_reports_mapM {f : α → Except ReadError β}
    (each : ∀ a, ¬ Reports cause (f a)) (xs : List α) :
    ¬ Reports cause (xs.mapM f) := by
  induction xs with
  | nil => exact id
  | cons x xs ih =>
    rw [List.mapM_cons]
    exact not_reports_bind (each x) fun b =>
      not_reports_bind ih fun bs => not_reports_ok (b :: bs)

end Reports

-- ==================================================================== balances

namespace Reader

variable [DecidableEq α] {opening closing : α}

/-- A sequence is balanced from a depth on if no front of it closes more than
is open before it or opened in it, and the whole closes just as much. -/
theorem isBalanced_iff (differ : closing ≠ opening) {depth : Nat}
    {xs : List α} :
    isBalanced opening closing depth xs = true ↔
      (∀ front, front <+: xs →
        front.count closing ≤ depth + front.count opening) ∧
      xs.count closing = depth + xs.count opening := by
  induction xs generalizing depth with
  | nil =>
    simp only [isBalanced, beq_iff_eq, List.prefix_nil, forall_eq,
      List.count_nil, Nat.zero_le, Nat.add_zero, true_and]
    exact eq_comm
  | cons x xs ih =>
    have fronts (P : List α → Prop) :
        (∀ front, front <+: x :: xs → P front) ↔
          P [] ∧ ∀ front, front <+: xs → P (x :: front) := by
      constructor
      · intro h
        exact ⟨h [] List.nil_prefix, fun front hfront =>
          h _ ((List.prefix_cons_inj x).2 hfront)⟩
      · rintro ⟨nil, cons⟩ front hfront
        rcases List.prefix_cons_iff.1 hfront with rfl | ⟨rest, rfl, hrest⟩
        · exact nil
        · exact cons rest hrest
    rw [fronts]
    by_cases ho : x = opening
    · subst ho
      rw [isBalanced_opening, ih]
      simp only [List.count_nil, List.count_cons_self,
        List.count_cons_of_ne differ.symm, Nat.zero_le, true_and,
        Nat.add_right_comm depth 1, Nat.add_assoc]
    by_cases hc : x = closing
    · subst hc
      simp only [List.count_nil, List.count_cons_self,
        List.count_cons_of_ne differ]
      cases depth with
      | zero =>
        -- the mark itself is a front that closes too much
        rw [isBalanced_zero_closing ho]
        constructor
        · exact Bool.noConfusion
        · intro h
          exact absurd (h.1.2 [] List.nil_prefix) (by simp)
      | succ depth =>
        rw [isBalanced_closing ho, ih]
        simp [Nat.add_right_comm depth 1]
    · rw [isBalanced_other ho hc, ih]
      simp [ho, hc]

theorem isBalanced_eq_false_iff (differ : closing ≠ opening) {xs : List α} :
    isBalanced opening closing 0 xs = false ↔
      IsUnbalanced opening closing xs := by
  rw [← Bool.not_eq_true, isBalanced_iff differ, IsUnbalanced, not_and_or]
  simp only [Nat.zero_add, not_forall, Nat.not_le, exists_prop]
  rw [ne_comm]

end Reader

-- ======================================================================= stops

/-- What a step leaves does not start with one of some lexemes. -/
def Step.Stops (step : Step α) (more : List Lexeme) : Prop :=
  ∀ ⦃ts : List Token⦄ ⦃value : α⦄ ⦃rest : List Token⦄,
    step ts = .ok (value, rest) → ∀ t ∈ rest.head?, t.lexeme ∉ more

namespace Reader

variable {reader : Reader} {whole : List Token}

theorem readInverses_stops (role : Role) (ts : List Token) :
    ∀ t ∈ (readInverses role ts).2.head?, t.lexeme ∉ [Lexeme.inverse] := by
  induction ts generalizing role with
  | nil => simp [readInverses]
  | cons t ts ih =>
    rw [readInverses]
    split
    · exact ih role.inverted
    · next other => exact not_mem_of_head (by simpa using other)

/-- A role is read with all its inverse marks. -/
theorem stops_readRole (budget : Nat) :
    Step.Stops (readRole reader whole budget) [.inverse] := by
  intro ts r rest h
  cases budget with
  | zero => cases h
  | succ budget =>
    cases ts with
    | nil => cases h
    | cons t ts =>
      rw [readRole] at h
      split at h
      · obtain ⟨p, -, hend⟩ := bind_eq_ok.1 h
        have stops := readInverses_stops (.named p) ts
        rwa [pure_eq_ok.1 hend] at stops
      · obtain ⟨⟨r, left⟩, -, h⟩ := bind_eq_ok.1 h
        obtain ⟨after, -, hend⟩ := bind_eq_ok.1 h
        have stops := readInverses_stops r after
        rwa [pure_eq_ok.1 hend] at stops
      · cases h
      · cases h
      · cases h

section Chains

variable {item : Step Concept} {IsItem : List Lexeme → Concept → Prop}
  {more : List Lexeme} {operator : Lexeme}

/-- Operands are read as long as there is an operator, if the bound allows for
as many as there are tokens. -/
theorem readOperands_stops (reads : Step.Reads item IsItem more)
    (stops : Step.Stops item more) {bound : Nat} {ts : List Token}
    (enough : ts.length ≤ bound) (start : ∀ t ∈ ts.head?, t.lexeme ∉ more)
    {cs : List Concept} {rest : List Token}
    (h : readOperands item operator bound ts = .ok (cs, rest)) :
    ∀ t ∈ rest.head?, t.lexeme ∉ operator :: more := by
  induction bound generalizing ts cs with
  | zero =>
    cases List.length_eq_zero_iff.1 (Nat.le_zero.1 enough)
    cases h
    simp
  | succ bound ih =>
    cases ts with
    | nil =>
      cases h
      simp
    | cons t ts =>
      rw [readOperands] at h
      by_cases ht : t.lexeme = operator
      · rw [if_pos ht] at h
        obtain ⟨⟨c, left⟩, hitem, h⟩ := bind_eq_ok.1 h
        obtain ⟨⟨others, rest⟩, hothers, hend⟩ := bind_eq_ok.1 h
        cases hend
        obtain ⟨used, rfl, -⟩ := reads.sound hitem
        refine ih ?_ (stops hitem) hothers
        simp only [List.length_cons, List.length_append] at enough
        omega
      · rw [if_neg ht] at h
        cases h
        refine not_mem_of_head ?_
        rw [List.mem_cons, not_or]
        exact ⟨ht, start t rfl⟩

/-- A chain is read with all its operands. -/
theorem stops_readChain (reads : Step.Reads item IsItem more)
    (stops : Step.Stops item more) (node : List Concept → Concept) :
    Step.Stops (readChain item operator node) (operator :: more) := by
  intro ts c rest h
  obtain ⟨⟨first, left⟩, hfirst, h⟩ := bind_eq_ok.1 h
  obtain ⟨⟨others, rest⟩, hothers, hend⟩ := bind_eq_ok.1 h
  cases hend
  exact readOperands_stops reads stops (Nat.le_refl _) (stops hfirst) hothers

theorem stops_readInter {budget : Nat} :
    Step.Stops (readInter (readFactor reader whole budget))
      [.meet, .join] := by
  have reads := @reads_readFactor reader whole budget
  have stops : Step.Stops (readFactor reader whole budget) [] :=
    fun _ _ _ _ => not_mem_nil_of_head
  exact stops_readChain (reads_readUnion reads)
    (stops_readChain reads stops .union) .inter

end Chains

-- ====================================================================== pieces

theorem reports_closeParen {ts : List Token} :
    Reports .unbalanced (closeParen ts) ↔
      ∀ t ∈ ts.head?, t.lexeme ≠ .closeParen := by
  cases ts with
  | nil => simp [closeParen, Reports]
  | cons t ts =>
    rw [closeParen]
    split
    · next closed => simp [closed, Reports]
    · next other => simp [other, Reports]

theorem not_reports_iriOf (name : List Char) :
    ¬ Reports .unbalanced (reader.iriOf name) := by
  unfold iriOf
  split
  · exact not_reports_ok _
  · exact not_reports_error (by decide)

theorem not_reports_takeDot (start ts : List Token) :
    ¬ Reports .unbalanced (takeDot start ts) := by
  unfold takeDot
  dsimp only
  split
  · exact not_reports_error (by decide)
  · split
    · exact not_reports_ok _
    · exact not_reports_error (by decide)

theorem not_reports_readNumber (ts : List Token) :
    ¬ Reports .unbalanced (readNumber whole ts) := by
  unfold readNumber
  split
  · exact not_reports_error (by decide)
  · split
    · split
      · exact not_reports_ok _
      · exact not_reports_error (by decide)
    · exact not_reports_error (by decide)

theorem not_reports_readMembers (ts : List Token) :
    ¬ Reports .unbalanced (reader.readMembers whole ts) := by
  cases ts with
  | nil => exact not_reports_error (by decide)
  | cons t rest =>
    rw [readMembers.eq_def]
    dsimp only
    split
    · refine not_reports_bind (not_reports_iriOf _) fun iri => ?_
      split
      · exact not_reports_error (by decide)
      · next s rest =>
        split
        · exact not_reports_bind (not_reports_readMembers rest)
            fun _ => not_reports_ok _
        · exact not_reports_ok _
        · exact not_reports_error (by decide)
    · exact not_reports_error (by decide)

-- ====================================================================== groups

theorem forall_head_lexeme {P : Lexeme → Prop} {ts : List Token} :
    (∀ l ∈ (ts.map Token.lexeme).head?, P l) ↔
      ∀ t ∈ ts.head?, P t.lexeme := by
  cases ts <;> simp

/-- A group reports unbalanced brackets if its inside does, or if there is a
whole sentence in it and then something that neither goes on with the sentence
nor closes the group. -/
theorem reports_group {inner : Step α} {IsInner : List Lexeme → α → Prop}
    {more : List Lexeme} (reads : Step.Reads inner IsInner more)
    (stops : Step.Stops inner more) (make : α → List Token → β)
    (ts : List Token) :
    Reports .unbalanced
        (do
          let (a, rest) ← inner ts
          return make a (← closeParen rest)) ↔
      Reports .unbalanced (inner ts) ∨
        ∃ ls rest a, ts.map Token.lexeme = ls ++ rest ∧ IsInner ls a ∧
          ∀ l ∈ rest.head?, l ∉ more ++ [.closeParen] := by
  have closing (a : α) (rest : List Token) :
      Reports .unbalanced (do return make a (← closeParen rest)) ↔
        ∀ t ∈ rest.head?, t.lexeme ≠ .closeParen :=
    (reports_bind_of_not fun _ => not_reports_ok _).trans reports_closeParen
  rw [reports_bind]
  refine or_congr Iff.rfl ⟨fun h => ?_, fun h => ?_⟩
  · obtain ⟨⟨a, rest⟩, read, stuck⟩ := h
    have left := stops read
    obtain ⟨used, rfl, sentence⟩ := reads.sound read
    refine ⟨_, _, a, List.map_append, sentence, forall_head_lexeme.2 ?_⟩
    intro t ht
    rw [List.mem_append, List.mem_singleton, not_or]
    exact ⟨left t ht, (closing a rest).1 stuck t ht⟩
  · obtain ⟨ls, _, a, hts, sentence, stuck⟩ := h
    obtain ⟨used, rest, rfl, rfl, rfl⟩ := List.map_eq_append_iff.1 hts
    simp only [forall_head_lexeme, List.mem_append, List.mem_singleton,
      not_or] at stuck
    exact ⟨(a, rest), reads.complete rest sentence fun t ht => (stuck t ht).1,
      (closing a rest).2 fun t ht => (stuck t ht).2⟩

/-- A reader of roles reports unbalanced brackets where a group in a role is
left open. -/
theorem reports_readRole (budget : Nat) (ts : List Token) :
    Reports .unbalanced (readRole reader whole budget ts) ↔
      OpenRole reader budget (ts.map Token.lexeme) := by
  induction budget generalizing ts with
  | zero =>
    constructor
    · exact fun h => absurd h (not_reports_error (by decide))
    · exact fun h => by cases h
  | succ budget ih =>
    have group := reports_group (@reads_readRole reader whole budget)
      (stops_readRole budget) readInverses
    constructor
    · intro h
      cases ts with
      | nil => exact absurd h (not_reports_error (by decide))
      | cons t ts =>
        rw [readRole] at h
        split at h
        · exact absurd h
            (not_reports_bind (not_reports_iriOf _) fun _ => not_reports_ok _)
        · next ht =>
          rw [List.map_cons, ht]
          rcases (group ts).1 h with h | ⟨ls, rest, r, hts, inner, stuck⟩
          · exact .inside ((ih ts).1 h)
          · rw [hts]
            exact .here inner stuck
        · exact absurd h (not_reports_error (by decide))
        · exact absurd h (not_reports_error (by decide))
        · exact absurd h (not_reports_error (by decide))
    · intro h
      generalize hls : ts.map Token.lexeme = ls at h
      cases h with
      | here inner stuck =>
        obtain ⟨t, ts, rfl, ht, hts⟩ := List.map_eq_cons_iff.1 hls
        rw [readRole, ht]
        exact (group ts).2 (Or.inr ⟨_, _, _, hts, inner, stuck⟩)
      | inside inner =>
        obtain ⟨t, ts, rfl, ht, rfl⟩ := List.map_eq_cons_iff.1 hls
        rw [readRole, ht]
        exact (group ts).2 (Or.inl ((ih ts).2 inner))

end Reader

-- ====================================================================== chains

namespace Grammar

/-- Sentences with an operator between them, the last of which is open. -/
inductive OpenChain (IsItem : List Lexeme → Concept → Prop)
    (IsOpen : List Lexeme → Prop) (operator : Lexeme) :
    List Lexeme → Prop where
  | one {ls : List Lexeme} (item : IsOpen ls) :
      OpenChain IsItem IsOpen operator ls
  | more {ls ms : List Lexeme} {c : Concept} (item : IsItem ls c)
      (others : OpenChain IsItem IsOpen operator ms) :
      OpenChain IsItem IsOpen operator (ls ++ operator :: ms)

variable {reader : Reader} {budget : Nat} {ls : List Lexeme}

theorem OpenFactors.openChain : ∀ {ls : List Lexeme},
    OpenFactors reader budget ls →
      OpenChain (IsFactor reader budget) (OpenFactor reader budget) .join ls
  | _, .one factor => .one factor
  | _, .more factor others => .more factor others.openChain

theorem openFactors_iff :
    OpenFactors reader budget ls ↔
      OpenChain (IsFactor reader budget) (OpenFactor reader budget) .join
        ls := by
  refine ⟨OpenFactors.openChain, fun h => ?_⟩
  induction h with
  | one factor => exact .one factor
  | more factor _ ih => exact .more factor ih

theorem OpenUnions.openChain : ∀ {ls : List Lexeme},
    OpenUnions reader budget ls →
      OpenChain (IsUnion reader budget) (OpenFactors reader budget) .meet ls
  | _, .one factors => .one factors
  | _, .more factors others => .more ⟨_, factors, rfl⟩ others.openChain

theorem openUnions_iff :
    OpenUnions reader budget ls ↔
      OpenChain (IsUnion reader budget) (OpenFactors reader budget) .meet
        ls := by
  refine ⟨OpenUnions.openChain, fun h => ?_⟩
  induction h with
  | one factors => exact .one factors
  | more union _ ih =>
    obtain ⟨cs, factors, rfl⟩ := union
    exact .more factors ih

end Grammar

namespace Reader

variable {reader : Reader} {whole : List Token}

section Chains

variable {item : Step Concept} {IsItem : List Lexeme → Concept → Prop}
  {IsOpen : List Lexeme → Prop} {more : List Lexeme} {operator : Lexeme}

/-- The tokens behind an operand: an operator, and a chain that is open. -/
def OpenBehind (IsItem : List Lexeme → Concept → Prop)
    (IsOpen : List Lexeme → Prop) (operator : Lexeme) (ts : List Token) :
    Prop :=
  ∃ t rest, ts = t :: rest ∧ t.lexeme = operator ∧
    OpenChain IsItem IsOpen operator (rest.map Token.lexeme)

/-- An operand, and what is read behind it. -/
theorem reports_operand (reads : Step.Reads item IsItem more)
    (apart : operator ∉ more)
    (items : ∀ ts, Reports .unbalanced (item ts) ↔
      IsOpen (ts.map Token.lexeme))
    {next : Parsed Concept → Except ReadError β} (ts : List Token)
    (nexts : ∀ c rest, rest.length ≤ ts.length →
      (Reports .unbalanced (next (c, rest)) ↔
        OpenBehind IsItem IsOpen operator rest)) :
    Reports .unbalanced (item ts >>= next) ↔
      OpenChain IsItem IsOpen operator (ts.map Token.lexeme) := by
  rw [reports_bind, items]
  constructor
  · rintro (h | ⟨⟨c, rest⟩, read, h⟩)
    · exact .one h
    · obtain ⟨used, rfl, sentence⟩ := reads.sound read
      rw [nexts c rest (by simp)] at h
      obtain ⟨t, rest, rfl, ht, others⟩ := h
      rw [List.map_append, List.map_cons, ht]
      exact .more sentence others
  · intro h
    generalize hls : ts.map Token.lexeme = ls at h
    cases h with
    | one h => exact Or.inl h
    | @more _ _ c sentence others =>
      obtain ⟨used, back, rfl, rfl, hback⟩ := List.map_eq_append_iff.1 hls
      obtain ⟨t, rest, rfl, ht, rfl⟩ := List.map_eq_cons_iff.1 hback
      have read := reads.complete (t :: rest) sentence
        (not_mem_of_head (ht ▸ apart))
      exact Or.inr ⟨(c, t :: rest), read,
        (nexts c (t :: rest) (by simp)).2 ⟨t, rest, rfl, ht, others⟩⟩

theorem reports_readOperands (reads : Step.Reads item IsItem more)
    (apart : operator ∉ more)
    (items : ∀ ts, Reports .unbalanced (item ts) ↔
      IsOpen (ts.map Token.lexeme)) {bound : Nat} {ts : List Token}
    (enough : ts.length ≤ bound) :
    Reports .unbalanced (readOperands item operator bound ts) ↔
      OpenBehind IsItem IsOpen operator ts := by
  induction bound generalizing ts with
  | zero =>
    cases List.length_eq_zero_iff.1 (Nat.le_zero.1 enough)
    simp [readOperands, OpenBehind, Reports]
  | succ bound ih =>
    cases ts with
    | nil => simp [readOperands, OpenBehind, Reports]
    | cons t ts =>
      rw [readOperands]
      split
      · next ht =>
        refine (reports_operand reads apart items ts ?_).trans ?_
        · intro c rest le
          refine (reports_bind_of_not fun _ => not_reports_ok _).trans (ih ?_)
          exact le.trans (Nat.le_of_succ_le_succ enough)
        · constructor
          · exact fun h => ⟨t, ts, rfl, ht, h⟩
          · rintro ⟨_, _, h, -, others⟩
            cases h
            exact others
      · next other => simp [OpenBehind, Reports, other]

theorem reports_readChain (reads : Step.Reads item IsItem more)
    (apart : operator ∉ more)
    (items : ∀ ts, Reports .unbalanced (item ts) ↔
      IsOpen (ts.map Token.lexeme)) (node : List Concept → Concept)
    (ts : List Token) :
    Reports .unbalanced (readChain item operator node ts) ↔
      OpenChain IsItem IsOpen operator (ts.map Token.lexeme) := by
  refine reports_operand reads apart items ts fun c rest _ => ?_
  exact (reports_bind_of_not fun _ => not_reports_ok _).trans
    (reports_readOperands reads apart items (Nat.le_refl _))

/-- A reader of intersections reports unbalanced brackets where a factor is
open. -/
theorem reports_readInter {budget : Nat}
    (factors : ∀ ts, Reports .unbalanced
      (readFactor reader whole budget ts) ↔
        OpenFactor reader budget (ts.map Token.lexeme)) (ts : List Token) :
    Reports .unbalanced (readInter (readFactor reader whole budget) ts) ↔
      OpenUnions reader budget (ts.map Token.lexeme) := by
  have reads := @reads_readFactor reader whole budget
  rw [openUnions_iff]
  refine reports_readChain (reads_readUnion reads) (by decide) (fun us => ?_)
    .inter ts
  rw [openFactors_iff]
  exact reports_readChain reads List.not_mem_nil factors .union us

end Chains

-- ==================================================================== concepts

/-- A restriction reports unbalanced brackets in its role or in its filler. -/
theorem reports_readRestriction {budget : Nat}
    (factors : ∀ ts, Reports .unbalanced
      (readFactor reader whole budget ts) ↔
        OpenFactor reader budget (ts.map Token.lexeme))
    (start : List Token) (q : Quantifier) (ts : List Token) :
    Reports .unbalanced (readRestriction start (readRole reader whole budget)
        (readFactor reader whole budget) q ts) ↔
      OpenRole reader budget (ts.map Token.lexeme) ∨
        ∃ rs ls r, ts.map Token.lexeme = rs ++ .dot :: ls ∧
          IsRole reader budget rs r ∧ OpenFactor reader budget ls := by
  have reads := @reads_readRole reader whole budget
  unfold readRestriction
  rw [reports_bind, reports_readRole]
  refine or_congr Iff.rfl ⟨fun h => ?_, fun h => ?_⟩
  · obtain ⟨⟨r, left⟩, hrole, h⟩ := h
    rcases reports_bind.1 h with h | ⟨after, hdot, filler⟩
    · exact absurd h (not_reports_takeDot start left)
    · obtain ⟨used, rfl, role⟩ := reads.sound hrole
      obtain ⟨t, ht, rfl⟩ := takeDot_eq_ok.1 hdot
      have opened := (reports_bind_of_not fun _ => not_reports_ok _).1 filler
      refine ⟨_, _, r, ?_, role, (factors after).1 opened⟩
      rw [List.map_append, List.map_cons, ht]
  · obtain ⟨rs, ls, r, hts, role, filler⟩ := h
    obtain ⟨used, back, rfl, rfl, hback⟩ := List.map_eq_append_iff.1 hts
    obtain ⟨t, after, rfl, ht, rfl⟩ := List.map_eq_cons_iff.1 hback
    have hrole := reads.complete (t :: after) role
      (not_mem_of_head (by rw [ht]; decide))
    refine ⟨(r, t :: after), hrole, reports_bind.2 (Or.inr ?_)⟩
    refine ⟨after, takeDot_eq_ok.2 ⟨t, ht, rfl⟩, ?_⟩
    exact (reports_bind_of_not fun _ => not_reports_ok _).2
      ((factors after).2 filler)

/-- Unbalanced brackets in a restriction are in a factor. -/
theorem openFactor_of_restriction {budget : Nat}
    (factors : ∀ ts, Reports .unbalanced
      (readFactor reader whole budget ts) ↔
        OpenFactor reader budget (ts.map Token.lexeme))
    {start : List Token} (qs : List Token) {q : Quantifier} {ts : List Token}
    (quantifier : IsQuantifier (qs.map Token.lexeme) q)
    (h : Reports .unbalanced (readRestriction start
      (readRole reader whole budget) (readFactor reader whole budget) q ts)) :
    OpenFactor reader (budget + 1) ((qs ++ ts).map Token.lexeme) := by
  rw [List.map_append]
  rcases (reports_readRestriction factors start q ts).1 h with
    h | ⟨rs, ls, r, hts, role, filler⟩
  · exact .role quantifier h
  · rw [hts]
    exact .filler quantifier role filler

/-- Unbalanced brackets behind the number of a cardinality. -/
theorem reports_counted {ts : List Token} {quantifier : UInt32 → Quantifier}
    {next : Quantifier → Step Concept}
    (h : Reports .unbalanced (do
      let (n, left) ← readNumber whole ts
      next (quantifier n) left)) :
    ∃ t text n left, ts = t :: left ∧ t.lexeme = .name text ∧
      number? text = some n ∧
      Reports .unbalanced (next (quantifier n) left) := by
  rcases reports_bind.1 h with h | ⟨⟨n, left⟩, hn, behind⟩
  · exact absurd h (not_reports_readNumber ts)
  · obtain ⟨t, text, rfl, ht, hn⟩ := readNumber_eq_ok.1 hn
    exact ⟨t, text, n, left, rfl, ht, hn, behind⟩

/-- A factor that reports unbalanced brackets is open, if this holds in the
budget below. -/
theorem openFactor_of_reports {budget : Nat}
    (factors : ∀ ts, Reports .unbalanced
      (readFactor reader whole budget ts) ↔
        OpenFactor reader budget (ts.map Token.lexeme)) {ts : List Token}
    (h : Reports .unbalanced (readFactor reader whole (budget + 1) ts)) :
    OpenFactor reader (budget + 1) (ts.map Token.lexeme) := by
  have restriction := @openFactor_of_restriction reader whole budget factors
  cases ts with
  | nil => exact absurd h (not_reports_error (by decide))
  | cons t ts =>
    rw [readFactor] at h
    dsimp only at h
    split at h
    · next ht =>
      have operand := (reports_bind_of_not fun _ => not_reports_ok _).1 h
      rw [List.map_cons, ht]
      exact .compl ((factors ts).1 operand)
    · next ht =>
      refine restriction [t] ?_ h
      rw [List.map_singleton, ht]
      exact .existential
    · next ht =>
      refine restriction [t] ?_ h
      rw [List.map_singleton, ht]
      exact .universal
    · next ht =>
      obtain ⟨u, text, n, left, rfl, hu, hn, h⟩ := reports_counted h
      refine restriction [t, u] ?_ h
      rw [List.map_cons, List.map_singleton, ht, hu]
      exact .atLeast hn
    · next ht =>
      obtain ⟨u, text, n, left, rfl, hu, hn, h⟩ := reports_counted h
      refine restriction [t, u] ?_ h
      rw [List.map_cons, List.map_singleton, ht, hu]
      exact .atMost hn
    · next ht =>
      obtain ⟨u, text, n, left, rfl, hu, hn, h⟩ := reports_counted h
      refine restriction [t, u] ?_ h
      rw [List.map_cons, List.map_singleton, ht, hu]
      exact .exactly hn
    · exact absurd h (not_reports_ok _)
    · exact absurd h (not_reports_ok _)
    · exact absurd h
        (not_reports_bind (not_reports_iriOf _) fun _ => not_reports_ok _)
    · exact absurd h (not_reports_bind (not_reports_readMembers _)
        fun _ => not_reports_ok _)
    · next ht =>
      rw [List.map_cons, ht]
      rcases (reports_group (reads_readInter (reads_readFactor budget))
        stops_readInter Prod.mk ts).1 h with
        h | ⟨ls, rest, c, hts, inner, stuck⟩
      · exact .inside ((reports_readInter factors ts).1 h)
      · rw [hts]
        exact .here inner stuck
    · exact absurd h (not_reports_error (by decide))

/-- An open factor reports unbalanced brackets, if this holds in the budget
below. -/
theorem reports_of_openFactor {budget : Nat}
    (factors : ∀ ts, Reports .unbalanced
      (readFactor reader whole budget ts) ↔
        OpenFactor reader budget (ts.map Token.lexeme)) {ts : List Token}
    (h : OpenFactor reader (budget + 1) (ts.map Token.lexeme)) :
    Reports .unbalanced (readFactor reader whole (budget + 1) ts) := by
  have group := reports_group
    (reads_readInter (@reads_readFactor reader whole budget))
    stops_readInter Prod.mk
  generalize hls : ts.map Token.lexeme = ls at h
  cases h with
  | here inner stuck =>
    obtain ⟨t, ts, rfl, ht, hts⟩ := List.map_eq_cons_iff.1 hls
    rw [readFactor, ht]
    exact (group ts).2 (Or.inr ⟨_, _, _, hts, inner, stuck⟩)
  | inside inner =>
    obtain ⟨t, ts, rfl, ht, rfl⟩ := List.map_eq_cons_iff.1 hls
    rw [readFactor, ht]
    exact (group ts).2 (Or.inl ((reports_readInter factors ts).2 inner))
  | compl operand =>
    obtain ⟨t, ts, rfl, ht, rfl⟩ := List.map_eq_cons_iff.1 hls
    rw [readFactor, ht]
    exact (reports_bind_of_not fun _ => not_reports_ok _).2
      ((factors ts).2 operand)
  | role quantifier role =>
    obtain ⟨qs, ts, rfl, rfl, rfl⟩ := List.map_eq_append_iff.1 hls
    obtain ⟨start, read⟩ := readFactor_restriction quantifier ts
    rw [read, reports_readRestriction factors]
    exact Or.inl role
  | filler quantifier role filler =>
    obtain ⟨qs, ts, rfl, rfl, hts⟩ := List.map_eq_append_iff.1 hls
    obtain ⟨start, read⟩ := readFactor_restriction quantifier ts
    rw [read, reports_readRestriction factors]
    exact Or.inr ⟨_, _, _, hts, role, filler⟩

/-- A reader of factors reports unbalanced brackets where a group in a factor
is left open. -/
theorem reports_readFactor (budget : Nat) (ts : List Token) :
    Reports .unbalanced (readFactor reader whole budget ts) ↔
      OpenFactor reader budget (ts.map Token.lexeme) := by
  induction budget generalizing ts with
  | zero =>
    constructor
    · exact fun h => absurd h (not_reports_error (by decide))
    · exact fun h => by cases h
  | succ budget ih =>
    exact ⟨openFactor_of_reports ih, reports_of_openFactor ih⟩

-- =========================================================== whole expressions

theorem reports_finish {x : Except ReadError (Parsed α)} :
    Reports .unbalanced (finish x) ↔ Reports .unbalanced x := by
  refine reports_bind_of_not fun _ => ?_
  dsimp only
  split
  · exact not_reports_ok _
  · exact not_reports_error (by decide)

theorem reports_conceptOfTokens {ts : List Token} :
    Reports .unbalanced (reader.conceptOfTokens ts) ↔
      OpenConceptTokens reader ts :=
  reports_finish.trans (reports_readInter (reports_readFactor _) ts)

theorem reports_roleOfTokens {ts : List Token} :
    Reports .unbalanced (reader.roleOfTokens ts) ↔ OpenRoleTokens reader ts :=
  reports_finish.trans (reports_readRole _ ts)

-- ================================================================== statements

theorem not_reports_argument (body part : List Token) :
    ¬ Reports .unbalanced (reader.argument body part) := by
  unfold argument
  split
  · exact not_reports_bind (not_reports_iriOf _) fun _ => not_reports_ok _
  · exact not_reports_error (by decide)
  · exact not_reports_error (by decide)

theorem not_reports_noteOfTag (tag : List Char) :
    ¬ Reports .unbalanced (reader.noteOfTag tag) := by
  unfold noteOfTag
  split
  · exact not_reports_ok _
  · exact not_reports_bind (not_reports_iriOf _) fun _ => not_reports_ok _

theorem not_reports_cutTag (ts : List Token) :
    ¬ Reports .unbalanced (Token.cutTag ts) := by
  induction ts with
  | nil => exact not_reports_ok _
  | cons t rest ih =>
    rw [Token.cutTag.eq_def]
    dsimp only
    split
    · split
      · exact not_reports_ok _
      · exact not_reports_error (by decide)
    · exact not_reports_bind ih fun _ => not_reports_ok _

/-- An assertion reports unbalanced brackets in its head, once its arguments
are read. -/
theorem openAxiom_of_assertion {body : List Token}
    (whole : Token.splitInclusion 0 body = [body])
    (h : Reports .unbalanced (reader.assertion body)) :
    OpenAxiom reader body := by
  unfold assertion at h
  split at h
  · next head group hgroup =>
    obtain ⟨left, right, rfl, hleft, hright, -⟩ :=
      Token.splitGroup_eq_some.1 hgroup
    split at h
    · next single =>
      rw [Token.isSingle_iff] at single
      rcases reports_bind.1 h with h | ⟨arguments, named, h⟩
      · exact absurd h (not_reports_mapM (not_reports_argument _) _)
      rw [List.append_assoc] at whole ⊢
      split at h
      · obtain ⟨name, iri, member, known, -⟩ :=
          exists_name_of_arguments hleft hright named
        have opened := (reports_bind_of_not fun _ => not_reports_ok _).1 h
        exact .concept whole single member known
          (reports_conceptOfTokens.1 opened)
      · obtain ⟨name, other, iri, iri', pair, known, -, known', -⟩ :=
          exists_names_of_arguments hleft hright named
        have opened := (reports_bind_of_not fun _ => not_reports_ok _).1 h
        exact .role whole single pair known known'
          (reports_roleOfTokens.1 opened)
      · exact absurd h (not_reports_error (by decide))
    · exact absurd h (not_reports_error (by decide))
  · exact absurd h (not_reports_error (by decide))

theorem ne_nil_of_openAxiom {body : List Token}
    (h : OpenAxiom reader body) : body ≠ [] := by
  cases h with
  | sub halves =>
    rintro rfl
    cases halves
  | sup halves =>
    rintro rfl
    cases halves
  | concept _ _ member =>
    intro empty
    rw [(List.append_eq_nil_iff.1 empty).2] at member
    cases member
  | role _ _ pair =>
    intro empty
    rw [(List.append_eq_nil_iff.1 empty).2] at pair
    cases pair

/-- An axiom reports unbalanced brackets where a group in it is left open. -/
theorem reports_axiomOfTokens (text : List Char) (body : List Token) :
    Reports .unbalanced (reader.axiomOfTokens text body) ↔
      OpenAxiom reader body := by
  constructor
  · intro h
    unfold axiomOfTokens at h
    split at h
    · exact absurd h (not_reports_error (by decide))
    split at h
    · next part hpart =>
      have parts := Token.splits_splitInclusion 0 body
      rw [hpart] at parts
      rw [← parts.eq_of_singleton] at hpart
      exact openAxiom_of_assertion hpart h
    · next sub sup halves =>
      rcases reports_bind.1 h with h | ⟨c, left, h⟩
      · exact .sub halves (reports_conceptOfTokens.1 h)
      · have right := (reports_bind_of_not fun _ => not_reports_ok _).1 h
        exact .sup halves left (reports_conceptOfTokens.1 right)
    · exact absurd h (not_reports_error (by decide))
  · intro h
    unfold axiomOfTokens
    rw [if_neg (by simpa using ne_nil_of_openAxiom h)]
    cases h with
    | sub halves left =>
      rw [halves]
      exact reports_bind.2 (Or.inl (reports_conceptOfTokens.2 left))
    | sup halves left right =>
      rw [halves]
      refine reports_bind.2 (Or.inr ⟨_, left, ?_⟩)
      exact (reports_bind_of_not fun _ => not_reports_ok _).2
        (reports_conceptOfTokens.2 right)
    | concept whole single member known opened =>
      rw [whole]
      dsimp only
      rw [assertion_argument single member known]
      exact (reports_bind_of_not fun _ => not_reports_ok _).2
        (reports_conceptOfTokens.2 opened)
    | role whole single pair known known' opened =>
      rw [whole]
      dsimp only
      rw [assertion_pair single pair known known']
      exact (reports_bind_of_not fun _ => not_reports_ok _).2
        (reports_roleOfTokens.2 opened)

theorem reports_statementOfTokens (text : List Char) (ts : List Token) :
    Reports .unbalanced
        (do
          let (body, tag) ← Token.cutTag ts
          let statement := Statement.plain (← reader.axiomOfTokens text body)
          match tag with
          | some tag =>
            return { statement with notes := [← reader.noteOfTag tag] }
          | none => return statement) ↔
      OpenStatement reader ts := by
  have noted (s : Statement) (tag : Option (List Char)) :
      ¬ Reports .unbalanced (match tag with
        | some tag => do
          return { s with notes := [← reader.noteOfTag tag] }
        | none => return s) := by
    cases tag with
    | none => exact not_reports_ok _
    | some tag =>
      exact not_reports_bind (not_reports_noteOfTag tag)
        fun _ => not_reports_ok _
  constructor
  · intro h
    rcases reports_bind.1 h with h | ⟨⟨body, tag⟩, cut, h⟩
    · exact absurd h (not_reports_cutTag ts)
    · have opened := (reports_bind_of_not fun _ => noted _ tag).1 h
      exact ⟨body, tag, cut, (reports_axiomOfTokens text body).1 opened⟩
  · rintro ⟨body, tag, cut, opened⟩
    refine reports_bind.2 (Or.inr ⟨(body, tag), cut, ?_⟩)
    exact reports_bind.2 (Or.inl ((reports_axiomOfTokens text body).2 opened))

-- ======================================================================= texts

theorem not_reports_read (c : Char) (rest : List Char) :
    ¬ Reports .unbalanced (Lexeme.read c rest) := by
  unfold Lexeme.read
  split
  · exact not_reports_ok _
  split
  · split
    · exact not_reports_ok _
    · exact not_reports_error (by decide)
  split
  · dsimp only
    split
    · exact not_reports_ok _
    · exact not_reports_error (by decide)
  · exact not_reports_error (by decide)

theorem not_reports_ofText (cs : List Char) :
    ¬ Reports .unbalanced (Token.ofText cs) := by
  fun_induction Token.ofText cs with
  | case1 => exact not_reports_ok _
  | case2 cs c rest _ e first =>
    have quiet := not_reports_read c rest
    rwa [first] at quiet
  | case3 cs c rest _ lexeme left first _ ih =>
    exact not_reports_bind ih fun _ => not_reports_ok _

/-- The check of brackets fails where they are unbalanced. -/
theorem isUnbalanced_iff {text : List Char} :
    Text.IsUnbalanced text ↔
      ¬ (isBalanced '(' ')' 0 text && isBalanced '{' '}' 0 text) = true := by
  have parens : ')' ≠ '(' := by decide
  have braces : '}' ≠ '{' := by decide
  rw [Bool.and_eq_true, not_and_or, Bool.not_eq_true, Bool.not_eq_true,
    isBalanced_eq_false_iff parens, isBalanced_eq_false_iff braces]
  rfl

/-- Before anything is read, the brackets of a text are counted. -/
theorem reports_tokens (text : List Char) :
    Reports .unbalanced (tokens text) ↔ Text.IsUnbalanced text := by
  rw [isUnbalanced_iff]
  unfold tokens
  split
  · next balanced =>
    exact iff_of_false (not_reports_ofText text) (not_not_intro balanced)
  · next unbalanced => exact iff_of_true rfl unbalanced

/-- What reads the tokens of a text reports the brackets of the text, or those
that it finds open itself. -/
theorem reports_text {f : List Token → Except ReadError α}
    {IsOpen : List Token → Prop}
    (each : ∀ ts, Reports .unbalanced (f ts) ↔ IsOpen ts) (text : List Char) :
    Reports .unbalanced (tokens text >>= f) ↔
      Text.IsUnbalanced text ∨ ∃ ts, tokens text = .ok ts ∧ IsOpen ts := by
  simp only [reports_bind, reports_tokens, each]

/-- Unbalanced brackets are reported for two kinds of texts: those whose
parentheses or braces are unbalanced, and those with balanced brackets in which
the reader comes to a group that is not closed behind the sentence in it. -/
theorem reports_unbalanced_iff (reader : Reader) (text : String) :
    (Reports .unbalanced (reader.statement text) ↔
      Text.IsUnbalanced text.toList ∨
        ∃ ts, tokens text.toList = .ok ts ∧ OpenStatement reader ts) ∧
    (Reports .unbalanced (reader.concept text) ↔
      Text.IsUnbalanced text.toList ∨
        ∃ ts, tokens text.toList = .ok ts ∧ OpenConceptTokens reader ts) ∧
    (Reports .unbalanced (reader.role text) ↔
      Text.IsUnbalanced text.toList ∨
        ∃ ts, tokens text.toList = .ok ts ∧ OpenRoleTokens reader ts) :=
  ⟨reports_text (reports_statementOfTokens text.toList) text.toList,
    reports_text (fun _ => reports_conceptOfTokens) text.toList,
    reports_text (fun _ => reports_roleOfTokens) text.toList⟩

/-- In `(A B)` one parenthesis is opened and closed again, and still unbalanced
brackets are reported. -/
theorem unbalanced_reported_of_balanced :
    ¬ ∀ (reader : Reader) (text : String),
      Reports .unbalanced (reader.concept text) ↔
        Text.IsUnbalanced text.toList := by
  intro always
  have read : standard.concept "(A B)" = .error ⟨.unbalanced, "B)".toList⟩ := by
    decide +kernel
  have balanced : ¬ Text.IsUnbalanced "(A B)".toList := by
    rw [isUnbalanced_iff]
    decide
  have reported := always standard "(A B)"
  rw [read] at reported
  exact balanced (reported.1 rfl)

end Reader

end ContextDL
