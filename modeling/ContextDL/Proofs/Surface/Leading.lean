/-
Printed statements that look like a line of rigid names.

Before a reader looks for a statement on a line, it looks for the word `rigid`
with a blank behind it. A statement may be printed with such a start. Which
ones are can be told from the statement: by the name that it leads with
(`Axiom.leadingName?`).

Only an inclusion leads with a name. It leads with the name of its left side,
a chain with that of its first operand, if this stands without parentheses,
and an atom with its own. What stands behind the name is then a blank, which
ends the name. The head of an assertion ends in front of a parenthesis, and
everything else starts with a mark. `Statement.IsReadable.looksRigid_iff` is
this for all statements that can be read.
-/
import ContextDL.Proofs.Surface.Faithfulness
import ContextDL.Surface.Document

namespace ContextDL

open Reader Grammar

-- =============================================================== leading names

mutual

/-- The name that a concept is printed with at its start, if it starts with a
name and not with a mark. -/
def Concept.leadingName? : Concept → Option Iri
  | .atom name => some name
  | .inter operands => leadingOf? 1 operands
  | .union operands => leadingOf? 2 operands
  | .compl _ | .oneOf _ | .restrict .. => none

/-- The name that some operands are printed with at their start, in places of
a given level. -/
def Concept.leadingOf? (place : Nat) : List Concept → Option Iri
  | [] => none
  | c :: _ => if c.level < place then none else c.leadingName?

end

/-- The name that an inclusion is printed with at its start. -/
def Axiom.leadingName? : Axiom → Option Iri
  | .subClassOf sub _ => sub.leadingName?
  | _ => none

/-- A text starts with the word `rigid` and a blank. -/
def LooksRigid (cs : List Char) : Prop :=
  ∃ b rest, cs = rigidWord ++ b :: rest ∧ Text.isBlank b = true

/-- A text is taken for a line of rigid names if it looks like one. -/
theorem isSome_rigidNames? {cs : List Char} :
    (rigidNames? cs).isSome = true ↔ LooksRigid cs := by
  unfold rigidNames? LooksRigid
  by_cases word : rigidWord.isPrefixOf cs = true
  · obtain ⟨rest, rfl⟩ := List.isPrefixOf_iff_prefix.1 word
    rw [if_pos word, List.drop_left]
    cases rest with
    | nil => simp
    | cons c rest => simp
  · rw [if_neg word]
    refine iff_of_false (by simp) fun h => word ?_
    obtain ⟨c, rest, rfl, -⟩ := h
    exact List.isPrefixOf_iff_prefix.2 (List.prefix_append _ _)

-- ======================================================================= texts

/-- A text that starts with a mark does not look like rigid names. -/
theorem not_looksRigid_cons {mark : Char} (h : mark ≠ 'r') (cs : List Char) :
    ¬LooksRigid (mark :: cs) := by
  intro looks
  obtain ⟨b, rest, same, -⟩ := looks
  have word : rigidWord = 'r' :: "igid".toList := by decide
  rw [word, List.cons_append] at same
  exact h (List.cons.inj same).1

/-- A name and what ends it look like rigid names if they are the word and a
blank. -/
theorem looksRigid_name {name cs : List Char} {mark : Char}
    (proper : (Lexeme.name name).IsProper) (stops : mark.isAlphanum = false) :
    LooksRigid (name ++ mark :: cs) ↔
      name = rigidWord ∧ Text.isBlank mark = true := by
  constructor
  · intro looks
    obtain ⟨b, rest, same, blank⟩ := looks
    have letters : ∀ c ∈ rigidWord, c.isAlphanum = true :=
      List.all_eq_true.1 (by decide : rigidWord.all Char.isAlphanum = true)
    have stops' : b.isAlphanum = false := by
      by_contra letter
      rw [Bool.not_eq_false] at letter
      rw [Lexeme.isBlank_eq_false_of_isAlphanum letter] at blank
      cases blank
    -- the name and the word are the longest runs of letters at the start
    have runs := congrArg (List.takeWhile Char.isAlphanum) same
    rw [List.takeWhile_append_of_pos (List.all_eq_true.1 proper.2),
      List.takeWhile_append_of_pos letters, List.takeWhile_cons_of_neg,
      List.takeWhile_cons_of_neg, List.append_nil, List.append_nil] at runs
    · subst runs
      obtain ⟨rfl, rfl⟩ := List.cons.inj (List.append_cancel_left same)
      exact ⟨rfl, blank⟩
    · simp [stops']
    · simp [stops]
  · intro h
    obtain ⟨rfl, blank⟩ := h
    exact ⟨mark, cs, rfl, blank⟩

-- ==================================================================== concepts

variable {reader : Reader}

/-- The word is a name. -/
theorem isProper_rigidWord : (Lexeme.name rigidWord).IsProper := by
  constructor <;> decide

/-- An atom that can be read is the class of everything or of nothing, or has
a name of the reader. -/
theorem Concept.IsReadable.names {name : Iri}
    (h : (Concept.atom name).IsReadable reader) (proper : name ≠ Iri.thing)
    (proper' : name ≠ Iri.nothing) : reader.Names name := by
  generalize hc : Concept.atom name = c at h
  cases h with
  | top => exact absurd (Concept.atom.inj hc) proper
  | bottom => exact absurd (Concept.atom.inj hc) proper'
  | atom known =>
    cases hc
    exact known
  | _ => cases hc

/-- A class and what ends its name look like rigid names if the class is named
by the word and a blank stands behind it. -/
theorem looksRigid_classChars (space : Iri.IsSpace reader.base.toList)
    {name : Iri} (h : (Concept.atom name).IsReadable reader) {mark : Char}
    (stops : mark.isAlphanum = false) (cs : List Char) :
    LooksRigid (name.classChars ++ mark :: cs) ↔
      name = reader.named rigidWord ∧ Text.isBlank mark = true := by
  have other {iri : Iri} (h : iri.localName ≠ rigidWord) :
      iri ≠ reader.named rigidWord := by
    rintro rfl
    exact h (localName_named space isProper_rigidWord)
  unfold Iri.classChars
  split
  · next top =>
    subst top
    refine iff_of_false (not_looksRigid_cons (by decide) _) fun h => ?_
    exact other (by decide +kernel) h.1
  split
  · next bottom =>
    subst bottom
    refine iff_of_false (not_looksRigid_cons (by decide) _) fun h => ?_
    exact other (by decide +kernel) h.1
  · next top bottom =>
    obtain ⟨word, proper, rfl⟩ := h.names top bottom
    rw [localName_named space proper, looksRigid_name proper stops]
    refine and_congr_left fun _ => ⟨fun h => h ▸ rfl, fun same => ?_⟩
    rw [← localName_named space proper, same,
      localName_named space isProper_rigidWord]

/-- A chain looks like rigid names if its first operand does, and stands
without parentheses. -/
theorem Concept.looksRigid_operands {separator : List Char} (place : Nat)
    {operands : List Concept} (two : 2 ≤ operands.length)
    (each : ∀ c ∈ operands, ∀ cs, LooksRigid (c.chars ++ ' ' :: cs) ↔
      c.leadingName? = some (reader.named rigidWord)) (cs : List Char) :
    LooksRigid ((' ' :: separator).intercalate (operandChars place operands) ++
        cs) ↔
      leadingOf? place operands = some (reader.named rigidWord) := by
  obtain ⟨c, d, operands, rfl⟩ : ∃ c d rest, operands = c :: d :: rest := by
    match operands, two with
    | c :: d :: rest, _ => exact ⟨c, d, rest, rfl⟩
  rw [operandChars, operandChars, List.intercalate_cons_cons, leadingOf?,
    placed]
  split
  · exact iff_of_false (not_looksRigid_cons (by decide) _)
      (Option.some_ne_none _).symm
  · rw [List.append_assoc, List.append_assoc, List.cons_append]
    exact each c List.mem_cons_self _

/-- A concept in front of a blank looks like rigid names if it leads with the
word. -/
theorem Concept.IsReadable.looksRigid_iff
    (space : Iri.IsSpace reader.base.toList) {c : Concept}
    (h : c.IsReadable reader) (cs : List Char) :
    LooksRigid (c.chars ++ ' ' :: cs) ↔
      c.leadingName? = some (reader.named rigidWord) := by
  have atom {name : Iri} (h : (Concept.atom name).IsReadable reader)
      (cs : List Char) :
      LooksRigid ((Concept.atom name).chars ++ ' ' :: cs) ↔
        (Concept.atom name).leadingName? = some (reader.named rigidWord) := by
    rw [Concept.chars, looksRigid_classChars space h (by decide),
      Concept.leadingName?, Option.some.injEq]
    exact and_iff_left (by decide)
  induction h generalizing cs with
  | top => exact atom .top cs
  | bottom => exact atom .bottom cs
  | atom known => exact atom (.atom known) cs
  | inter two _ ih =>
    rw [Concept.chars, Concept.leadingName?]
    exact looksRigid_operands 1 two ih _
  | union two _ ih =>
    rw [Concept.chars, Concept.leadingName?]
    exact looksRigid_operands 2 two ih _
  | compl =>
    rw [Concept.chars, Concept.leadingName?]
    exact iff_of_false (not_looksRigid_cons (by decide) _)
      (Option.some_ne_none _).symm
  | oneOf =>
    rw [Concept.chars, Concept.leadingName?]
    exact iff_of_false (not_looksRigid_cons (by decide) _)
      (Option.some_ne_none _).symm
  | @restrict quantifier =>
    rw [Concept.chars, Concept.leadingName?]
    cases quantifier <;>
      exact iff_of_false (not_looksRigid_cons (by decide) _)
        (Option.some_ne_none _).symm

-- ================================================================== statements

/-- The head of an assertion ends in front of a parenthesis, or is in
parentheses itself. -/
theorem Concept.not_looksRigid_head (space : Iri.IsSpace reader.base.toList)
    {c : Concept} (h : c.IsReadable reader) (cs : List Char) :
    ¬LooksRigid (c.headChars ++ '(' :: cs) := by
  unfold Concept.headChars
  split
  · next isAtom =>
    cases c with
    | atom name =>
      rw [Concept.chars, looksRigid_classChars space h (by decide)]
      exact fun looks => absurd looks.2 (by decide)
    | _ => cases isAtom
  · exact not_looksRigid_cons (by decide) _

theorem Role.not_looksRigid_head (space : Iri.IsSpace reader.base.toList)
    {r : Role} (h : r.IsReadable reader) (cs : List Char) :
    ¬LooksRigid (r.headChars ++ '(' :: cs) := by
  unfold Role.headChars
  split
  · next isNamed =>
    cases r with
    | named p =>
      obtain ⟨name, proper, hname⟩ := h
      rw [Role.chars, show p = reader.named name from hname,
        localName_named space proper, looksRigid_name proper (by decide)]
      exact fun looks => absurd looks.2 (by decide)
    | inverse p => cases isNamed
  · exact not_looksRigid_cons (by decide) _

/-- A readable axiom looks like rigid names if it leads with the word. -/
theorem Axiom.IsReadable.looksRigid_iff
    (space : Iri.IsSpace reader.base.toList) {a : Axiom}
    (h : a.IsReadable reader) (cs : List Char) :
    LooksRigid (a.chars ++ cs) ↔
      a.leadingName? = some (reader.named rigidWord) := by
  cases h with
  | subClassOf left _ =>
    rw [Axiom.chars, Axiom.leadingName?, List.append_assoc, List.append_assoc]
    exact left.looksRigid_iff space _
  | classAssertion concept _ =>
    rw [Axiom.chars, List.append_assoc]
    exact iff_of_false (Concept.not_looksRigid_head space concept _)
      (Option.some_ne_none _).symm
  | roleAssertion role _ _ =>
    rw [Axiom.chars, Role.pairChars, List.append_assoc]
    exact iff_of_false (Role.not_looksRigid_head space role _)
      (Option.some_ne_none _).symm

/-- A readable statement looks like rigid names if its axiom leads with the
word. -/
theorem Statement.IsReadable.looksRigid_iff
    (space : Iri.IsSpace reader.base.toList) {s : Statement}
    (h : s.IsReadable reader) :
    LooksRigid s.chars ↔
      s.body.leadingName? = some (reader.named rigidWord) := by
  -- the tag stands behind the axiom
  cases h with
  | @plain a body =>
    rw [Statement.chars_plain, ← List.append_nil a.chars]
    exact body.looksRigid_iff space _
  | global body =>
    rw [Statement.chars_objectGlobal]
    exact body.looksRigid_iff space _
  | definedBy body _ _ =>
    rw [Statement.chars_definedBy]
    exact body.looksRigid_iff space _

/-- A statement that is read looks like rigid names if its axiom leads with
the word. -/
theorem Grammar.IsStatement.looksRigid_iff
    (space : Iri.IsSpace reader.base.toList) {ts : List Token} {s : Statement}
    (h : IsStatement reader ts s)
    (proper : ∀ l ∈ ts.map Token.lexeme, l.IsProper) :
    LooksRigid s.chars ↔
      s.body.leadingName? = some (reader.named rigidWord) :=
  (h.isReadable proper).1.looksRigid_iff space

end ContextDL
