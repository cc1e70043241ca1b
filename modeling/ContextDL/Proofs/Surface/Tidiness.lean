/-
What is printed fills one line.

A tidy text has no line feed in it and no blank at either end. Trimming leaves
it alone, and so does cutting a text into lines, if the text is put together
out of tidy ones. Tidy texts may have blanks inside: two of them with anything
but a line feed in between are a tidy text again (`IsTidy.around`), and that
is how printers put texts together.

`Statement.IsReadable.isTidy`: what can be read as a statement is written as a
tidy text. The written forms of an arbitrary statement need not be tidy. An
empty chain has no written form at all, and a name that no reader knows may
hold a line feed.
-/
import ContextDL.Proofs.Surface.Faithfulness

namespace ContextDL

-- ======================================================================= texts

/-- A text without line feeds that neither starts nor ends with a blank. -/
structure IsTidy (cs : List Char) : Prop where
  oneLine : '\n' ∉ cs
  starts : ∃ c rest, cs = c :: rest ∧ Text.isBlank c = false
  ends : ∃ front c, cs = front ++ [c] ∧ Text.isBlank c = false

/-- Texts on one line with a separator on one line between them are on one
line. -/
theorem not_mem_intercalate {separator : List Char} {texts : List (List Char)}
    (between : '\n' ∉ separator) (each : ∀ text ∈ texts, '\n' ∉ text) :
    '\n' ∉ separator.intercalate texts := by
  rw [← List.forall_mem_ne]
  exact Text.forall_mem_intercalate (List.forall_mem_ne.2 between)
    fun text ht => List.forall_mem_ne.2 (each text ht)

namespace IsTidy

variable {cs ds : List Char}

/-- A text without blanks is tidy. -/
theorem of_visible (nonempty : cs ≠ [])
    (visible : (cs.all fun c => !Text.isBlank c) = true) : IsTidy cs := by
  have each (c : Char) (hc : c ∈ cs) : Text.isBlank c = false := by
    simpa using List.all_eq_true.1 visible c hc
  refine ⟨fun feed => ?_, ?_, ?_⟩
  · have blank : Text.isBlank '\n' = true := by decide
    rw [each _ feed] at blank
    cases blank
  · obtain ⟨c, rest, rfl⟩ := List.exists_cons_of_ne_nil nonempty
    exact ⟨c, rest, rfl, each c List.mem_cons_self⟩
  · exact ⟨cs.dropLast, cs.getLast nonempty,
      (List.dropLast_concat_getLast nonempty).symm,
      each _ (List.getLast_mem nonempty)⟩

/-- Two tidy texts with anything but a line feed between them are tidy. -/
theorem around (hcs : IsTidy cs) {middle : List Char} (between : '\n' ∉ middle)
    (hds : IsTidy ds) : IsTidy (cs ++ middle ++ ds) := by
  obtain ⟨c, rest, hc, first⟩ := hcs.starts
  obtain ⟨front, d, hd, last⟩ := hds.ends
  refine ⟨?_, ⟨c, rest ++ middle ++ ds, by simp [hc], first⟩,
    ⟨cs ++ middle ++ front, d, by simp [hd], last⟩⟩
  simp [hcs.oneLine, between, hds.oneLine]

theorem append (hcs : IsTidy cs) (hds : IsTidy ds) : IsTidy (cs ++ ds) := by
  rw [← List.append_nil cs]
  exact hcs.around List.not_mem_nil hds

/-- Two marks with anything but a line feed between them are tidy. -/
theorem enclosed {opening closing : Char} {middle : List Char}
    (between : '\n' ∉ middle) (first : Text.isBlank opening = false)
    (last : Text.isBlank closing = false) :
    IsTidy (opening :: middle ++ [closing]) := by
  have single {c : Char} (visible : Text.isBlank c = false) : IsTidy [c] :=
    of_visible (by simp) (by simpa using visible)
  exact (single first).around between (single last)

theorem bracketed (between : '\n' ∉ cs) : IsTidy (bracketed cs) :=
  enclosed between (by decide) (by decide)

/-- Tidy texts, one at least, with a separator on one line between them. -/
theorem intercalate {separator : List Char} {texts : List (List Char)}
    (between : '\n' ∉ separator) (nonempty : texts ≠ [])
    (each : ∀ text ∈ texts, IsTidy text) :
    IsTidy (separator.intercalate texts) := by
  induction texts with
  | nil => exact absurd rfl nonempty
  | cons text texts ih =>
    obtain ⟨first, others⟩ := List.forall_mem_cons.1 each
    cases texts with
    | nil =>
      rw [List.intercalate_singleton]
      exact first
    | cons next texts =>
      rw [List.intercalate_cons_cons]
      exact first.around between (ih (by simp) others)

/-- Trimming leaves a tidy text alone. -/
theorem trim_eq (h : IsTidy cs) : Text.trim cs = cs := by
  have start : Text.trimStart cs = cs := by
    obtain ⟨c, rest, rfl, visible⟩ := h.starts
    exact List.dropWhile_cons_of_neg (by simp [visible])
  obtain ⟨front, c, rfl, visible⟩ := h.ends
  rw [Text.trim, start, Text.trimEnd, List.reverse_append,
    List.reverse_singleton, List.singleton_append,
    List.dropWhile_cons_of_neg (by simp [visible])]
  simp

end IsTidy

-- ======================================================================= names

variable {reader : Reader}

theorem Lexeme.IsProper.isTidy {name : List Char}
    (proper : (Lexeme.name name).IsProper) : IsTidy name := by
  refine .of_visible proper.1 (List.all_eq_true.2 fun c hc => ?_)
  rw [isBlank_eq_false_of_isAlphanum (List.all_eq_true.1 proper.2 c hc)]
  rfl

theorem Reader.Names.isTidy (space : Iri.IsSpace reader.base.toList)
    {iri : Iri} (h : reader.Names iri) : IsTidy iri.localName := by
  obtain ⟨name, proper, rfl⟩ := h
  rw [localName_named space proper]
  exact proper.isTidy

theorem Individual.IsReadable.isTidy (space : Iri.IsSpace reader.base.toList)
    {a : Individual} (h : a.IsReadable reader) : IsTidy a.chars := by
  cases a with
  | named iri => exact Reader.Names.isTidy space h
  | anonymous _ => exact h.elim

theorem Role.IsReadable.isTidy (space : Iri.IsSpace reader.base.toList)
    {r : Role} (h : r.IsReadable reader) : IsTidy r.chars := by
  have property : IsTidy r.property.localName := Reader.Names.isTidy space h
  cases r with
  | named p => exact property
  | inverse p => exact property.append (.of_visible (by simp) (by decide))

-- ==================================================================== concepts

theorem Iri.isTidy_classChars (space : Iri.IsSpace reader.base.toList)
    {name : Iri} (h : reader.Names name) : IsTidy name.classChars := by
  unfold Iri.classChars
  split
  · exact .of_visible (by simp) (by decide)
  split
  · exact .of_visible (by simp) (by decide)
  · exact h.isTidy space

/-- A quantifier with its role starts with a mark and ends with the dot. -/
theorem Quantifier.isTidy_chars (space : Iri.IsSpace reader.base.toList)
    {r : Role} (h : r.IsReadable reader) (q : Quantifier) :
    IsTidy (q.chars r) := by
  have role := (h.isTidy space).oneLine
  have digits (n : Nat) : '\n' ∉ Text.decimal n := by
    intro hn
    have := List.all_eq_true.1 (Text.all_isDigit_decimal n) _ hn
    revert this
    decide
  have counted {mark : Char} (visible : Text.isBlank mark = false)
      (n : UInt32) :
      IsTidy (mark :: Text.decimal n.toNat ++ ' ' :: r.chars ++ ['.']) :=
    .enclosed (by simp [role, digits]) visible (by decide)
  cases q with
  | existential => exact .enclosed role (by decide) (by decide)
  | universal => exact .enclosed role (by decide) (by decide)
  | atLeast n => exact counted (by decide) n
  | atMost n => exact counted (by decide) n
  | exactly n => exact counted (by decide) n

theorem Concept.isTidy_placed (place : Nat) (c : Concept) {text : List Char}
    (h : IsTidy text) : IsTidy (placed place c text) := by
  unfold placed
  split
  · exact .bracketed h.oneLine
  · exact h

/-- The operands of a chain with a mark between them. -/
theorem Concept.isTidy_operands {mark : String} (between : '\n' ∉ mark.toList)
    (place : Nat) {cs : List Concept} (two : 2 ≤ cs.length)
    (each : ∀ c ∈ cs, IsTidy c.chars) :
    IsTidy (mark.toList.intercalate (operandChars place cs)) := by
  rw [operandChars_eq]
  refine .intercalate between ?_ ?_
  · rintro h
    rw [List.map_eq_nil_iff.1 h] at two
    cases two
  · intro text htext
    obtain ⟨c, hc, rfl⟩ := List.mem_map.1 htext
    exact isTidy_placed place c (each c hc)

/-- A concept that can be read is written as a tidy text. -/
theorem Concept.IsReadable.isTidy (space : Iri.IsSpace reader.base.toList)
    {c : Concept} (h : c.IsReadable reader) : IsTidy c.chars := by
  induction h with
  | top => exact .of_visible (by decide) (by decide)
  | bottom => exact .of_visible (by decide) (by decide)
  | atom known =>
    rw [Concept.chars]
    exact Iri.isTidy_classChars space known
  | inter two _ ih =>
    rw [Concept.chars]
    exact isTidy_operands (by decide) 1 two ih
  | union two _ ih =>
    rw [Concept.chars]
    exact isTidy_operands (by decide) 2 two ih
  | compl _ ih =>
    have mark : IsTidy ['¬'] := .of_visible (by simp) (by decide)
    rw [Concept.chars]
    exact mark.append (isTidy_placed 2 _ ih)
  | @oneOf members nonempty each =>
    rw [Concept.chars]
    refine .enclosed (not_mem_intercalate (by decide) ?_) (by decide)
      (by decide)
    intro text htext
    obtain ⟨a, ha, rfl⟩ := List.mem_map.1 htext
    exact ((each a ha).isTidy space).oneLine
  | @restrict quantifier _ _ known _ ih =>
    rw [Concept.chars]
    exact (quantifier.isTidy_chars space known).append (isTidy_placed 2 _ ih)

-- ================================================================== statements

theorem Concept.isTidy_headChars {c : Concept} (h : IsTidy c.chars) :
    IsTidy c.headChars := by
  unfold Concept.headChars
  split
  · exact h
  · exact .bracketed h.oneLine

theorem Role.isTidy_headChars {r : Role} (h : IsTidy r.chars) :
    IsTidy r.headChars := by
  unfold Role.headChars
  split
  · exact h
  · exact .bracketed h.oneLine

/-- A readable axiom is written as a tidy text. -/
theorem Axiom.IsReadable.isTidy (space : Iri.IsSpace reader.base.toList)
    {a : Axiom} (h : a.IsReadable reader) : IsTidy a.chars := by
  cases h with
  | subClassOf left right =>
    exact (left.isTidy space).around (by decide) (right.isTidy space)
  | classAssertion concept member =>
    have argument := member.isTidy space
    exact (Concept.isTidy_headChars (concept.isTidy space)).append
      (.bracketed argument.oneLine)
  | roleAssertion role source target =>
    have first := source.isTidy space
    have second := target.isTidy space
    refine (Role.isTidy_headChars (role.isTidy space)).append (.bracketed ?_)
    simp [first.oneLine, second.oneLine]

/-- A readable statement is written as a tidy text. -/
theorem Statement.IsReadable.isTidy (space : Iri.IsSpace reader.base.toList)
    {s : Statement} (h : s.IsReadable reader) : IsTidy s.chars := by
  cases h with
  | plain body =>
    rw [Statement.chars_plain]
    exact body.isTidy space
  | global body =>
    have word : IsTidy Reader.globalWord :=
      .of_visible (by decide) (by decide)
    rw [Statement.chars_objectGlobal, ← List.append_assoc]
    exact (body.isTidy space).around (by decide) word
  | @definedBy _ name body proper _ =>
    rw [Statement.chars_definedBy, ← List.append_assoc]
    exact (body.isTidy space).around (by decide)
      (Reader.Names.isTidy space ⟨name, proper, rfl⟩)

end ContextDL
