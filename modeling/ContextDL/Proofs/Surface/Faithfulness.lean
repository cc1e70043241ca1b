/-
Printing, reading.

What a reader can read, it reads from the written form, if this is not nested
more deeply than the reader goes. `Printing` says so for the lexemes of a
concept. Here the text of a statement is put together out of those of its
parts: a head is a name or one group, an argument is a name in parentheses, and
a tag stands behind the axiom (`Statement.IsReadable.spells`).

Two statements with one text are then one statement. Nothing is asked of their
nesting: what is readable for a reader is readable for the reader of the same
names that goes deeper, and some reader goes deep enough for both.

What is read from a text is readable and not nested too deeply (`Nesting`). So
it is read again from its written form, by the same reader
(`Reader.read_print_read`).
-/
import ContextDL.Proofs.Surface.Printing
import ContextDL.Proofs.Surface.Statement

namespace ContextDL

open Grammar Lexeme Reader

variable {reader : Reader}

-- ======================================================================= heads

/-- A concept is written as a head in front of its argument. -/
theorem Concept.IsReadable.spells_head (space : Iri.IsSpace reader.base.toList)
    (valid : reader.NamesValid) {c : Concept} (h : c.IsReadable reader)
    (bound : c.headNesting ≤ reader.maxDepth) :
    ∃ ls, Spells c.headChars ls ∧ ∀ ts : List Token, ts.map Token.lexeme = ls →
      IsConceptHead ts ∧ reader.conceptOfTokens ts = .ok c := by
  unfold Concept.headNesting at bound
  unfold Concept.headChars
  split
  · next isAtom =>
    cases c with
    | atom name =>
      obtain ⟨l, spells, atom, factor⟩ := spells_atom space valid h
      refine ⟨[l], by rw [Concept.chars]; exact spells, ?_⟩
      intro ts hts
      refine ⟨isConceptHead_iff.2 (Or.inl ⟨l, hts, atom⟩), ?_⟩
      rw [conceptOfTokens_eq_ok, hts]
      exact isConcept_of_isUnion (isUnion_of_isFactor (factor _))
    | _ => cases isAtom
  · next compound =>
    rw [if_neg compound] at bound
    obtain ⟨ls, spells, inside⟩ := h.spells space valid bound
    refine ⟨_, spells.bracketed, ?_⟩
    intro ts hts
    constructor
    · refine isConceptHead_iff.2 (Or.inr (isGroup_iff.2 ⟨ls, hts, ?_⟩))
      exact inside.isNested.keepsBalance.isBalanced.1
    · rw [conceptOfTokens_eq_ok, hts]
      exact isConcept_of_isUnion
        (isUnion_of_isFactor (isFactor_bracketed inside))

/-- A role is written as a head in front of its arguments. -/
theorem Role.IsReadable.spells_head (space : Iri.IsSpace reader.base.toList)
    (valid : reader.NamesValid) {r : Role} (h : r.IsReadable reader)
    (bound : r.headNesting ≤ reader.maxDepth) :
    ∃ ls, Spells r.headChars ls ∧ ∀ ts : List Token, ts.map Token.lexeme = ls →
      IsRoleHead ts ∧ reader.roleOfTokens ts = .ok r := by
  unfold Role.headNesting at bound
  unfold Role.headChars
  split
  · next isNamed =>
    cases r with
    | named p =>
      obtain ⟨name, hname, spells, known⟩ := h.exists_name space valid
      refine ⟨[.name name], ?_, ?_⟩
      · rw [Role.chars, show p.localName = name from hname]
        exact spells
      · intro ts hts
        refine ⟨Or.inl ⟨name, hts⟩, ?_⟩
        rw [roleOfTokens_eq_ok, hts]
        exact .name 0 known
    | inverse p => cases isNamed
  · next inverse =>
    rw [if_neg inverse] at bound
    obtain ⟨depth, hdepth⟩ := Nat.exists_eq_add_one.2 bound
    obtain ⟨ls, spells, inside⟩ := h.spells space valid
    refine ⟨_, spells.bracketed, ?_⟩
    intro ts hts
    constructor
    · refine Or.inr (isGroup_iff.2 ⟨ls, hts, ?_⟩)
      exact (inside 0).isNested.keepsBalance.isBalanced.1
    · rw [roleOfTokens_eq_ok, hts, budget, hdepth]
      exact .group 0 (inside depth)

-- ================================================================== statements

/-- An individual is written as its name. -/
theorem Individual.IsReadable.spells (space : Iri.IsSpace reader.base.toList)
    {a : Individual} (h : a.IsReadable reader) :
    ∃ name, a = .named (reader.named name) ∧ Spells a.chars [.name name] := by
  cases a with
  | named iri =>
    obtain ⟨name, proper, rfl⟩ := h
    refine ⟨name, rfl, ?_⟩
    rw [Individual.chars, localName_named space proper]
    exact .name proper
  | anonymous _ => exact h.elim

/-- An axiom is written as tokens that are read as the axiom. -/
theorem Axiom.IsReadable.spells (space : Iri.IsSpace reader.base.toList)
    (valid : reader.NamesValid) {a : Axiom} (h : a.IsReadable reader)
    (bound : a.nesting ≤ reader.maxDepth) :
    ∃ ls, Spells a.chars ls ∧ ∀ ts : List Token, ts.map Token.lexeme = ls →
      IsBody reader ts a := by
  cases h with
  | subClassOf left right =>
    obtain ⟨boundSub, boundSup⟩ := Nat.max_le.1 bound
    obtain ⟨ls, spellsSub, sub⟩ :=
      left.spells space valid (Nat.lt_succ_of_le boundSub)
    obtain ⟨ms, spellsSup, sup⟩ :=
      right.spells space valid (Nat.lt_succ_of_le boundSup)
    refine ⟨ls ++ .inclusion :: ms, ?_, ?_⟩
    · rw [Axiom.chars]
      exact spellsSub.joined rfl spellsSup
    · intro ts hts
      obtain ⟨front, back, rfl, rfl, hback⟩ := List.map_eq_append_iff.1 hts
      obtain ⟨mark, back, rfl, hmark, rfl⟩ := List.map_eq_cons_iff.1 hback
      exact .subClassOf hmark (conceptOfTokens_eq_ok.2 sub)
        (conceptOfTokens_eq_ok.2 sup)
  | classAssertion concept member =>
    obtain ⟨ls, spells, head⟩ := concept.spells_head space valid bound
    obtain ⟨a, rfl, spellsMember⟩ := member.spells space
    refine ⟨ls ++ [.openParen, .name a, .closeParen], ?_, ?_⟩
    · rw [Axiom.chars]
      exact spells.applied spellsMember
    · intro ts hts
      obtain ⟨front, back, rfl, hfront, hback⟩ :=
        List.map_eq_append_iff.1 hts
      obtain ⟨single, read⟩ := head front hfront
      exact .classAssertion single read hback
  | roleAssertion role source target =>
    obtain ⟨ls, spells, head⟩ := role.spells_head space valid bound
    obtain ⟨a, rfl, spellsSource⟩ := source.spells space
    obtain ⟨b, rfl, spellsTarget⟩ := target.spells space
    have pair := spellsSource.append_mark (c := ',') rfl spellsTarget
    refine ⟨ls ++ [.openParen, .name a, .comma, .name b, .closeParen], ?_, ?_⟩
    · rw [Axiom.chars, Role.pairChars]
      exact spells.applied pair
    · intro ts hts
      obtain ⟨front, back, rfl, hfront, hback⟩ :=
        List.map_eq_append_iff.1 hts
      obtain ⟨single, read⟩ := head front hfront
      exact .roleAssertion single read hback

namespace Statement

/-- Without notes nothing stands behind the axiom. -/
theorem chars_plain (a : Axiom) : (plain a).chars = a.chars := by
  simp [Statement.chars, plain, definedBy, isGlobal]

theorem chars_objectGlobal (a : Axiom) :
    Statement.chars ⟨a, [.objectGlobal]⟩ =
      a.chars ++ (" @ ".toList ++ globalWord) := by
  have label : Note.objectGlobal.isLabel "objectGlobal" = true := by decide
  have noConcept : ¬Note.objectGlobal.isDefinedBy = true := by decide
  have unnamed : definedBy ⟨a, [.objectGlobal]⟩ = [] := by
    rw [definedBy, List.filter_cons_of_neg noConcept, List.filter_nil,
      List.map_nil]
  have global : Statement.isGlobal ⟨a, [.objectGlobal]⟩ = true := by
    rw [Statement.isGlobal, List.any_cons, label, Bool.true_or]
  rw [Statement.chars, unnamed, if_pos global, List.flatMap_nil,
    List.append_nil]
  rfl

theorem chars_definedBy (a : Axiom) (iri : Iri) :
    Statement.chars ⟨a, [.definedBy iri]⟩ =
      a.chars ++ (" @ ".toList ++ iri.localName) := by
  have named : definedBy ⟨a, [.definedBy iri]⟩ = [.iri iri] := rfl
  have unlabelled : ¬Statement.isGlobal ⟨a, [.definedBy iri]⟩ = true :=
    Bool.false_ne_true
  rw [Statement.chars, named, if_neg unlabelled, List.append_nil,
    List.flatMap_singleton, tagChars]

/-- A tag is written behind the axiom. -/
theorem spells_tag {body name : List Char} {ls : List Lexeme}
    (spells : Spells body ls) (proper : (Lexeme.name name).IsProper) :
    Spells (body ++ (" @ ".toList ++ name)) (ls ++ [.tag, .name name]) := by
  rw [← List.append_assoc]
  exact spells.joined rfl (.name proper)

/-- A statement is written as tokens that are read as the statement. -/
theorem IsReadable.spells (space : Iri.IsSpace reader.base.toList)
    (valid : reader.NamesValid) {s : Statement} (h : s.IsReadable reader)
    (bound : s.body.nesting ≤ reader.maxDepth) :
    ∃ ls, Spells s.chars ls ∧ ∀ ts : List Token, ts.map Token.lexeme = ls →
      IsStatement reader ts s := by
  cases h with
  | plain body =>
    obtain ⟨ls, spells, tokens⟩ := body.spells space valid bound
    refine ⟨ls, ?_, fun ts hts => .untagged (tokens ts hts)⟩
    rw [chars_plain]
    exact spells
  | global body =>
    obtain ⟨ls, spells, tokens⟩ := body.spells space valid bound
    refine ⟨ls ++ [.tag, .name globalWord], ?_, ?_⟩
    · rw [chars_objectGlobal]
      exact spells_tag spells Lexeme.isProper_globalWord
    · intro ts hts
      obtain ⟨front, back, rfl, hfront, hback⟩ :=
        List.map_eq_append_iff.1 hts
      exact .global (tokens front hfront) hback
  | @definedBy _ name body proper other =>
    obtain ⟨ls, spells, tokens⟩ := body.spells space valid bound
    refine ⟨ls ++ [.tag, .name name], ?_, ?_⟩
    · rw [chars_definedBy, localName_named space proper]
      exact spells_tag spells proper
    · intro ts hts
      obtain ⟨front, back, rfl, hfront, hback⟩ :=
        List.map_eq_append_iff.1 hts
      exact .definedBy (tokens front hfront) hback other

end Statement

-- ===================================================================== reading

namespace Reader

/-- A text is cut into the tokens that it spells, if these are nested. -/
theorem exists_tokens {cs : List Char} {ls : List Lexeme}
    (spells : Spells cs ls) (nested : IsNested ls) :
    ∃ ts, tokens cs = .ok ts ∧ ts.map Token.lexeme = ls := by
  obtain ⟨ts, hts, rfl⟩ := Lexeme.ofText_eq_ok.1 spells.ofText_eq_ok
  exact ⟨ts, tokens_eq_ok.2 ⟨hts, nested.keepsBalance.isBalanced⟩, rfl⟩

/-- A concept is read from its text. -/
theorem concept_text_of_isReadable (space : Iri.IsSpace reader.base.toList)
    (valid : reader.NamesValid) {c : Concept} (h : c.IsReadable reader)
    (bound : c.nesting ≤ reader.maxDepth) : reader.concept c.text = .ok c := by
  obtain ⟨ls, spells, sentence⟩ :=
    h.spells space valid (Nat.lt_succ_of_le bound)
  obtain ⟨ts, hts, rfl⟩ := exists_tokens spells sentence.isNested
  unfold concept Concept.text
  rw [String.toList_ofList]
  exact bind_eq_ok.2 ⟨ts, hts, conceptOfTokens_eq_ok.2 sentence⟩

/-- A role is read from its characters, at any depth. -/
theorem role_chars_of_isReadable (space : Iri.IsSpace reader.base.toList)
    (valid : reader.NamesValid) {r : Role} (h : r.IsReadable reader) :
    reader.role (String.ofList r.chars) = .ok r := by
  obtain ⟨ls, spells, sentence⟩ := h.spells space valid
  have whole := sentence reader.maxDepth
  obtain ⟨ts, hts, rfl⟩ := exists_tokens spells whole.isNested
  unfold role
  rw [String.toList_ofList]
  exact bind_eq_ok.2 ⟨ts, hts, roleOfTokens_eq_ok.2 whole⟩

/-- A statement is read from its text. -/
theorem statement_text_of_isReadable (space : Iri.IsSpace reader.base.toList)
    (valid : reader.NamesValid) {s : Statement} (h : s.IsReadable reader)
    (bound : s.body.nesting ≤ reader.maxDepth) :
    reader.statement s.text = .ok s := by
  obtain ⟨ls, spells, tokens⟩ := h.spells space valid bound
  obtain ⟨ts, hts, hls⟩ := Lexeme.ofText_eq_ok.1 spells.ofText_eq_ok
  unfold statement Statement.text
  rw [String.toList_ofList]
  exact statementOfChars_of_isStatement valid hts (tokens ts hls)

end Reader

-- ============================================================== deeper readers

/-- The reader with the same names that goes to another depth. -/
def Reader.withDepth (reader : Reader) (depth : Nat) : Reader :=
  { reader with maxDepth := depth }

section

variable (depth : Nat)

theorem Individual.IsReadable.withDepth {a : Individual}
    (h : a.IsReadable reader) : a.IsReadable (reader.withDepth depth) := by
  cases a with
  | named iri => exact h
  | anonymous _ => exact h.elim

/-- What is readable at all is readable for a reader of any depth. -/
theorem Concept.IsReadable.withDepth {c : Concept} (h : c.IsReadable reader) :
    c.IsReadable (reader.withDepth depth) := by
  induction h with
  | top => exact .top
  | bottom => exact .bottom
  | atom known => exact .atom known
  | inter two _ ih => exact .inter two ih
  | union two _ ih => exact .union two ih
  | compl _ ih => exact .compl ih
  | oneOf nonempty each =>
    exact .oneOf nonempty fun a ha => (each a ha).withDepth depth
  | restrict known _ ih => exact .restrict known ih

theorem Axiom.IsReadable.withDepth {a : Axiom} (h : a.IsReadable reader) :
    a.IsReadable (reader.withDepth depth) := by
  cases h with
  | subClassOf left right =>
    exact .subClassOf (left.withDepth depth) (right.withDepth depth)
  | classAssertion concept member =>
    exact .classAssertion (concept.withDepth depth) (member.withDepth depth)
  | roleAssertion role source target =>
    exact .roleAssertion role (source.withDepth depth)
      (target.withDepth depth)

theorem Statement.IsReadable.withDepth {s : Statement}
    (h : s.IsReadable reader) : s.IsReadable (reader.withDepth depth) := by
  cases h with
  | plain body => exact .plain (body.withDepth depth)
  | global body => exact .global (body.withDepth depth)
  | definedBy body proper other =>
    exact .definedBy (body.withDepth depth) proper other

end

/-- Readable statements with one text are one statement: a reader that goes
deep enough reads both from it. -/
theorem Statement.IsReadable.eq_of_text_eq
    (space : Iri.IsSpace reader.base.toList) (valid : reader.NamesValid)
    {s t : Statement} (hs : s.IsReadable reader) (ht : t.IsReadable reader)
    (same : s.text = t.text) : s = t := by
  let deep := reader.withDepth (max s.body.nesting t.body.nesting)
  have sameSpace : Iri.IsSpace deep.base.toList := space
  have sameNames : deep.NamesValid := valid
  have first := statement_text_of_isReadable sameSpace sameNames
    (hs.withDepth _) (Nat.le_max_left _ _)
  have second := statement_text_of_isReadable sameSpace sameNames
    (ht.withDepth _) (Nat.le_max_right _ _)
  rw [same, second] at first
  exact (Except.ok.inj first).symm

namespace Reader

/-- Printing is faithful. A readable statement that is not nested too deeply is
read from its written form, notes and all, and no two readable statements have
one written form. -/
theorem statement_faithful (space : Iri.IsSpace reader.base.toList)
    (valid : reader.NamesValid) :
    (∀ s : Statement, s.IsReadable reader →
      s.body.nesting ≤ reader.maxDepth → reader.statement s.text = .ok s) ∧
      ∀ s t : Statement, s.IsReadable reader → t.IsReadable reader →
        s.text = t.text → s = t := by
  constructor
  · intro s readable bound
    exact statement_text_of_isReadable space valid readable bound
  · intro s t hs ht same
    exact hs.eq_of_text_eq space valid ht same

/-- A statement whose head needs parentheses, as one of its operands does and
the filler of a restriction, and one that has the operands of an intersection
grouped in another way, which is written in another way. -/
theorem statement_faithful_standard :
    ∃ s t : Statement, s.IsReadable standard ∧ t.IsReadable standard ∧
      s.body.nesting = 4 ∧
      s.text = "(A ⊔ ≤3 r^-1.(¬{a} ⊓ ⊤) ⊓ (B ⊓ A))(a) @ N" ∧
      standard.statement s.text = .ok s ∧ s ≠ t ∧ s.text ≠ t.text := by
  have names (c : Char) (h : c.isAlphanum = true) :
      standard.Names (standard.named [c]) :=
    ⟨[c], ⟨by simp, by simpa using h⟩, rfl⟩
  have pair {c d : Concept} (hc : c.IsReadable standard)
      (hd : d.IsReadable standard) : ∀ e ∈ [c, d], e.IsReadable standard :=
    List.forall_mem_cons.2 ⟨hc, List.forall_mem_singleton.2 hd⟩
  let a : Individual := .named (standard.named ['a'])
  let role : Role := .inverse (standard.named ['r'])
  let A : Concept := .atom (standard.named ['A'])
  let B : Concept := .atom (standard.named ['B'])
  let filler : Concept := .inter [.compl (.oneOf [a]), .top]
  let union : Concept := .union [A, .restrict (.atMost 3) role filler]
  let s : Statement :=
    ⟨.classAssertion (.inter [union, .inter [B, A]]) a,
      [.definedBy (standard.named ['N'])]⟩
  let t : Statement :=
    ⟨.classAssertion (.inter [.inter [union, B], A]) a,
      [.definedBy (standard.named ['N'])]⟩
  have hA : A.IsReadable standard := .atom (names 'A' (by decide))
  have hB : B.IsReadable standard := .atom (names 'B' (by decide))
  have ha : a.IsReadable standard := names 'a' (by decide)
  have hrole : role.IsReadable standard := names 'r' (by decide)
  have nominal : (Concept.oneOf [a]).IsReadable standard :=
    .oneOf (by simp) (List.forall_mem_singleton.2 ha)
  have hfiller : filler.IsReadable standard :=
    .inter (by simp) (pair (.compl nominal) .top)
  have hunion : union.IsReadable standard :=
    .union (by simp) (pair hA (.restrict hrole hfiller))
  have tag : (Lexeme.name ['N']).IsProper := by constructor <;> decide
  have hs : s.IsReadable standard :=
    .definedBy (.classAssertion (.inter (by simp)
      (pair hunion (.inter (by simp) (pair hB hA)))) ha) tag (by decide)
  have ht : t.IsReadable standard :=
    .definedBy (.classAssertion (.inter (by simp)
      (pair (.inter (by simp) (pair hunion hB)) hA)) ha) tag (by decide)
  have nesting : s.body.nesting = 4 := by decide +kernel
  have different : s ≠ t := by decide +kernel
  obtain ⟨read, injective⟩ :=
    statement_faithful isSpace_standard namesValid_standard
  exact ⟨s, t, hs, ht, nesting, by decide +kernel,
    read s hs (by rw [nesting]; decide), different,
    fun same => different (injective s t hs ht same)⟩

-- ================================================================ what is read

/-- A concept that is read can be written, and is no more nested than the
reader goes. -/
theorem isWritten_of_concept {text : String} {c : Concept}
    (h : reader.concept text = .ok c) :
    c.IsWritten reader 0 reader.budget := by
  obtain ⟨ts, hts, hc⟩ := bind_eq_ok.1 h
  have proper : ∀ l ∈ ts.map Token.lexeme, l.IsProper := fun _ =>
    Token.isProper_of_ofText (tokens_eq_ok.1 hts).1
  exact (conceptOfTokens_eq_ok.1 hc).isWritten proper

/-- A statement that is read can be written, and is no more nested than the
reader goes. -/
theorem isReadable_of_statementOfChars {cs : List Char} {s : Statement}
    (h : reader.statementOfChars cs = .ok s) :
    s.IsReadable reader ∧ s.body.nesting ≤ reader.maxDepth := by
  obtain ⟨ts, hts, tokens⟩ := isStatement_of_statementOfChars h
  exact tokens.isReadable fun _ => Token.isProper_of_ofText hts

-- =============================================================== reading again

/-- A concept that is read is read again from its text. -/
theorem concept_text (space : Iri.IsSpace reader.base.toList)
    (valid : reader.NamesValid) {text : String} {c : Concept}
    (h : reader.concept text = .ok c) : reader.concept c.text = .ok c := by
  obtain ⟨readable, bound⟩ :=
    Concept.isWritten_zero_iff.1 (isWritten_of_concept h)
  exact concept_text_of_isReadable space valid readable bound

/-- A role that is read is read again from its characters. -/
theorem role_chars (space : Iri.IsSpace reader.base.toList)
    (valid : reader.NamesValid) {text : String} {r : Role}
    (h : reader.role text = .ok r) :
    reader.role (String.ofList r.chars) = .ok r := by
  obtain ⟨ts, hts, hr⟩ := bind_eq_ok.1 h
  have readable := (roleOfTokens_eq_ok.1 hr).isReadable fun _ =>
    Token.isProper_of_ofText (tokens_eq_ok.1 hts).1
  exact role_chars_of_isReadable space valid readable

/-- A statement that is read is read again from its text. -/
theorem statement_text (space : Iri.IsSpace reader.base.toList)
    (valid : reader.NamesValid) {text : String} {s : Statement}
    (h : reader.statement text = .ok s) : reader.statement s.text = .ok s := by
  obtain ⟨readable, bound⟩ := isReadable_of_statementOfChars h
  exact statement_text_of_isReadable space valid readable bound

/-- What is read from a text is read again, by the same reader, from what it
is written as. In particular every concept that is read can be written, and no
more nested than the reader goes. -/
theorem read_print_read (space : Iri.IsSpace reader.base.toList)
    (valid : reader.NamesValid) (text : String) :
    (∀ s, reader.statement text = .ok s → reader.statement s.text = .ok s) ∧
      (∀ c, reader.concept text = .ok c →
        c.IsReadable reader ∧ c.nesting ≤ reader.maxDepth ∧
          reader.concept c.text = .ok c) ∧
      ∀ r, reader.role text = .ok r →
        reader.role (String.ofList r.chars) = .ok r := by
  refine ⟨fun _ => statement_text space valid, ?_, fun _ =>
    role_chars space valid⟩
  intro c h
  obtain ⟨readable, bound⟩ := isWritten_of_concept h
  have least := Concept.nesting_le_nestingAt 0 c
  exact ⟨readable, Nat.le_of_lt_succ (Nat.lt_of_le_of_lt least bound),
    concept_text space valid h⟩

/-- A statement with more parentheses and fewer blanks than it is written with
again. -/
theorem read_print_read_standard :
    ∃ s, standard.statement "((¬(A) ⊓ B))(x)@N" = .ok s ∧
      s.text = "(¬A ⊓ B)(x) @ N" ∧ standard.statement s.text = .ok s := by
  have first : standard.statement "((¬(A) ⊓ B))(x)@N" =
      .ok ⟨.classAssertion
        (.inter [.compl (.atom (standard.named ['A'])),
          .atom (standard.named ['B'])])
        (.named (standard.named ['x'])),
        [.definedBy (standard.named ['N'])]⟩ := by
    decide +kernel
  exact ⟨_, first, by decide +kernel,
    (read_print_read isSpace_standard namesValid_standard _).1 _ first⟩

end Reader

end ContextDL
