/-
What is read, and how deeply it is nested.

A concept that is read is `Concept.IsReadable`: its names are names of the
reader, its nodes have two operands at least, its nominals are not empty. And
its written form needs no more nesting than the text it was read from: a
factor of a budget is nested less deeply than the budget, even in a place
where it needs parentheses (`Grammar.IsFactor.isWritten`). A text may have more
parentheses than its concept is written with, but none fewer.

# Heads

In front of an argument every concept but an atom is written in parentheses,
whatever its place. The level that these cost has to come from the text: the
head of an assertion is one group, and a sentence that is one group has spent
a level on its own parentheses (`Grammar.IsConcept.isWritten_of_group`). That no
operator stands outside the group is a matter of balance again: the
parenthesis that opens a group is not closed before its end. A sentence that
is one lexeme stands for an atom (`Grammar.IsConcept.isAtom`).

With the heads the same is said of axioms and statements
(`Grammar.IsStatement.isReadable`).
-/
import ContextDL.Concept.Printer
import ContextDL.Proofs.Surface.Cutting

namespace ContextDL

-- ==================================================================== readable

/-- The IRIs that the names of a reader stand for. -/
def Reader.Names (reader : Reader) (iri : Iri) : Prop :=
  ∃ name, (Lexeme.name name).IsProper ∧ iri = reader.named name

/-- Individuals that a reader has a name for. -/
def Individual.IsReadable (reader : Reader) : Individual → Prop
  | .named iri => reader.Names iri
  | .anonymous _ => False

/-- Roles that a reader can read. -/
def Role.IsReadable (reader : Reader) (r : Role) : Prop :=
  reader.Names r.property

/-- Concepts that a reader can read, if they are not nested too deeply. -/
inductive Concept.IsReadable (reader : Reader) : Concept → Prop where
  | top : IsReadable reader .top
  | bottom : IsReadable reader .bottom
  | atom {name : Iri} (known : reader.Names name) :
      IsReadable reader (.atom name)
  | inter {operands : List Concept} (two : 2 ≤ operands.length)
      (each : ∀ c ∈ operands, IsReadable reader c) :
      IsReadable reader (.inter operands)
  | union {operands : List Concept} (two : 2 ≤ operands.length)
      (each : ∀ c ∈ operands, IsReadable reader c) :
      IsReadable reader (.union operands)
  | compl {operand : Concept} (h : IsReadable reader operand) :
      IsReadable reader (.compl operand)
  | oneOf {members : List Individual} (nonempty : members ≠ [])
      (each : ∀ a ∈ members, a.IsReadable reader) :
      IsReadable reader (.oneOf members)
  | restrict {quantifier : Quantifier} {role : Role} {filler : Concept}
      (known : role.IsReadable reader) (h : IsReadable reader filler) :
      IsReadable reader (.restrict quantifier role filler)

/-- Axioms that a reader can read, if they are not nested too deeply. -/
inductive Axiom.IsReadable (reader : Reader) : Axiom → Prop where
  | subClassOf {sub sup : Concept} (left : sub.IsReadable reader)
      (right : sup.IsReadable reader) : IsReadable reader (.subClassOf sub sup)
  | classAssertion {c : Concept} {a : Individual}
      (concept : c.IsReadable reader) (member : a.IsReadable reader) :
      IsReadable reader (.classAssertion c a)
  | roleAssertion {r : Role} {a b : Individual} (role : r.IsReadable reader)
      (source : a.IsReadable reader) (target : b.IsReadable reader) :
      IsReadable reader (.roleAssertion r a b)

/-- Statements that a reader can read, if they are not nested too deeply: those
with no note, or with the one note of a tag. -/
inductive Statement.IsReadable (reader : Reader) : Statement → Prop where
  | plain {a : Axiom} (body : a.IsReadable reader) :
      IsReadable reader (.plain a)
  | global {a : Axiom} (body : a.IsReadable reader) :
      IsReadable reader ⟨a, [.objectGlobal]⟩
  | definedBy {a : Axiom} {name : List Char} (body : a.IsReadable reader)
      (proper : (Lexeme.name name).IsProper)
      (other : name ≠ Reader.globalWord) :
      IsReadable reader ⟨a, [.definedBy (reader.named name)]⟩

/-- A concept can be read within a budget, in a place of a given level. -/
def Concept.IsWritten (reader : Reader) (place budget : Nat)
    (c : Concept) : Prop :=
  c.IsReadable reader ∧ c.nestingAt place < budget

/-- In the loosest place nothing is added to the nesting. -/
theorem Concept.isWritten_zero_iff {reader : Reader} {depth : Nat}
    {c : Concept} :
    c.IsWritten reader 0 (depth + 1) ↔
      c.IsReadable reader ∧ c.nesting ≤ depth := by
  rw [IsWritten, nestingAt_zero, Nat.lt_add_one_iff]

/-- The lexemes that are atoms by themselves. -/
def Lexeme.IsAtom (l : Lexeme) : Prop :=
  (∃ text, l = .name text) ∨ l = .top ∨ l = .bottom

-- ======================================================= what a sentence holds

namespace Grammar

variable {reader : Reader}

/-- A name that is read is a name of the reader. -/
theorem names_of_iriOf {name : List Char} {iri : Iri}
    (known : reader.iriOf name = .ok iri)
    (proper : (Lexeme.name name).IsProper) : reader.Names iri :=
  ⟨name, proper, (Reader.iriOf_eq_ok.1 known).2⟩

theorem property_invert (r : Role) (marks : Nat) :
    (invert r marks).property = r.property := by
  induction marks generalizing r with
  | zero => rfl
  | succ marks ih => rw [invert, ih, Role.property_inverted]

theorem IsRole.isReadable {budget : Nat} {ls : List Lexeme} {r : Role}
    (sentence : IsRole reader budget ls r) (proper : ∀ l ∈ ls, l.IsProper) :
    r.IsReadable reader := by
  induction sentence with
  | name marks known =>
    unfold Role.IsReadable
    rw [property_invert]
    exact names_of_iriOf known (proper _ List.mem_cons_self)
  | group marks _ ih =>
    unfold Role.IsReadable
    rw [property_invert]
    refine ih fun l hl => proper l ?_
    exact List.mem_append_left _ (List.mem_cons_of_mem _ hl)

theorem IsMembers.isReadable {ls : List Lexeme} {members : List Individual}
    (sentence : IsMembers reader ls members)
    (proper : ∀ l ∈ ls, l.IsProper) :
    members ≠ [] ∧ ∀ a ∈ members, a.IsReadable reader := by
  induction sentence with
  | one known =>
    refine ⟨List.cons_ne_nil _ _, ?_⟩
    intro a ha
    cases List.mem_singleton.1 ha
    exact names_of_iriOf known (proper _ List.mem_cons_self)
  | more known _ ih =>
    refine ⟨List.cons_ne_nil _ _, ?_⟩
    intro a ha
    rcases List.mem_cons.1 ha with rfl | ha
    · exact names_of_iriOf known (proper _ List.mem_cons_self)
    · refine (ih fun l hl => proper l ?_).2 a ha
      exact List.mem_cons_of_mem _ (List.mem_cons_of_mem _ hl)

/-- What all sentences of a chain have, its operands have. -/
theorem Chain.each {IsItem : List Lexeme → Concept → Prop} {operator : Lexeme}
    {P : Concept → Prop}
    (items : ∀ {ls c}, IsItem ls c → (∀ l ∈ ls, l.IsProper) → P c)
    {ls : List Lexeme} {cs : List Concept} (chain : Chain IsItem operator ls cs)
    (proper : ∀ l ∈ ls, l.IsProper) : cs ≠ [] ∧ ∀ c ∈ cs, P c := by
  induction chain with
  | one item =>
    refine ⟨List.cons_ne_nil _ _, ?_⟩
    intro c hc
    cases List.mem_singleton.1 hc
    exact items item proper
  | more item _ ih =>
    refine ⟨List.cons_ne_nil _ _, ?_⟩
    intro c hc
    rcases List.mem_cons.1 hc with rfl | hc
    · exact items item fun l hl => proper l (List.mem_append_left _ hl)
    · refine (ih fun l hl => proper l ?_).2 c hc
      exact List.mem_append_right _ (List.mem_cons_of_mem _ hl)

/-- A chain can be written where its node can, if its operands can be written
as operands of the node. -/
theorem isWritten_chain {node : List Concept → Concept} {place budget : Nat}
    (readable : ∀ {cs : List Concept}, 2 ≤ cs.length →
      (∀ c ∈ cs, c.IsReadable reader) → (node cs).IsReadable reader)
    (level : ∀ cs, (node cs).level = place)
    (nesting : ∀ cs, (node cs).nesting = Concept.operandNesting (place + 1) cs)
    {cs : List Concept} (nonempty : cs ≠ [])
    (each : ∀ c ∈ cs, c.IsWritten reader (place + 1) budget) :
    (chain node cs).IsWritten reader place budget := by
  rcases cs with _ | ⟨c, _ | ⟨d, cs⟩⟩
  · exact absurd rfl nonempty
  · obtain ⟨hc, bound⟩ := each c List.mem_cons_self
    have less := Concept.nestingAt_mono (Nat.le_succ place) c
    exact ⟨hc, Nat.lt_of_le_of_lt less bound⟩
  · have positive : 0 < budget :=
      Nat.lt_of_le_of_lt (Nat.zero_le _) (each c List.mem_cons_self).2
    refine ⟨readable (by simp) fun e he => (each e he).1, ?_⟩
    show (node (c :: d :: cs)).nestingAt place < budget
    unfold Concept.nestingAt Concept.placedDepth
    rw [if_neg (by rw [level]; omega), nesting,
      Concept.operandNesting_lt positive]
    exact fun e he => (each e he).2

theorem isWritten_union {budget : Nat} {cs : List Concept} (nonempty : cs ≠ [])
    (each : ∀ c ∈ cs, c.IsWritten reader 2 budget) :
    (chain .union cs).IsWritten reader 1 budget :=
  isWritten_chain .union (fun _ => rfl) (fun _ => by rw [Concept.nesting])
    nonempty each

theorem isWritten_inter {budget : Nat} {cs : List Concept} (nonempty : cs ≠ [])
    (each : ∀ c ∈ cs, c.IsWritten reader 1 budget) :
    (chain .inter cs).IsWritten reader 0 budget :=
  isWritten_chain .inter (fun _ => rfl) (fun _ => by rw [Concept.nesting])
    nonempty each

theorem IsUnion.isWritten_of {budget : Nat}
    (factors : ∀ {ls c}, IsFactor reader budget ls c →
      (∀ l ∈ ls, l.IsProper) → c.IsWritten reader 2 budget)
    {ls : List Lexeme} {c : Concept} (sentence : IsUnion reader budget ls c)
    (proper : ∀ l ∈ ls, l.IsProper) : c.IsWritten reader 1 budget := by
  obtain ⟨cs, hcs, rfl⟩ := sentence
  obtain ⟨nonempty, each⟩ := (isFactors_iff.1 hcs).each @factors proper
  exact isWritten_union nonempty each

theorem IsConcept.isWritten_of {budget : Nat}
    (factors : ∀ {ls c}, IsFactor reader budget ls c →
      (∀ l ∈ ls, l.IsProper) → c.IsWritten reader 2 budget)
    {ls : List Lexeme} {c : Concept} (sentence : IsConcept reader budget ls c)
    (proper : ∀ l ∈ ls, l.IsProper) : c.IsWritten reader 0 budget := by
  obtain ⟨cs, hcs, rfl⟩ := sentence
  have unions : ∀ {ls c}, IsUnion reader budget ls c →
      (∀ l ∈ ls, l.IsProper) → c.IsWritten reader 1 budget :=
    fun sentence => sentence.isWritten_of factors
  obtain ⟨nonempty, each⟩ := (isUnions_iff.1 hcs).each @unions proper
  exact isWritten_inter nonempty each

/-- A factor can be written in the budget that it was read in, wherever it
stands. -/
theorem IsFactor.isWritten {budget : Nat} {ls : List Lexeme} {c : Concept}
    (sentence : IsFactor reader budget ls c) (proper : ∀ l ∈ ls, l.IsProper) :
    c.IsWritten reader 2 budget := by
  induction budget generalizing ls c with
  | zero => cases sentence
  | succ budget ih =>
    cases sentence with
    | top => exact ⟨.top, Nat.succ_pos _⟩
    | bottom => exact ⟨.bottom, Nat.succ_pos _⟩
    | name known =>
      have names := names_of_iriOf known (proper _ List.mem_cons_self)
      exact ⟨.atom names, Nat.succ_pos _⟩
    | oneOf inner =>
      obtain ⟨nonempty, each⟩ := inner.isReadable fun l hl => proper l
        (List.mem_append_left _ (List.mem_cons_of_mem _ hl))
      exact ⟨.oneOf nonempty each, Nat.succ_pos _⟩
    | compl operand =>
      obtain ⟨readable, bound⟩ := ih operand fun l hl => proper l
        (List.mem_cons_of_mem _ hl)
      exact ⟨.compl readable, Nat.succ_lt_succ bound⟩
    | restrict quantifier role filler =>
      have hrole := role.isReadable fun l hl => proper l
        (List.mem_append_left _ (List.mem_append_right _ hl))
      obtain ⟨readable, bound⟩ := ih filler fun l hl => proper l
        (List.mem_append_right _ (List.mem_cons_of_mem _ hl))
      exact ⟨.restrict hrole readable, Nat.succ_lt_succ bound⟩
    | @group _ _ cs inner =>
      obtain ⟨readable, bound⟩ := IsConcept.isWritten_of ih ⟨_, inner, rfl⟩
        fun l hl => proper l
          (List.mem_append_left _ (List.mem_cons_of_mem _ hl))
      refine ⟨readable, ?_⟩
      have inside := Concept.nesting_le_nestingAt 0 (chain .inter cs)
      have outside := Concept.nestingAt_le 2 (chain .inter cs)
      omega

theorem IsConcept.isWritten {budget : Nat} {ls : List Lexeme} {c : Concept}
    (sentence : IsConcept reader budget ls c) (proper : ∀ l ∈ ls, l.IsProper) :
    c.IsWritten reader 0 budget :=
  sentence.isWritten_of IsFactor.isWritten proper

-- ======================================================================= heads

/-- A chain that is one lexeme is one sentence. -/
theorem Chain.single_of_lexeme {IsItem : List Lexeme → Concept → Prop}
    {operator l : Lexeme} (apart : l ≠ operator) {ls : List Lexeme}
    {cs : List Concept} (sentence : Chain IsItem operator ls cs)
    (single : ls = [l]) : ∃ c, cs = [c] ∧ IsItem ls c := by
  cases sentence with
  | one item => exact ⟨_, rfl, item⟩
  | @more front back _ _ _ _ =>
    exfalso
    rcases front with _ | ⟨m, front⟩
    · exact apart (List.cons.inj single).1.symm
    · simp at single

/-- What is read from one lexeme is an atom. -/
theorem IsFactor.isAtom {budget : Nat} {ls : List Lexeme} {l : Lexeme}
    {c : Concept} (sentence : IsFactor reader budget ls c)
    (single : ls = [l]) (atom : l.IsAtom) : c.isAtom = true := by
  cases sentence with
  | top => rfl
  | bottom => rfl
  | name _ => rfl
  | oneOf _ => simp at single
  | compl _ =>
    obtain ⟨rfl, -⟩ := List.cons.inj single
    rcases atom with ⟨_, h⟩ | h | h <;> cases h
  | restrict quantifier _ _ => cases quantifier <;> simp at single
  | group _ => simp at single

theorem IsConcept.isAtom {budget : Nat} {ls : List Lexeme} {l : Lexeme}
    {c : Concept} (sentence : IsConcept reader budget ls c)
    (single : ls = [l]) (atom : l.IsAtom) : c.isAtom = true := by
  have noMeet : l ≠ .meet := by
    rcases atom with ⟨_, rfl⟩ | rfl | rfl <;> nofun
  have noJoin : l ≠ .join := by
    rcases atom with ⟨_, rfl⟩ | rfl | rfl <;> nofun
  obtain ⟨cs, hcs, rfl⟩ := sentence
  obtain ⟨c, rfl, ds, hds, rfl⟩ :=
    (isUnions_iff.1 hcs).single_of_lexeme noMeet single
  obtain ⟨c, rfl, factor⟩ :=
    (isFactors_iff.1 hds).single_of_lexeme noJoin single
  exact factor.isAtom single atom

/-- A chain that is one group in parentheses is one sentence: an operator in it
would stand behind a parenthesis that closes the group. -/
theorem Chain.single_of_group {IsItem : List Lexeme → Concept → Prop}
    {operator : Lexeme} (plain : operator.IsPlain)
    (items : ∀ {ls c}, IsItem ls c → Lexeme.IsNested ls)
    {ls inner : List Lexeme} {cs : List Concept}
    (sentence : Chain IsItem operator ls cs)
    (group : ls = .openParen :: inner ++ [.closeParen])
    (balanced : Reader.isBalanced .openParen .closeParen 0 inner = true) :
    ∃ c, cs = [c] ∧ IsItem ls c := by
  cases sentence with
  | one item => exact ⟨_, rfl, item⟩
  | @more front back _ _ item _ =>
    exfalso
    have front_balanced := (items item).keepsBalance.isBalanced.1
    rcases front with _ | ⟨l, front⟩
    · cases group
      exact absurd plain (by decide)
    · have start : l = .openParen := (List.cons.inj group).1
      have tail : front ++ operator :: back = inner ++ [.closeParen] :=
        (List.cons.inj group).2
      rw [start, Reader.isBalanced_opening] at front_balanced
      rcases List.eq_nil_or_concat back with rfl | ⟨back, m, rfl⟩
      · have last := (List.append_inj' tail rfl).2
        cases last
        exact absurd plain (by decide)
      · have shifted : front ++ operator :: back ++ [m] =
            inner ++ [.closeParen] := by
          simpa using tail
        rw [← (List.append_inj' shifted rfl).1,
          Reader.isBalanced_append_eq_false front_balanced] at balanced
        cases balanced

/-- A factor that starts with a parenthesis is a concept in parentheses. -/
theorem IsFactor.group_of_openParen {budget : Nat} {ls rest : List Lexeme}
    {c : Concept} (sentence : IsFactor reader budget ls c)
    (start : ls = .openParen :: rest) :
    ∃ b inner, budget = b + 1 ∧ ls = .openParen :: inner ++ [.closeParen] ∧
      IsConcept reader b inner c := by
  cases sentence with
  | top => cases start
  | bottom => cases start
  | name _ => cases start
  | oneOf _ => cases start
  | compl _ => cases start
  | restrict quantifier _ _ => cases quantifier <;> cases start
  | @group b inner cs sentence =>
    exact ⟨b, inner, rfl, rfl, cs, sentence, rfl⟩

/-- A concept that is read from one group has a level to spare. -/
theorem IsConcept.isWritten_of_group {budget : Nat} {ls inner : List Lexeme}
    {c : Concept} (sentence : IsConcept reader budget ls c)
    (group : ls = .openParen :: inner ++ [.closeParen])
    (balanced : Reader.isBalanced .openParen .closeParen 0 inner = true)
    (proper : ∀ l ∈ ls, l.IsProper) :
    ∃ b, budget = b + 1 ∧ c.IsWritten reader 0 b := by
  obtain ⟨cs, hcs, rfl⟩ := sentence
  obtain ⟨c, rfl, ds, hds, rfl⟩ := (isUnions_iff.1 hcs).single_of_group
    (by decide) IsUnion.isNested group balanced
  obtain ⟨c, rfl, factor⟩ := (isFactors_iff.1 hds).single_of_group
    (by decide) IsFactor.isNested group balanced
  obtain ⟨b, within, rfl, rfl, concept⟩ := factor.group_of_openParen group
  refine ⟨b, rfl, concept.isWritten fun l hl => proper l ?_⟩
  exact List.mem_append_left _ (List.mem_cons_of_mem _ hl)

/-- A role that is no property and is read from a name or a group has a level
to spare. -/
theorem IsRole.deep_of_head {budget : Nat} {ls : List Lexeme} {r : Role}
    (sentence : IsRole reader budget ls r) (inverse : r.isNamed = false)
    (head : (∃ text, ls = [.name text]) ∨ ∃ rest, ls = .openParen :: rest) :
    ∃ b, budget = b + 2 := by
  cases sentence with
  | name marks known =>
    exfalso
    rcases head with ⟨text, h⟩ | ⟨rest, h⟩
    · cases marks with
      | zero => cases inverse
      | succ marks => cases h
    · cases h
  | group marks inner =>
    cases inner with
    | name => exact ⟨_, rfl⟩
    | group => exact ⟨_, rfl⟩

/-- A group is told by its lexemes. -/
theorem isGroup_iff {ts : List Token} :
    IsGroup ts ↔ ∃ inner,
      ts.map Token.lexeme = .openParen :: inner ++ [.closeParen] ∧
        Reader.isBalanced .openParen .closeParen 0 inner = true := by
  constructor
  · intro h
    obtain ⟨left, inner, right, rfl, hleft, hright, balanced⟩ := h
    exact ⟨inner.map Token.lexeme, by simp [hleft, hright], balanced⟩
  · intro h
    obtain ⟨inner, hts, balanced⟩ := h
    obtain ⟨left, group, right, rfl, hleft, rfl, hright⟩ :=
      map_eq_enclosed hts
    exact ⟨left, group, right, rfl, hleft, hright, balanced⟩

theorem isConceptHead_iff {ts : List Token} :
    IsConceptHead ts ↔
      (∃ l, ts.map Token.lexeme = [l] ∧ l.IsAtom) ∨ IsGroup ts := by
  constructor
  · intro h
    rcases h with ⟨text, h⟩ | h | h | h
    · exact Or.inl ⟨_, h, Or.inl ⟨text, rfl⟩⟩
    · exact Or.inl ⟨_, h, Or.inr (Or.inl rfl)⟩
    · exact Or.inl ⟨_, h, Or.inr (Or.inr rfl)⟩
    · exact Or.inr h
  · intro h
    rcases h with ⟨l, h, ⟨text, rfl⟩ | rfl | rfl⟩ | h
    · exact Or.inl ⟨text, h⟩
    · exact Or.inr (Or.inl h)
    · exact Or.inr (Or.inr (Or.inl h))
    · exact Or.inr (Or.inr (Or.inr h))

/-- A concept that is read from a head is no deeper nested as a head than the
reader goes. -/
theorem IsConceptHead.isReadable {head : List Token} {c : Concept}
    (single : IsConceptHead head)
    (concept : reader.conceptOfTokens head = .ok c)
    (proper : ∀ l ∈ head.map Token.lexeme, l.IsProper) :
    c.IsReadable reader ∧ c.headNesting ≤ reader.maxDepth := by
  have sentence := Reader.conceptOfTokens_eq_ok.1 concept
  refine ⟨(sentence.isWritten proper).1, ?_⟩
  unfold Concept.headNesting
  split
  · exact Nat.zero_le _
  · next compound =>
    rcases isConceptHead_iff.1 single with ⟨l, hhead, atom⟩ | group
    · exact absurd (sentence.isAtom hhead atom) compound
    · obtain ⟨inner, hhead, balanced⟩ := isGroup_iff.1 group
      obtain ⟨b, hb, -, bound⟩ :=
        sentence.isWritten_of_group hhead balanced proper
      rw [Concept.nestingAt_zero] at bound
      rw [Nat.succ.inj hb]
      exact bound

/-- A role that is read from a head is no deeper nested as a head than the
reader goes. -/
theorem IsRoleHead.isReadable {head : List Token} {r : Role}
    (single : IsRoleHead head) (role : reader.roleOfTokens head = .ok r)
    (proper : ∀ l ∈ head.map Token.lexeme, l.IsProper) :
    r.IsReadable reader ∧ r.headNesting ≤ reader.maxDepth := by
  have sentence := Reader.roleOfTokens_eq_ok.1 role
  refine ⟨sentence.isReadable proper, ?_⟩
  unfold Role.headNesting
  split
  · exact Nat.zero_le _
  · next inverse =>
    -- a name alone is no inverse, so the head was a group and cost a level
    have shape : (∃ text, head.map Token.lexeme = [.name text]) ∨
        ∃ rest, head.map Token.lexeme = .openParen :: rest := by
      refine single.imp_right fun group => ?_
      obtain ⟨inner, hhead, -⟩ := isGroup_iff.1 group
      exact ⟨_, hhead⟩
    obtain ⟨b, hb⟩ := sentence.deep_of_head (by simpa using inverse) shape
    rw [Nat.succ.inj hb]
    exact Nat.succ_pos b

-- ================================================================== statements

/-- An axiom that is read can be written, and is no more nested than the
reader goes. -/
theorem IsBody.isReadable {body : List Token} {a : Axiom}
    (h : IsBody reader body a)
    (proper : ∀ l ∈ body.map Token.lexeme, l.IsProper) :
    a.IsReadable reader ∧ a.nesting ≤ reader.maxDepth := by
  have concept {ts : List Token} {c : Concept}
      (read : reader.conceptOfTokens ts = .ok c)
      (proper : ∀ l ∈ ts.map Token.lexeme, l.IsProper) :
      c.IsReadable reader ∧ c.nesting ≤ reader.maxDepth :=
    Concept.isWritten_zero_iff.1
      ((Reader.conceptOfTokens_eq_ok.1 read).isWritten proper)
  cases h with
  | subClassOf between left right =>
    rw [List.map_append, List.map_cons, List.forall_mem_append,
      List.forall_mem_cons] at proper
    obtain ⟨hsub, -, hsup⟩ := proper
    obtain ⟨sub, boundSub⟩ := concept left hsub
    obtain ⟨sup, boundSup⟩ := concept right hsup
    exact ⟨.subClassOf sub sup, Nat.max_le.2 ⟨boundSub, boundSup⟩⟩
  | @classAssertion _ _ a _ single read member =>
    rw [List.map_append, List.forall_mem_append, member] at proper
    obtain ⟨readable, bound⟩ := single.isReadable read proper.1
    have ha := proper.2 (.name a) (by simp)
    exact ⟨.classAssertion readable ⟨a, ha, rfl⟩, bound⟩
  | @roleAssertion _ _ a b _ single read pair =>
    rw [List.map_append, List.forall_mem_append, pair] at proper
    obtain ⟨readable, bound⟩ := single.isReadable read proper.1
    have ha := proper.2 (.name a) (by simp)
    have hb := proper.2 (.name b) (by simp)
    exact ⟨.roleAssertion readable ⟨a, ha, rfl⟩ ⟨b, hb, rfl⟩, bound⟩

/-- A statement that is read can be written, and is no more nested than the
reader goes. -/
theorem IsStatement.isReadable {ts : List Token} {s : Statement}
    (h : IsStatement reader ts s)
    (proper : ∀ l ∈ ts.map Token.lexeme, l.IsProper) :
    s.IsReadable reader ∧ s.body.nesting ≤ reader.maxDepth := by
  cases h with
  | untagged axiomTokens =>
    obtain ⟨body, bound⟩ := axiomTokens.isReadable proper
    exact ⟨.plain body, bound⟩
  | global axiomTokens word =>
    rw [List.map_append, List.forall_mem_append] at proper
    obtain ⟨body, bound⟩ := axiomTokens.isReadable proper.1
    exact ⟨.global body, bound⟩
  | @definedBy _ _ _ name axiomTokens word other =>
    rw [List.map_append, List.forall_mem_append, word] at proper
    obtain ⟨body, bound⟩ := axiomTokens.isReadable proper.1
    have tagged := proper.2 (.name name) (by simp)
    exact ⟨.definedBy body tagged other, bound⟩

end Grammar

end ContextDL
