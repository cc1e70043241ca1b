/-
What is printed is a sentence.

The written form of a readable concept spells a sentence for that concept, in
every budget above its nesting (`Concept.IsReadable.spells`). The proof follows
the printer: induction over the concept gives the sentences of the parts, each
part is put into its place, with or without parentheses (`spells_placed`), and
operands are joined into a chain (`spells_operands`).

The level of a concept says what kind of sentence it is written as: one of
level zero is a chain of unions, one of level one a chain of factors, and any
other a factor (`Grammar.IsAt`). A place asks for a kind, and a tighter kind
will always do.
-/
import ContextDL.Proofs.Surface.Nesting
import ContextDL.Proofs.Surface.Spelling

namespace ContextDL

open Grammar Lexeme

variable {reader : Reader}

-- ======================================================================= names

/-- A name stands behind the last break of its IRI. -/
theorem Reader.localName_named (space : Iri.IsSpace reader.base.toList)
    {name : List Char} (proper : (Lexeme.name name).IsProper) :
    (reader.named name).localName = name := by
  have noBreak : ∀ c ∈ name, Iri.isBreak c = false := by
    intro c hc
    have alphanum := List.all_eq_true.1 proper.2 c hc
    exact Iri.isBreak_eq_false alphanum rfl rfl
  have chars : (reader.named name).chars = reader.base.toList ++ name := by
    simp [Reader.named, Iri.chars]
  unfold Iri.localName
  rw [chars, Iri.split_eq space noBreak]

/-- An IRI with a name is written as that name, which is read as the IRI. -/
theorem Reader.Names.exists_name (space : Iri.IsSpace reader.base.toList)
    (valid : reader.NamesValid) {iri : Iri} (h : reader.Names iri) :
    ∃ name, iri.localName = name ∧ Spells name [.name name] ∧
      reader.iriOf name = .ok iri := by
  obtain ⟨name, proper, rfl⟩ := h
  exact ⟨name, localName_named space proper, .name proper, valid.iriOf proper⟩

theorem Role.IsReadable.spells (space : Iri.IsSpace reader.base.toList)
    (valid : reader.NamesValid) {r : Role} (h : r.IsReadable reader) :
    ∃ ls, Spells r.chars ls ∧ ∀ budget, IsRole reader (budget + 1) ls r := by
  obtain ⟨name, hname, spells, known⟩ := h.exists_name space valid
  cases r with
  | named p =>
    refine ⟨[.name name], ?_, fun _ => .name 0 known⟩
    rw [Role.chars, show p.localName = name from hname]
    exact spells
  | inverse p =>
    refine ⟨[.name name, .inverse], ?_, fun _ => .name 1 known⟩
    rw [Role.chars, show p.localName = name from hname]
    exact spells.append .inverse (breaks_cons (by decide +kernel) _)

/-- Members with commas between them spell the inside of a nominal. -/
theorem spells_members (space : Iri.IsSpace reader.base.toList)
    (valid : reader.NamesValid) {members : List Individual}
    (nonempty : members ≠ []) (each : ∀ a ∈ members, a.IsReadable reader) :
    ∃ ls, Spells (listed (members.map Individual.chars)) ls ∧
      IsMembers reader ls members := by
  induction members with
  | nil => exact absurd rfl nonempty
  | cons a members ih =>
    obtain ⟨ha, others⟩ := List.forall_mem_cons.1 each
    cases a with
    | anonymous _ => exact ha.elim
    | named iri =>
      obtain ⟨name, hname, spells, known⟩ :=
        Reader.Names.exists_name space valid ha
      cases members with
      | nil =>
        refine ⟨[.name name], ?_, .one known⟩
        rw [List.map_singleton, listed, List.intercalate_singleton,
          Individual.chars, hname]
        exact spells
      | cons b members =>
        obtain ⟨ls, hls, sentence⟩ := ih (List.cons_ne_nil _ _) others
        refine ⟨.name name :: .comma :: ls, ?_, .more known sentence⟩
        rw [List.map_cons, List.map_cons, listed, List.intercalate_cons_cons,
          Individual.chars, hname, List.append_assoc]
        exact spells.append_mark rfl (.blank (by decide) hls)

-- ================================================================ small pieces

/-- An atom is written as one lexeme. -/
theorem spells_atom (space : Iri.IsSpace reader.base.toList)
    (valid : reader.NamesValid) {name : Iri}
    (h : (Concept.atom name).IsReadable reader) :
    ∃ l, Spells name.classChars [l] ∧ l.IsAtom ∧
      ∀ budget, IsFactor reader (budget + 1) [l] (.atom name) := by
  unfold Iri.classChars
  by_cases top : name = Iri.thing
  · rw [if_pos top, top]
    exact ⟨.top, .mark rfl .nil, Or.inr (Or.inl rfl), fun _ => .top⟩
  rw [if_neg top]
  by_cases bottom : name = Iri.nothing
  · rw [if_pos bottom, bottom]
    exact ⟨.bottom, .mark rfl .nil, Or.inr (Or.inr rfl), fun _ => .bottom⟩
  rw [if_neg bottom]
  generalize hc : Concept.atom name = c at h
  cases h with
  | top => cases hc; exact absurd rfl top
  | bottom => cases hc; exact absurd rfl bottom
  | atom names =>
    cases hc
    obtain ⟨text, hname, spells, known⟩ := names.exists_name space valid
    rw [hname]
    exact ⟨.name text, spells, Or.inl ⟨text, rfl⟩, fun _ => .name known⟩
  | _ => cases hc

theorem isProper_decimal (n : Nat) :
    (Lexeme.name (Text.decimal n)).IsProper := by
  refine ⟨Text.decimal_ne_nil n, ?_⟩
  rw [List.all_eq_true]
  intro c hc
  have digit := List.all_eq_true.1 (Text.all_isDigit_decimal n) c hc
  simp [Char.isAlphanum, digit]

theorem number?_decimal (n : UInt32) :
    Reader.number? (Text.decimal n.toNat) = some n := by
  unfold Reader.number?
  rw [Text.decimal?_decimal]
  dsimp only
  rw [if_pos n.toNat_lt_size, UInt32.ofNat_toNat]

/-- A role, a dot and a filler. -/
theorem spells_dotted {role filler : List Char} {rs ls : List Lexeme}
    (hrole : Spells role rs) (hfiller : Spells filler ls) :
    Spells (role ++ ['.'] ++ filler) (rs ++ .dot :: ls) := by
  rw [List.append_assoc]
  exact hrole.append_mark rfl hfiller

/-- A mark, a number, a role, a dot and a filler. -/
theorem spells_counted {mark : Char} {l : Lexeme}
    (hmark : Lexeme.ofMark? mark = some l) (n : UInt32)
    {role filler : List Char} {rs ls : List Lexeme} (hrole : Spells role rs)
    (hfiller : Spells filler ls) :
    Spells (mark :: Text.decimal n.toNat ++ ' ' :: role ++ ['.'] ++ filler)
      ([l, .name (Text.decimal n.toNat)] ++ rs ++ .dot :: ls) := by
  have number : Spells (Text.decimal n.toNat) _ := .name (isProper_decimal _)
  have rest := spells_dotted hrole hfiller
  have whole := Spells.mark hmark (number.append_space rest)
  simpa using whole

theorem Quantifier.spells (q : Quantifier) {r : Role} {filler : List Char}
    {rs ls : List Lexeme} (hrole : Spells r.chars rs)
    (hfiller : Spells filler ls) :
    ∃ qs, IsQuantifier qs q ∧
      Spells (q.chars r ++ filler) (qs ++ rs ++ .dot :: ls) := by
  have dotted := spells_dotted hrole hfiller
  cases q with
  | existential => exact ⟨_, .existential, dotted.mark (c := '∃') rfl⟩
  | universal => exact ⟨_, .universal, dotted.mark (c := '∀') rfl⟩
  | atLeast n =>
    exact ⟨_, .atLeast (number?_decimal n), spells_counted rfl n hrole hfiller⟩
  | atMost n =>
    exact ⟨_, .atMost (number?_decimal n), spells_counted rfl n hrole hfiller⟩
  | exactly n =>
    exact ⟨_, .exactly (number?_decimal n), spells_counted rfl n hrole hfiller⟩

-- ====================================================================== places

/-- The sentences that a place of a given level asks for. -/
def Grammar.IsAt (reader : Reader) :
    Nat → Nat → List Lexeme → Concept → Prop
  | 0 => IsConcept reader
  | 1 => IsUnion reader
  | _ + 2 => IsFactor reader

namespace Grammar

variable {budget : Nat} {ls : List Lexeme} {c : Concept}

theorem isUnion_of_isFactor (h : IsFactor reader budget ls c) :
    IsUnion reader budget ls c :=
  ⟨[c], .one h, rfl⟩

theorem isConcept_of_isUnion (h : IsUnion reader budget ls c) :
    IsConcept reader budget ls c := by
  obtain ⟨cs, hcs, rfl⟩ := h
  exact ⟨[chain .union cs], .one hcs, rfl⟩

/-- A tighter sentence will do where a looser one is asked for. -/
theorem IsAt.mono {p q : Nat} (hpq : p ≤ q) (h : IsAt reader q budget ls c) :
    IsAt reader p budget ls c := by
  match p, q with
  | 0, 0 => exact h
  | 0, 1 => exact isConcept_of_isUnion h
  | 0, _ + 2 => exact isConcept_of_isUnion (isUnion_of_isFactor h)
  | 1, 1 => exact h
  | 1, _ + 2 => exact isUnion_of_isFactor h
  | _ + 2, _ + 2 => exact h

/-- In parentheses every sentence is a factor, one level deeper. -/
theorem isFactor_bracketed (h : IsConcept reader budget ls c) :
    IsFactor reader (budget + 1) (.openParen :: ls ++ [.closeParen]) c := by
  obtain ⟨cs, hcs, rfl⟩ := h
  exact .group hcs

end Grammar

-- ==================================================================== concepts

/-- The written form of a concept is a sentence of the kind that its level
says, in every budget above its nesting. -/
def Concept.Spelled (reader : Reader) (c : Concept) : Prop :=
  ∀ {budget : Nat}, c.nesting < budget →
    ∃ ls, Spells c.chars ls ∧ IsAt reader c.level budget ls c

/-- In its place a concept is the sentence that the place asks for. -/
theorem spells_placed {c : Concept} (spelled : c.Spelled reader)
    {place budget : Nat} (bound : c.nestingAt place < budget) :
    ∃ ls, Spells (c.placed place c.chars) ls ∧
      IsAt reader place budget ls c := by
  unfold Concept.nestingAt Concept.placedDepth at bound
  unfold Concept.placed
  split
  · next loose =>
    rw [if_pos loose] at bound
    obtain ⟨b, rfl⟩ : ∃ b, budget = b + 1 :=
      Nat.exists_eq_add_one.2 (by omega)
    obtain ⟨ls, spells, sentence⟩ := spelled (Nat.lt_of_succ_lt_succ bound)
    have factor := isFactor_bracketed (sentence.mono (Nat.zero_le _))
    have placed : IsAt reader (place + 2) (b + 1)
        (.openParen :: ls ++ [.closeParen]) c := factor
    exact ⟨_, spells.bracketed, placed.mono (Nat.le_add_right _ _)⟩
  · next tight =>
    rw [if_neg tight] at bound
    obtain ⟨ls, spells, sentence⟩ := spelled bound
    exact ⟨ls, spells, sentence.mono (Nat.le_of_not_lt tight)⟩

/-- Operands are written as a chain. -/
theorem spells_operands {place budget : Nat} {mark : Char} {operator : Lexeme}
    (hmark : ofMark? mark = some operator) {cs : List Concept}
    (nonempty : cs ≠ []) (each : ∀ c ∈ cs, c.Spelled reader)
    (bound : ∀ c ∈ cs, c.nestingAt place < budget) :
    ∃ ls, Spells ([' ', mark, ' '].intercalate
        (Concept.operandChars place cs)) ls ∧
      Chain (IsAt reader place budget) operator ls cs := by
  induction cs with
  | nil => exact absurd rfl nonempty
  | cons c cs ih =>
    obtain ⟨hc, hcs⟩ := List.forall_mem_cons.1 each
    obtain ⟨boundc, boundcs⟩ := List.forall_mem_cons.1 bound
    obtain ⟨ls, spells, sentence⟩ := spells_placed hc boundc
    cases cs with
    | nil =>
      refine ⟨ls, ?_, .one sentence⟩
      rw [Concept.operandChars, Concept.operandChars,
        List.intercalate_singleton]
      exact spells
    | cons d cs =>
      obtain ⟨ms, others, chain⟩ := ih (List.cons_ne_nil _ _) hcs boundcs
      refine ⟨ls ++ operator :: ms, ?_, .more sentence chain⟩
      rw [Concept.operandChars, Concept.operandChars,
        List.intercalate_cons_cons, ← Concept.operandChars]
      exact spells.joined hmark others

/-- A node over two operands or more is what its chain stands for. -/
theorem Grammar.chain_of_two {node : List Concept → Concept}
    {cs : List Concept} (two : 2 ≤ cs.length) : chain node cs = node cs := by
  rcases cs with _ | ⟨c, _ | ⟨d, cs⟩⟩
  · simp at two
  · simp at two
  · rfl

/-- A readable concept is written as a sentence for it. -/
theorem Concept.IsReadable.spelled (space : Iri.IsSpace reader.base.toList)
    (valid : reader.NamesValid) {c : Concept} (h : c.IsReadable reader) :
    c.Spelled reader := by
  have atoms : ∀ {name}, (Concept.atom name).IsReadable reader →
      (Concept.atom name).Spelled reader := by
    intro name readable budget bound
    obtain ⟨b, rfl⟩ : ∃ b, budget = b + 1 :=
      Nat.exists_eq_add_one.2 (by omega)
    obtain ⟨l, spells, -, factor⟩ := spells_atom space valid readable
    exact ⟨[l], by rw [Concept.chars]; exact spells, factor b⟩
  induction h with
  | top => exact atoms .top
  | bottom => exact atoms .bottom
  | atom known => exact atoms (.atom known)
  | @inter cs two _ ih =>
    intro budget bound
    rw [Concept.nesting, Concept.operandNesting_lt (by omega)] at bound
    have nonempty : cs ≠ [] := List.ne_nil_of_length_pos (by omega)
    obtain ⟨ls, spells, chain⟩ := spells_operands
      (show ofMark? '⊓' = some .meet from rfl) nonempty ih bound
    refine ⟨ls, by rw [Concept.chars]; exact spells, cs, ?_, ?_⟩
    · exact isUnions_iff.2 chain
    · rw [chain_of_two two]
  | @union cs two _ ih =>
    intro budget bound
    rw [Concept.nesting, Concept.operandNesting_lt (by omega)] at bound
    have nonempty : cs ≠ [] := List.ne_nil_of_length_pos (by omega)
    obtain ⟨ls, spells, chain⟩ := spells_operands
      (show ofMark? '⊔' = some .join from rfl) nonempty ih bound
    refine ⟨ls, by rw [Concept.chars]; exact spells, cs, ?_, ?_⟩
    · exact isFactors_iff.2 chain
    · rw [chain_of_two two]
  | @compl c _ ih =>
    intro budget bound
    rw [Concept.nesting] at bound
    obtain ⟨b, rfl⟩ : ∃ b, budget = b + 1 :=
      Nat.exists_eq_add_one.2 (by omega)
    obtain ⟨ls, spells, sentence⟩ :=
      spells_placed ih (Nat.lt_of_succ_lt_succ bound)
    refine ⟨.complement :: ls, ?_, .compl sentence⟩
    rw [Concept.chars]
    exact spells.mark rfl
  | @oneOf members nonempty each =>
    intro budget bound
    obtain ⟨b, rfl⟩ : ∃ b, budget = b + 1 :=
      Nat.exists_eq_add_one.2 (by omega)
    obtain ⟨ls, spells, sentence⟩ := spells_members space valid nonempty each
    have factor : IsFactor reader (b + 1)
        (.openBrace :: ls ++ [.closeBrace]) (.oneOf members) := .oneOf sentence
    refine ⟨_, ?_, factor⟩
    rw [Concept.chars]
    exact spells.enclosed rfl rfl
  | @restrict q r c known _ ih =>
    intro budget bound
    rw [Concept.nesting] at bound
    obtain ⟨b, rfl⟩ : ∃ b, budget = b + 2 :=
      ⟨budget - 2, by omega⟩
    obtain ⟨rs, hrole, role⟩ := known.spells space valid
    obtain ⟨ls, hfiller, filler⟩ :=
      spells_placed ih (Nat.lt_of_succ_lt_succ bound)
    obtain ⟨qs, quantifier, spells⟩ := q.spells hrole hfiller
    refine ⟨qs ++ rs ++ .dot :: ls, ?_, .restrict quantifier (role b) filler⟩
    rw [Concept.chars]
    exact spells

/-- A readable concept is written as a concept sentence. -/
theorem Concept.IsReadable.spells (space : Iri.IsSpace reader.base.toList)
    (valid : reader.NamesValid) {c : Concept} (h : c.IsReadable reader)
    {budget : Nat} (bound : c.nesting < budget) :
    ∃ ls, Spells c.chars ls ∧ IsConcept reader budget ls c := by
  obtain ⟨ls, spells, sentence⟩ := h.spelled space valid bound
  exact ⟨ls, spells, sentence.mono (Nat.zero_le _)⟩

end ContextDL
