/-
Reading derives.

A sentence fits in a budget if and only if it has a derivation whose depth is
below the budget (`isRole_iff`, `isConcept_iff`). In one direction the depth
is found: a factor of a budget has its parts in the budget below, and the
deepest of the parts gives the depth. In the other, what is derived is within
any budget above its depth, so parts of different depths fit in one budget.

Both directions follow the rules of the grammar, one case a rule. They look at
sentences made of proper words only, as those of a text are. So what is left
to the reader by `Grammar` is settled: with a base behind which all names are
valid a name is always read, and a number is a run of digits.

`Reader.read_iff_derives` puts this together with what `Reading` and `Lexing`
say: a text is read if and only if its lexemes have a derivation that is no
deeper than the limit. The brackets of a sentence are balanced, so the check
of brackets that comes first loses no text.
-/
import ContextDL.Proofs.Iri.Checking
import ContextDL.Proofs.Surface.Brackets
import ContextDL.Proofs.Surface.Lexing
import ContextDL.Surface.Derivation

namespace ContextDL

namespace Grammar

variable {reader : Reader}

-- ======================================================================= words

/-- Inversions are made one by one, and every second one is undone. -/
theorem invert_eq_turned (r : Role) (marks : Nat) :
    invert r marks = turned r marks := by
  induction marks generalizing r with
  | zero => rfl
  | succ marks ih =>
    have twice : r.inverted.inverted = r := by cases r <;> rfl
    rw [invert, ih]
    unfold turned
    rcases Nat.mod_two_eq_zero_or_one marks with even | odd
    · rw [if_pos even, if_neg (by omega)]
    · rw [if_neg (by omega), if_pos (by omega), twice]

/-- The reader takes exactly the numerals for numbers. -/
theorem number?_eq_some {word : List Char} (proper : word ≠ []) {n : UInt32} :
    Reader.number? word = some n ↔ IsNumeral word n := by
  unfold Reader.number? Text.decimal? IsNumeral
  by_cases digits : word.all Char.isDigit = true
  · rw [if_pos digits]
    dsimp only
    have size := n.toNat_lt_size
    rw [and_iff_right proper, and_iff_right digits]
    split
    case isTrue small =>
      rw [Option.some.injEq, ← UInt32.toNat_inj,
        UInt32.toNat_ofNat_of_lt' small]
    case isFalse large =>
      refine iff_of_false nofun fun same => large ?_
      rwa [same]
  · rw [if_neg digits]
    exact iff_of_false nofun fun numeral => digits numeral.2.1

/-- Quantifiers made of proper words are derived. -/
theorem isQuantifier_iff {qs : List Lexeme} (proper : ∀ l ∈ qs, l.IsProper)
    {q : Quantifier} : IsQuantifier qs q ↔ DerivesQuantifier qs q := by
  have word {l : Lexeme} {text : List Char} (hl : l.IsProper)
      (he : l = .name text) : text ≠ [] := by
    subst he
    exact hl.1
  constructor
  · intro h
    cases h with
    | existential => exact .existential
    | universal => exact .universal
    | atLeast known =>
      exact .atLeast ((number?_eq_some (word (proper _ (by simp)) rfl)).1 known)
    | atMost known =>
      exact .atMost ((number?_eq_some (word (proper _ (by simp)) rfl)).1 known)
    | exactly known =>
      exact .exactly ((number?_eq_some (word (proper _ (by simp)) rfl)).1 known)
  · intro h
    cases h with
    | existential => exact .existential
    | universal => exact .universal
    | atLeast numeral => exact .atLeast ((number?_eq_some numeral.1).2 numeral)
    | atMost numeral => exact .atMost ((number?_eq_some numeral.1).2 numeral)
    | exactly numeral => exact .exactly ((number?_eq_some numeral.1).2 numeral)

/-- Names with commas between them are a list of words. -/
theorem IsMembers.exists_words {ls : List Lexeme} {members : List Individual}
    (h : IsMembers reader ls members) :
    ∃ words, words ≠ [] ∧ ls = listOf words ∧
      members = membersOf reader words := by
  induction h with
  | @one word a known =>
    obtain ⟨-, rfl⟩ := Reader.iriOf_eq_ok.1 known
    exact ⟨[word], by simp, rfl, rfl⟩
  | @more word a ls members known others ih =>
    obtain ⟨-, rfl⟩ := Reader.iriOf_eq_ok.1 known
    obtain ⟨words, nonempty, rfl, rfl⟩ := ih
    obtain ⟨next, words, rfl⟩ := List.exists_cons_of_ne_nil nonempty
    exact ⟨word :: next :: words, by simp, rfl, rfl⟩

/-- Proper words with commas between them are read. -/
theorem isMembers_of_words (valid : reader.NamesValid)
    {words : List (List Char)} (nonempty : words ≠ [])
    (proper : ∀ l ∈ listOf words, l.IsProper) :
    IsMembers reader (listOf words) (membersOf reader words) := by
  induction words with
  | nil => exact absurd rfl nonempty
  | cons word words ih =>
    have known := valid.iriOf (proper (.name word) ?_)
    · cases words with
      | nil => exact .one known
      | cons next words =>
        refine .more known (ih (by simp) fun l hl => proper l ?_)
        exact List.mem_cons_of_mem _ (List.mem_cons_of_mem _ hl)
    · cases words <;> exact List.mem_cons_self

-- ======================================================================= roles

/-- A role that fits in a budget is derived below it. -/
theorem IsRole.exists_derives {budget : Nat} {ls : List Lexeme} {r : Role}
    (h : IsRole reader budget ls r) :
    ∃ depth < budget, DerivesRole reader ls r depth := by
  induction h with
  | name marks known =>
    obtain ⟨-, rfl⟩ := Reader.iriOf_eq_ok.1 known
    rw [invert_eq_turned]
    exact ⟨0, Nat.succ_pos _, .name _ marks⟩
  | group marks _ ih =>
    obtain ⟨depth, below, inner⟩ := ih
    rw [invert_eq_turned]
    exact ⟨depth + 1, Nat.succ_lt_succ below, .group marks inner⟩

/-- A role that is derived fits in every budget above its depth. -/
theorem DerivesRole.isRole (valid : reader.NamesValid) {ls : List Lexeme}
    {r : Role} {depth : Nat} (h : DerivesRole reader ls r depth) :
    (∀ l ∈ ls, l.IsProper) → ∀ budget, depth < budget →
      IsRole reader budget ls r := by
  induction h with
  | name word marks =>
    intro proper budget below
    obtain ⟨budget, rfl⟩ := Nat.exists_eq_add_one.2 below
    rw [← invert_eq_turned]
    exact .name marks (valid.iriOf (proper _ List.mem_cons_self))
  | group marks _ ih =>
    intro proper budget below
    obtain ⟨budget, rfl⟩ := Nat.exists_eq_add_one.2 (Nat.zero_lt_of_lt below)
    rw [← invert_eq_turned]
    refine .group marks (ih (fun l hl => proper l ?_) budget (by omega))
    simp [hl]

-- ==================================================================== concepts

mutual

/-- A factor that fits in a budget is derived below it. -/
theorem IsFactor.exists_derives {budget : Nat} {ls : List Lexeme}
    {c : Concept} (proper : ∀ l ∈ ls, l.IsProper) :
    IsFactor reader budget ls c →
      ∃ depth < budget, DerivesFactor reader ls c depth
  | .top => ⟨0, Nat.succ_pos _, .top⟩
  | .bottom => ⟨0, Nat.succ_pos _, .bottom⟩
  | .name known => by
    obtain ⟨-, rfl⟩ := Reader.iriOf_eq_ok.1 known
    exact ⟨0, Nat.succ_pos _, .name _⟩
  | .oneOf inner => by
    obtain ⟨words, nonempty, rfl, rfl⟩ := inner.exists_words
    exact ⟨0, Nat.succ_pos _, .oneOf nonempty⟩
  | .compl operand => by
    obtain ⟨depth, below, derived⟩ := operand.exists_derives
      fun l hl => proper l (List.mem_cons_of_mem _ hl)
    exact ⟨depth + 1, Nat.succ_lt_succ below, .compl derived⟩
  | .restrict quantifier role filler => by
    obtain ⟨outer, outerBelow, derivedRole⟩ := role.exists_derives
    obtain ⟨inner, innerBelow, derived⟩ := filler.exists_derives
      fun l hl => proper l (by simp [hl])
    have derivedQuantifier := (isQuantifier_iff fun l hl =>
      proper l (by simp [hl])).1 quantifier
    exact ⟨max outer inner + 1, by omega,
      .restrict derivedQuantifier derivedRole derived⟩
  | .group inner => by
    obtain ⟨depth, below, derived⟩ := inner.exists_derives
      fun l hl => proper l (by simp [hl])
    exact ⟨depth + 1, Nat.succ_lt_succ below, .group derived⟩

/-- Factors that fit in a budget are derived below it. -/
theorem IsFactors.exists_derives {budget : Nat} {ls : List Lexeme}
    {cs : List Concept} (proper : ∀ l ∈ ls, l.IsProper) :
    IsFactors reader budget ls cs →
      ∃ depth < budget, DerivesFactors reader ls cs depth
  | .one factor => by
    obtain ⟨depth, below, derived⟩ := factor.exists_derives proper
    exact ⟨depth, below, .one derived⟩
  | .more factor others => by
    obtain ⟨first, firstBelow, derived⟩ := factor.exists_derives
      fun l hl => proper l (by simp [hl])
    obtain ⟨rest, restBelow, derivedRest⟩ := others.exists_derives
      fun l hl => proper l (by simp [hl])
    exact ⟨max first rest, by omega, .more derived derivedRest⟩

/-- Unions that fit in a budget are derived below it. -/
theorem IsUnions.exists_derives {budget : Nat} {ls : List Lexeme}
    {cs : List Concept} (proper : ∀ l ∈ ls, l.IsProper) :
    IsUnions reader budget ls cs →
      ∃ depth < budget, DerivesUnions reader ls cs depth
  | .one factors => by
    obtain ⟨depth, below, derived⟩ := factors.exists_derives proper
    exact ⟨depth, below, .one derived⟩
  | .more factors others => by
    obtain ⟨first, firstBelow, derived⟩ := factors.exists_derives
      fun l hl => proper l (by simp [hl])
    obtain ⟨rest, restBelow, derivedRest⟩ := others.exists_derives
      fun l hl => proper l (by simp [hl])
    exact ⟨max first rest, by omega, .more derived derivedRest⟩

end

mutual

/-- A factor that is derived fits in every budget above its depth. -/
theorem DerivesFactor.isFactor (valid : reader.NamesValid) {ls : List Lexeme}
    {c : Concept} {depth : Nat} (proper : ∀ l ∈ ls, l.IsProper) :
    DerivesFactor reader ls c depth → ∀ {budget : Nat}, depth < budget →
      IsFactor reader budget ls c
  | _, 0, below => absurd below (Nat.not_lt_zero _)
  | .top, _ + 1, _ => .top
  | .bottom, _ + 1, _ => .bottom
  | .name _, _ + 1, _ => .name (valid.iriOf (proper _ List.mem_cons_self))
  | .oneOf nonempty, _ + 1, _ =>
    .oneOf (isMembers_of_words valid nonempty fun l hl =>
      proper l (by simp [hl]))
  | .compl operand, _ + 1, below =>
    .compl (operand.isFactor valid
      (fun l hl => proper l (List.mem_cons_of_mem _ hl)) (by omega))
  | .restrict quantifier role filler, _ + 1, below =>
    .restrict
      ((isQuantifier_iff fun l hl => proper l (by simp [hl])).2 quantifier)
      (role.isRole valid (fun l hl => proper l (by simp [hl])) _ (by omega))
      (filler.isFactor valid (fun l hl => proper l (by simp [hl])) (by omega))
  | .group inner, _ + 1, below =>
    .group (inner.isUnions valid (fun l hl => proper l (by simp [hl]))
      (by omega))

/-- Factors that are derived fit in every budget above their depth. -/
theorem DerivesFactors.isFactors (valid : reader.NamesValid)
    {ls : List Lexeme} {cs : List Concept} {depth : Nat}
    (proper : ∀ l ∈ ls, l.IsProper) :
    DerivesFactors reader ls cs depth → ∀ {budget : Nat}, depth < budget →
      IsFactors reader budget ls cs
  | .one factor, _, below => .one (factor.isFactor valid proper below)
  | .more factor rest, _, below =>
    .more
      (factor.isFactor valid (fun l hl => proper l (by simp [hl])) (by omega))
      (rest.isFactors valid (fun l hl => proper l (by simp [hl])) (by omega))

/-- Unions that are derived fit in every budget above their depth. -/
theorem DerivesUnions.isUnions (valid : reader.NamesValid) {ls : List Lexeme}
    {cs : List Concept} {depth : Nat} (proper : ∀ l ∈ ls, l.IsProper) :
    DerivesUnions reader ls cs depth → ∀ {budget : Nat}, depth < budget →
      IsUnions reader budget ls cs
  | .one factors, _, below => .one (factors.isFactors valid proper below)
  | .more factors rest, _, below =>
    .more
      (factors.isFactors valid (fun l hl => proper l (by simp [hl])) (by omega))
      (rest.isUnions valid (fun l hl => proper l (by simp [hl])) (by omega))

end

-- ===================================================================== budgets

variable {ls : List Lexeme} {budget : Nat}

/-- A role fits in a budget if it is derived below it. -/
theorem isRole_iff (valid : reader.NamesValid)
    (proper : ∀ l ∈ ls, l.IsProper) {r : Role} :
    IsRole reader budget ls r ↔
      ∃ depth < budget, DerivesRole reader ls r depth := by
  constructor
  · exact IsRole.exists_derives
  · intro h
    obtain ⟨depth, below, derived⟩ := h
    exact derived.isRole valid proper budget below

/-- A concept fits in a budget if it is derived below it. -/
theorem isConcept_iff (valid : reader.NamesValid)
    (proper : ∀ l ∈ ls, l.IsProper) {c : Concept} :
    IsConcept reader budget ls c ↔
      ∃ depth < budget, DerivesConcept reader ls c depth := by
  constructor
  · intro h
    obtain ⟨cs, unions, rfl⟩ := h
    obtain ⟨depth, below, derived⟩ := unions.exists_derives proper
    exact ⟨depth, below, cs, derived, rfl⟩
  · intro h
    obtain ⟨depth, below, cs, derived, rfl⟩ := h
    exact ⟨cs, derived.isUnions valid proper below, rfl⟩

end Grammar

-- ======================================================================= texts

namespace Reader

open Grammar

variable {reader : Reader}

/-- What reads tokens by their derivations reads a text by the derivation of
its tokens. Sentences are nested, and pass the check of brackets. -/
theorem tokens_bind_eq_ok {α : Type} {read : List Token → Except ReadError α}
    {Derives : List Lexeme → α → Nat → Prop}
    (nested : ∀ {ts value}, read ts = .ok value →
      Lexeme.IsNested (ts.map Token.lexeme))
    (derives : ∀ {ts value}, (∀ l ∈ ts.map Token.lexeme, l.IsProper) →
      (read ts = .ok value ↔
        ∃ depth < reader.budget, Derives (ts.map Token.lexeme) value depth))
    {text : List Char} {value : α} :
    (tokens text >>= read) = .ok value ↔
      ∃ ts depth, Token.ofText text = .ok ts ∧
        Derives (ts.map Token.lexeme) value depth ∧
          depth ≤ reader.maxDepth := by
  rw [bind_eq_ok]
  refine exists_congr fun ts => ?_
  rw [tokens_eq_ok]
  constructor
  · intro h
    obtain ⟨⟨lexed, -⟩, sentence⟩ := h
    obtain ⟨depth, below, derived⟩ :=
      (derives fun l => Token.isProper_of_ofText lexed).1 sentence
    exact ⟨depth, lexed, derived, Nat.le_of_lt_succ below⟩
  · intro h
    obtain ⟨depth, lexed, derived, limit⟩ := h
    have sentence := (derives fun l => Token.isProper_of_ofText lexed).2
      ⟨depth, Nat.lt_succ_of_le limit, derived⟩
    exact ⟨⟨lexed, (nested sentence).keepsBalance.isBalanced⟩, sentence⟩

/-- A text is read as a concept, or as a role, if and only if it is made of
tokens and these have a derivation that is no deeper than the limit. -/
theorem read_iff_derives (valid : reader.NamesValid) (text : String) :
    (∀ c, reader.concept text = .ok c ↔
      ∃ ts depth, Token.ofText text.toList = .ok ts ∧
        DerivesConcept reader (ts.map Token.lexeme) c depth ∧
          depth ≤ reader.maxDepth) ∧
    (∀ r, reader.role text = .ok r ↔
      ∃ ts depth, Token.ofText text.toList = .ok ts ∧
        DerivesRole reader (ts.map Token.lexeme) r depth ∧
          depth ≤ reader.maxDepth) := by
  constructor
  · intro c
    exact tokens_bind_eq_ok (fun h => (conceptOfTokens_eq_ok.1 h).isNested)
      fun proper => conceptOfTokens_eq_ok.trans (isConcept_iff valid proper)
  · intro r
    exact tokens_bind_eq_ok (fun h => (roleOfTokens_eq_ok.1 h).isNested)
      fun proper => roleOfTokens_eq_ok.trans (isRole_iff valid proper)

/-- A number with leading zeros, three inverse marks and a nominal, two levels
deep. -/
theorem concept_of_derivation_standard :
    standard.NamesValid ∧
    standard.concept "¬A ⊔ ≥007 (r^-1)^-1^-1.{a, b}" =
      .ok (.union [.compl (.atom (standard.named ['A'])),
        .restrict (.atLeast 7) (.inverse (standard.named ['r']))
          (.oneOf [.named (standard.named ['a']),
            .named (standard.named ['b'])])]) := by
  have complement : DerivesFactor standard [.complement, .name ['A']]
      (.compl (.atom (standard.named ['A']))) 1 :=
    .compl (.name ['A'])
  have number : DerivesQuantifier [.atLeast, .name ['0', '0', '7']]
      (.atLeast 7) :=
    .atLeast ⟨by decide, by decide, by decide⟩
  have marked : DerivesRole standard [.name ['r'], .inverse]
      (.inverse (standard.named ['r'])) 0 :=
    .name ['r'] 1
  have role : DerivesRole standard
      [.openParen, .name ['r'], .inverse, .closeParen, .inverse, .inverse]
      (.inverse (standard.named ['r'])) 1 :=
    .group 2 marked
  have nominal : DerivesFactor standard
      [.openBrace, .name ['a'], .comma, .name ['b'], .closeBrace]
      (.oneOf [.named (standard.named ['a']), .named (standard.named ['b'])])
      0 := by
    have words : [['a'], ['b']] ≠ [] := by decide
    exact .oneOf words
  have union := DerivesFactors.more complement
    (.one (.restrict number role nominal))
  let ts : List Token :=
    [⟨[], .complement⟩, ⟨[], .name ['A']⟩, ⟨[' '], .join⟩, ⟨[' '], .atLeast⟩,
      ⟨[], .name ['0', '0', '7']⟩, ⟨[' '], .openParen⟩, ⟨[], .name ['r']⟩,
      ⟨[], .inverse⟩, ⟨[], .closeParen⟩, ⟨[], .inverse⟩, ⟨[], .inverse⟩,
      ⟨[], .dot⟩, ⟨[], .openBrace⟩, ⟨[], .name ['a']⟩, ⟨[], .comma⟩,
      ⟨[' '], .name ['b']⟩, ⟨[], .closeBrace⟩]
  exact ⟨namesValid_standard,
    ((read_iff_derives namesValid_standard _).1 _).2
      ⟨ts, _, by decide +kernel, ⟨_, .one union, rfl⟩, by decide⟩⟩

end Reader

end ContextDL
