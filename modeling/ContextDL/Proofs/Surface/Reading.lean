/-
Reading follows the grammar.

A step reads a language (`Step.Reads`) if what it takes off the front of some
tokens is a sentence, for what it gives, and if it takes every sentence off
whatever may follow one. The second half asks that the tokens that follow do
not go on with the sentence: a role goes on with inverse marks, a chain with
its operator. Nothing goes on with a factor.

# Why a budget is enough of an induction

A factor of one budget has its parts in the budget below, in the grammar as
in the steps. So the proofs go by induction on the budget, and a sentence is
taken apart once at each. Chains are lists of factors and of unions, and one
lemma serves both (`reads_readChain`).

# Conclusions

`Reader.conceptOfTokens_eq_ok` and `Reader.roleOfTokens_eq_ok`: some tokens
are read as a whole if and only if their lexemes are a sentence.
-/
import ContextDL.Proofs.Success
import ContextDL.Surface.Grammar

namespace ContextDL

open Grammar

-- ======================================================================= steps

/-- A step takes sentences, and nothing else, off the front of tokens that do
not start with one of some lexemes. -/
structure Step.Reads {α : Type} (step : Step α)
    (IsSentence : List Lexeme → α → Prop) (more : List Lexeme) : Prop where
  sound : ∀ {ts : List Token} {value : α} {rest : List Token},
    step ts = .ok (value, rest) →
      ∃ used, ts = used ++ rest ∧ IsSentence (used.map Token.lexeme) value
  complete : ∀ {used : List Token} {value : α} (rest : List Token),
    IsSentence (used.map Token.lexeme) value →
      (∀ t ∈ rest.head?, t.lexeme ∉ more) →
        step (used ++ rest) = .ok (value, rest)

/-- A token that no sentence goes on with. -/
theorem not_mem_of_head {t : Token} {rest : List Token} {more : List Lexeme}
    (h : t.lexeme ∉ more) : ∀ s ∈ (t :: rest).head?, s.lexeme ∉ more := by
  intro s hs
  cases hs
  exact h

/-- Nothing goes on with some sentences. -/
theorem not_mem_nil_of_head {rest : List Token} :
    ∀ s ∈ rest.head?, s.lexeme ∉ ([] : List Lexeme) := by
  intro s _
  exact List.not_mem_nil

/-- Tokens are read as a whole if they are a sentence. -/
theorem Step.Reads.finish_eq_ok {α : Type} {step : Step α}
    {IsSentence : List Lexeme → α → Prop} {more : List Lexeme}
    (reads : Step.Reads step IsSentence more) {ts : List Token} {value : α} :
    Reader.finish (step ts) = .ok value ↔
      IsSentence (ts.map Token.lexeme) value := by
  unfold Reader.finish
  rw [bind_eq_ok]
  constructor
  · intro h
    obtain ⟨⟨first, rest⟩, hstep, hend⟩ := h
    cases rest with
    | nil =>
      cases hend
      obtain ⟨used, hts, sentence⟩ := reads.sound hstep
      rw [List.append_nil] at hts
      rwa [hts]
    | cons => cases hend
  · intro sentence
    have hstep := reads.complete [] sentence (by simp)
    rw [List.append_nil] at hstep
    exact ⟨(value, []), hstep, rfl⟩

/-- Tokens whose lexemes are enclosed are enclosed. -/
theorem map_eq_enclosed {ts : List Token} {opening closing : Lexeme}
    {ls : List Lexeme}
    (h : ts.map Token.lexeme = opening :: ls ++ [closing]) :
    ∃ a inner b, ts = a :: inner ++ [b] ∧ a.lexeme = opening ∧
      inner.map Token.lexeme = ls ∧ b.lexeme = closing := by
  obtain ⟨front, back, rfl, hfront, hback⟩ := List.map_eq_append_iff.1 h
  obtain ⟨a, inner, rfl, ha, hinner⟩ := List.map_eq_cons_iff.1 hfront
  obtain ⟨b, rfl, hb⟩ := List.map_eq_singleton_iff.1 hback
  exact ⟨a, inner, b, rfl, ha, hinner, hb⟩

-- ====================================================================== chains

/-- Sentences with an operator between them, one at least. -/
inductive Grammar.Chain (IsItem : List Lexeme → Concept → Prop)
    (operator : Lexeme) : List Lexeme → List Concept → Prop where
  | one {ls : List Lexeme} {c : Concept} (item : IsItem ls c) :
      Chain IsItem operator ls [c]
  | more {ls ms : List Lexeme} {c : Concept} {cs : List Concept}
      (item : IsItem ls c) (others : Chain IsItem operator ms cs) :
      Chain IsItem operator (ls ++ operator :: ms) (c :: cs)

theorem Grammar.chain_of_isFactors {reader : Reader} {budget : Nat} :
    ∀ {ls : List Lexeme} {cs : List Concept},
      IsFactors reader budget ls cs →
        Chain (IsFactor reader budget) .join ls cs
  | _, _, .one factor => .one factor
  | _, _, .more factor others => .more factor (chain_of_isFactors others)

theorem Grammar.isFactors_iff {reader : Reader} {budget : Nat}
    {ls : List Lexeme} {cs : List Concept} :
    IsFactors reader budget ls cs ↔
      Chain (IsFactor reader budget) .join ls cs := by
  refine ⟨chain_of_isFactors, ?_⟩
  intro h
  induction h with
  | one factor => exact .one factor
  | more factor _ ih => exact .more factor ih

theorem Grammar.chain_of_isUnions {reader : Reader} {budget : Nat} :
    ∀ {ls : List Lexeme} {cs : List Concept},
      IsUnions reader budget ls cs →
        Chain (IsUnion reader budget) .meet ls cs
  | _, _, .one factors => .one ⟨_, factors, rfl⟩
  | _, _, .more factors others =>
    .more ⟨_, factors, rfl⟩ (chain_of_isUnions others)

theorem Grammar.isUnions_iff {reader : Reader} {budget : Nat}
    {ls : List Lexeme} {cs : List Concept} :
    IsUnions reader budget ls cs ↔
      Chain (IsUnion reader budget) .meet ls cs := by
  refine ⟨chain_of_isUnions, ?_⟩
  intro h
  induction h with
  | one union =>
    obtain ⟨cs, factors, rfl⟩ := union
    exact .one factors
  | more union _ ih =>
    obtain ⟨cs, factors, rfl⟩ := union
    exact .more factors ih

namespace Reader

theorem chained_eq (node : List Concept → Concept) (first : Concept)
    (others : List Concept) :
    chained node first others = chain node (first :: others) := by
  cases others <;> rfl

section Chains

variable {item : Step Concept} {IsItem : List Lexeme → Concept → Prop}
  {more : List Lexeme} {operator : Lexeme}

/-- The operands that are read behind the first are none, or an operator and a
chain. -/
theorem readOperands_sound (reads : Step.Reads item IsItem more) :
    ∀ {bound : Nat} {ts : List Token} {cs : List Concept} {rest : List Token},
      readOperands item operator bound ts = .ok (cs, rest) →
        cs = [] ∧ ts = rest ∨
          ∃ t used, ts = t :: used ++ rest ∧ t.lexeme = operator ∧
            Chain IsItem operator (used.map Token.lexeme) cs := by
  intro bound
  induction bound with
  | zero =>
    intro ts cs rest h
    cases h
    exact Or.inl ⟨rfl, rfl⟩
  | succ bound ih =>
    intro ts cs rest h
    cases ts with
    | nil =>
      cases h
      exact Or.inl ⟨rfl, rfl⟩
    | cons t ts =>
      rw [readOperands] at h
      by_cases ht : t.lexeme = operator
      · rw [if_pos ht, bind_eq_ok] at h
        obtain ⟨⟨c, left⟩, hitem, h⟩ := h
        obtain ⟨⟨cs, rest⟩, hothers, h⟩ := bind_eq_ok.1 h
        cases h
        obtain ⟨used, hts, hc⟩ := reads.sound hitem
        subst hts
        right
        rcases ih hothers with ⟨rfl, rfl⟩ | ⟨o, others, rfl, ho, hcs⟩
        · exact ⟨t, used, rfl, ht, .one hc⟩
        · refine ⟨t, used ++ o :: others, by simp, ht, ?_⟩
          rw [List.map_append, List.map_cons, ho]
          exact .more hc hcs
      · rw [if_neg ht] at h
        cases h
        exact Or.inl ⟨rfl, rfl⟩

/-- No operand is read where the operator does not stand. -/
theorem readOperands_stop (item : Step Concept) (bound : Nat)
    {rest : List Token} (hrest : ∀ t ∈ rest.head?, t.lexeme ≠ operator) :
    readOperands item operator bound rest = .ok ([], rest) := by
  cases rest with
  | nil => cases bound <;> rfl
  | cons t rest =>
    cases bound with
    | zero => rfl
    | succ => rw [readOperands, if_neg (hrest t rfl)]

/-- All operands of a chain behind an operator are read, if the bound allows
for as many as there are tokens. -/
theorem readOperands_complete (reads : Step.Reads item IsItem more)
    (apart : operator ∉ more) {ls : List Lexeme} {cs : List Concept}
    (sentence : Chain IsItem operator ls cs) :
    ∀ {bound : Nat} {t : Token} {used rest : List Token},
      t.lexeme = operator → used.map Token.lexeme = ls →
        (∀ s ∈ rest.head?, s.lexeme ∉ operator :: more) →
          (t :: used ++ rest).length ≤ bound →
            readOperands item operator bound (t :: used ++ rest) =
              .ok (cs, rest) := by
  induction sentence with
  | one hc =>
    intro bound t used rest ht hused hrest hbound
    subst hused
    obtain ⟨bound, rfl⟩ : ∃ n, bound = n + 1 :=
      Nat.exists_eq_add_one.2 (by simp at hbound; omega)
    have first := reads.complete rest hc fun s hs h =>
      hrest s hs (List.mem_cons_of_mem _ h)
    have stop : readOperands item operator bound rest = .ok ([], rest) :=
      readOperands_stop item bound fun s hs h =>
        hrest s hs (h ▸ List.mem_cons_self)
    rw [List.cons_append, readOperands, if_pos ht]
    exact bind_eq_ok.2 ⟨_, first, bind_eq_ok.2 ⟨_, stop, rfl⟩⟩
  | more hc _ ih =>
    intro bound t used rest ht hused hrest hbound
    obtain ⟨front, back, rfl, hfront, hback⟩ := List.map_eq_append_iff.1 hused
    obtain ⟨o, others, rfl, ho, hothers⟩ := List.map_eq_cons_iff.1 hback
    subst hfront
    obtain ⟨bound, rfl⟩ : ∃ n, bound = n + 1 :=
      Nat.exists_eq_add_one.2 (by simp at hbound; omega)
    have first := reads.complete (o :: others ++ rest) hc
      (not_mem_of_head (ho ▸ apart))
    have shorter : (o :: others ++ rest).length ≤ bound := by
      simp at hbound ⊢
      omega
    have tail := ih ho hothers hrest shorter
    rw [List.cons_append, List.append_assoc, readOperands, if_pos ht]
    exact bind_eq_ok.2 ⟨_, first, bind_eq_ok.2 ⟨_, tail, rfl⟩⟩

/-- A chain of sentences is read, one operand after the other. -/
theorem reads_readChain (reads : Step.Reads item IsItem more)
    (apart : operator ∉ more) (node : List Concept → Concept) :
    Step.Reads (readChain item operator node)
      (fun ls c => ∃ cs, Chain IsItem operator ls cs ∧ c = chain node cs)
      (operator :: more) where
  sound := by
    intro ts c rest h
    unfold readChain at h
    obtain ⟨⟨first, left⟩, hfirst, h⟩ := bind_eq_ok.1 h
    obtain ⟨⟨others, rest⟩, hothers, h⟩ := bind_eq_ok.1 h
    cases h
    obtain ⟨used, rfl, hc⟩ := reads.sound hfirst
    rw [chained_eq]
    rcases readOperands_sound reads hothers with
      ⟨rfl, rfl⟩ | ⟨o, back, rfl, ho, hcs⟩
    · exact ⟨used, rfl, [first], .one hc, rfl⟩
    · refine ⟨used ++ o :: back, by simp, first :: others, ?_, rfl⟩
      rw [List.map_append, List.map_cons, ho]
      exact .more hc hcs
  complete := by
    intro used c rest sentence hrest
    obtain ⟨cs, hcs, rfl⟩ := sentence
    unfold readChain
    generalize hls : used.map Token.lexeme = ls at hcs
    cases hcs with
    | one hc =>
      subst hls
      have first := reads.complete rest hc fun s hs h =>
        hrest s hs (List.mem_cons_of_mem _ h)
      have stop := readOperands_stop item rest.length fun s hs h =>
        hrest s hs (h ▸ List.mem_cons_self)
      exact bind_eq_ok.2 ⟨_, first, bind_eq_ok.2 ⟨_, stop, rfl⟩⟩
    | more hc others =>
      obtain ⟨front, back, rfl, hfront, hback⟩ := List.map_eq_append_iff.1 hls
      obtain ⟨o, tail, rfl, ho, htail⟩ := List.map_eq_cons_iff.1 hback
      subst hfront
      have first := reads.complete (o :: tail ++ rest) hc
        (not_mem_of_head (ho ▸ apart))
      have operands :=
        readOperands_complete reads apart others ho htail hrest (Nat.le_refl _)
      rw [List.append_assoc, ← chained_eq]
      exact bind_eq_ok.2 ⟨_, first, bind_eq_ok.2 ⟨_, operands, rfl⟩⟩

end Chains

-- ======================================================================= roles

theorem closeParen_eq_ok {ts rest : List Token} :
    closeParen ts = .ok rest ↔ ∃ t, t.lexeme = .closeParen ∧ ts = t :: rest := by
  constructor
  · intro h
    cases ts with
    | nil => cases h
    | cons t ts =>
      rw [closeParen] at h
      split at h
      · next ht =>
        cases h
        exact ⟨t, ht, rfl⟩
      · cases h
  · intro h
    obtain ⟨t, ht, rfl⟩ := h
    rw [closeParen, if_pos ht]

/-- The inverse marks in front of some tokens, and what is left. -/
theorem readInverses_sound (role : Role) (ts : List Token) :
    ∃ marks used rest, ts = used ++ rest ∧
      used.map Token.lexeme = List.replicate marks .inverse ∧
      readInverses role ts = (invert role marks, rest) := by
  induction ts generalizing role with
  | nil => exact ⟨0, [], [], rfl, rfl, rfl⟩
  | cons t ts ih =>
    rw [readInverses]
    by_cases ht : t.lexeme = .inverse
    · obtain ⟨marks, used, rest, rfl, hused, h⟩ := ih role.inverted
      refine ⟨marks + 1, t :: used, rest, rfl, ?_, ?_⟩
      · rw [List.map_cons, ht, hused, List.replicate_succ]
      · rw [if_pos ht, h]
        rfl
    · exact ⟨0, [], t :: ts, rfl, rfl, by rw [if_neg ht]; rfl⟩

theorem readInverses_complete {marks : Nat} {used rest : List Token}
    (hused : used.map Token.lexeme = List.replicate marks .inverse)
    (hrest : ∀ t ∈ rest.head?, t.lexeme ∉ [Lexeme.inverse]) (role : Role) :
    readInverses role (used ++ rest) = (invert role marks, rest) := by
  induction marks generalizing role used with
  | zero =>
    cases List.map_eq_nil_iff.1 hused
    cases rest with
    | nil => rfl
    | cons t rest =>
      have ht : t.lexeme ≠ .inverse := by simpa using hrest t rfl
      rw [List.nil_append, readInverses, if_neg ht]
      rfl
  | succ marks ih =>
    rw [List.replicate_succ] at hused
    obtain ⟨t, used, rfl, ht, hused⟩ := List.map_eq_cons_iff.1 hused
    rw [List.cons_append, readInverses, if_pos ht, ih hused]
    rfl

variable {reader : Reader} {whole : List Token}

theorem reads_readRole (budget : Nat) :
    Step.Reads (readRole reader whole budget) (IsRole reader budget)
      [.inverse] where
  sound := by
    induction budget with
    | zero =>
      intro ts r rest h
      cases h
    | succ budget ih =>
      intro ts r rest h
      cases ts with
      | nil => cases h
      | cons t ts =>
        rw [readRole] at h
        split at h
        · next text ht =>
          obtain ⟨p, hp, hend⟩ := bind_eq_ok.1 h
          obtain ⟨marks, used, left, rfl, hused, hmarks⟩ :=
            readInverses_sound (.named p) ts
          rw [pure_eq_ok, hmarks] at hend
          cases hend
          refine ⟨t :: used, rfl, ?_⟩
          rw [List.map_cons, ht, hused]
          exact .name marks hp
        · next ht =>
          obtain ⟨⟨r, left⟩, hinner, h⟩ := bind_eq_ok.1 h
          obtain ⟨after, hclose, hend⟩ := bind_eq_ok.1 h
          obtain ⟨c, hc, rfl⟩ := closeParen_eq_ok.1 hclose
          obtain ⟨inner, rfl, hr⟩ := ih hinner
          obtain ⟨marks, used, left, rfl, hused, hmarks⟩ :=
            readInverses_sound r after
          rw [pure_eq_ok, hmarks] at hend
          cases hend
          refine ⟨t :: inner ++ c :: used, by simp, ?_⟩
          rw [List.map_append, List.map_cons, List.map_cons, ht, hc, hused]
          exact .group marks hr
        · cases h
        · cases h
        · cases h
  complete := by
    induction budget with
    | zero =>
      intro used r rest sentence
      cases sentence
    | succ budget ih =>
      intro used r rest sentence hrest
      generalize hls : used.map Token.lexeme = ls at sentence
      cases sentence with
      | name marks known =>
        obtain ⟨t, back, rfl, ht, hback⟩ := List.map_eq_cons_iff.1 hls
        rw [List.cons_append, readRole, ht]
        refine bind_eq_ok.2 ⟨_, known, ?_⟩
        rw [pure_eq_ok, readInverses_complete hback hrest]
      | group marks inner =>
        obtain ⟨front, back, rfl, hfront, hback⟩ :=
          List.map_eq_append_iff.1 hls
        obtain ⟨t, front, rfl, ht, hfront⟩ := List.map_eq_cons_iff.1 hfront
        obtain ⟨c, back, rfl, hc, hback⟩ := List.map_eq_cons_iff.1 hback
        subst hfront
        have hinner := ih (c :: back ++ rest) inner
          (not_mem_of_head (by rw [hc]; decide))
        rw [List.append_assoc, List.cons_append, readRole, ht]
        refine bind_eq_ok.2 ⟨_, hinner, ?_⟩
        refine bind_eq_ok.2 ⟨back ++ rest, closeParen_eq_ok.2 ⟨c, hc, rfl⟩, ?_⟩
        rw [pure_eq_ok, readInverses_complete hback hrest]

-- ==================================================================== nominals

theorem readMembers_sound :
    ∀ {ts : List Token} {members : List Individual} {rest : List Token},
      readMembers reader whole ts = .ok (members, rest) →
        ∃ used t, ts = used ++ t :: rest ∧ t.lexeme = .closeBrace ∧
          IsMembers reader (used.map Token.lexeme) members
  | [], _, _, h => by cases h
  | t :: ts, members, rest, h => by
    rw [readMembers] at h
    split at h
    · next text ht =>
      obtain ⟨a, ha, h⟩ := bind_eq_ok.1 h
      cases ts with
      | nil => cases h
      | cons s ts =>
        dsimp only at h
        split at h
        · next hs =>
          obtain ⟨⟨others, left⟩, hothers, hend⟩ := bind_eq_ok.1 h
          cases hend
          obtain ⟨used, c, rfl, hc, members⟩ := readMembers_sound hothers
          refine ⟨t :: s :: used, c, rfl, hc, ?_⟩
          rw [List.map_cons, List.map_cons, ht, hs]
          exact .more ha members
        · next hs =>
          cases h
          refine ⟨[t], s, rfl, hs, ?_⟩
          rw [List.map_cons, ht]
          exact .one ha
        · cases h
    · cases h

theorem readMembers_complete {ls : List Lexeme} {members : List Individual}
    (sentence : IsMembers reader ls members) :
    ∀ {used : List Token} {t : Token} (rest : List Token),
      used.map Token.lexeme = ls → t.lexeme = .closeBrace →
        readMembers reader whole (used ++ t :: rest) = .ok (members, rest) := by
  induction sentence with
  | one known =>
    intro used t rest hused ht
    obtain ⟨n, back, rfl, hn, hback⟩ := List.map_eq_cons_iff.1 hused
    cases List.map_eq_nil_iff.1 hback
    rw [List.singleton_append, readMembers, hn]
    refine bind_eq_ok.2 ⟨_, known, ?_⟩
    dsimp only
    rw [ht]
    rfl
  | more known _ ih =>
    intro used t rest hused ht
    obtain ⟨n, back, rfl, hn, hback⟩ := List.map_eq_cons_iff.1 hused
    obtain ⟨s, others, rfl, hs, hothers⟩ := List.map_eq_cons_iff.1 hback
    rw [List.cons_append, List.cons_append, readMembers, hn]
    refine bind_eq_ok.2 ⟨_, known, ?_⟩
    dsimp only
    rw [hs]
    exact bind_eq_ok.2 ⟨_, ih rest hothers ht, rfl⟩

-- ================================================================ restrictions

theorem readNumber_eq_ok {ts rest : List Token} {n : UInt32} :
    readNumber whole ts = .ok (n, rest) ↔
      ∃ t text, ts = t :: rest ∧ t.lexeme = .name text ∧
        number? text = some n := by
  constructor
  · intro h
    cases ts with
    | nil => cases h
    | cons t ts =>
      rw [readNumber] at h
      split at h
      · next text ht =>
        split at h
        · next hn =>
          cases h
          exact ⟨t, text, rfl, ht, hn⟩
        · cases h
      · cases h
  · intro h
    obtain ⟨t, text, rfl, ht, hn⟩ := h
    rw [readNumber, ht]
    dsimp only
    rw [hn]

theorem takeDot_eq_ok {start ts rest : List Token} :
    takeDot start ts = .ok rest ↔ ∃ t, t.lexeme = .dot ∧ ts = t :: rest := by
  constructor
  · intro h
    cases ts with
    | nil => cases h
    | cons t ts =>
      rw [takeDot] at h
      split at h
      · next ht =>
        cases h
        exact ⟨t, ht, rfl⟩
      · cases h
  · intro h
    obtain ⟨t, ht, rfl⟩ := h
    rw [takeDot, if_pos ht]

/-- A restriction behind its quantifier is read: a role, a dot and a
filler. -/
theorem reads_readRestriction {role : Step Role} {filler : Step Concept}
    {IsRoleSentence : List Lexeme → Role → Prop}
    {IsFiller : List Lexeme → Concept → Prop}
    (readsRole : Step.Reads role IsRoleSentence [.inverse])
    (readsFiller : Step.Reads filler IsFiller []) (start : List Token)
    (q : Quantifier) :
    Step.Reads (readRestriction start role filler q)
      (fun ls c => ∃ rs ms r d, ls = rs ++ .dot :: ms ∧ IsRoleSentence rs r ∧
        IsFiller ms d ∧ c = .restrict q r d) [] where
  sound := by
    intro ts c rest h
    unfold readRestriction at h
    obtain ⟨⟨r, left⟩, hrole, h⟩ := bind_eq_ok.1 h
    obtain ⟨after, hdot, h⟩ := bind_eq_ok.1 h
    obtain ⟨⟨d, rest⟩, hfiller, hend⟩ := bind_eq_ok.1 h
    cases hend
    obtain ⟨t, ht, rfl⟩ := takeDot_eq_ok.1 hdot
    obtain ⟨front, rfl, hr⟩ := readsRole.sound hrole
    obtain ⟨back, rfl, hd⟩ := readsFiller.sound hfiller
    refine ⟨front ++ t :: back, by simp, _, _, r, d, ?_, hr, hd, rfl⟩
    rw [List.map_append, List.map_cons, ht]
  complete := by
    intro used c rest sentence _
    obtain ⟨rs, ms, r, d, hls, hr, hd, rfl⟩ := sentence
    obtain ⟨front, back, rfl, rfl, hback⟩ := List.map_eq_append_iff.1 hls
    obtain ⟨t, back, rfl, ht, rfl⟩ := List.map_eq_cons_iff.1 hback
    have hrole := readsRole.complete (t :: back ++ rest) hr
      (not_mem_of_head (by rw [ht]; decide))
    have hfiller := readsFiller.complete rest hd not_mem_nil_of_head
    unfold readRestriction
    rw [List.append_assoc]
    refine bind_eq_ok.2 ⟨_, hrole, ?_⟩
    refine bind_eq_ok.2 ⟨back ++ rest, takeDot_eq_ok.2 ⟨t, ht, rfl⟩, ?_⟩
    exact bind_eq_ok.2 ⟨_, hfiller, rfl⟩

-- ==================================================================== concepts

/-- What is read behind the number of a cardinality. -/
theorem counted_eq_ok {ts rest : List Token} {c : Concept}
    {quantifier : UInt32 → Quantifier} {next : Quantifier → Step Concept} :
    (do
      let (n, left) ← readNumber whole ts
      next (quantifier n) left) = .ok (c, rest) ↔
      ∃ t text n left, ts = t :: left ∧ t.lexeme = .name text ∧
        number? text = some n ∧ next (quantifier n) left = .ok (c, rest) := by
  rw [bind_eq_ok]
  constructor
  · intro h
    obtain ⟨⟨n, left⟩, hn, h⟩ := h
    obtain ⟨t, text, rfl, ht, hn⟩ := readNumber_eq_ok.1 hn
    exact ⟨t, text, n, left, rfl, ht, hn, h⟩
  · intro h
    obtain ⟨t, text, n, left, rfl, ht, hn, h⟩ := h
    exact ⟨(n, left), readNumber_eq_ok.2 ⟨t, text, rfl, ht, hn⟩, h⟩

theorem reads_readUnion {budget : Nat} {factor : Step Concept}
    (reads : Step.Reads factor (IsFactor reader budget) []) :
    Step.Reads (readUnion factor) (IsUnion reader budget) [.join] := by
  have apart : Lexeme.join ∉ ([] : List Lexeme) := List.not_mem_nil
  have chains := reads_readChain reads apart .union
  simp only [← isFactors_iff] at chains
  exact chains

theorem reads_readInter {budget : Nat} {factor : Step Concept}
    (reads : Step.Reads factor (IsFactor reader budget) []) :
    Step.Reads (readInter factor) (IsConcept reader budget)
      [.meet, .join] := by
  have apart : Lexeme.meet ∉ [Lexeme.join] := by decide
  have chains := reads_readChain (reads_readUnion reads) apart .inter
  simp only [← isUnions_iff] at chains
  exact chains

/-- Factors that start with a quantifier are read. -/
theorem restriction_sound {budget : Nat} {start ts rest : List Token}
    (qs : List Token) {q : Quantifier} {c : Concept}
    (reads : Step.Reads (readFactor reader whole budget)
      (IsFactor reader budget) [])
    (quantifier : IsQuantifier (qs.map Token.lexeme) q)
    (h : readRestriction start (readRole reader whole budget)
      (readFactor reader whole budget) q ts = .ok (c, rest)) :
    ∃ used, qs ++ ts = used ++ rest ∧
      IsFactor reader (budget + 1) (used.map Token.lexeme) c := by
  obtain ⟨used, rfl, rs, ms, r, d, hused, hr, hd, rfl⟩ :=
    (reads_readRestriction (reads_readRole budget) reads start q).sound h
  refine ⟨qs ++ used, by simp, ?_⟩
  rw [List.map_append, hused, ← List.append_assoc]
  exact .restrict quantifier hr hd

/-- What a factor is read from is a factor, if this holds in the budget
below. -/
theorem readFactor_sound {budget : Nat}
    (reads : Step.Reads (readFactor reader whole budget)
      (IsFactor reader budget) [])
    {ts rest : List Token} {c : Concept}
    (h : readFactor reader whole (budget + 1) ts = .ok (c, rest)) :
    ∃ used, ts = used ++ rest ∧
      IsFactor reader (budget + 1) (used.map Token.lexeme) c := by
  cases ts with
  | nil => cases h
  | cons t ts =>
    rw [readFactor] at h
    dsimp only at h
    split at h
    · next ht =>
      obtain ⟨⟨d, left⟩, hd, hend⟩ := bind_eq_ok.1 h
      cases hend
      obtain ⟨used, rfl, sentence⟩ := reads.sound hd
      refine ⟨t :: used, rfl, ?_⟩
      rw [List.map_cons, ht]
      exact .compl sentence
    · next ht =>
      refine restriction_sound [t] reads ?_ h
      rw [List.map_singleton, ht]
      exact .existential
    · next ht =>
      refine restriction_sound [t] reads ?_ h
      rw [List.map_singleton, ht]
      exact .universal
    · next ht =>
      obtain ⟨u, text, n, left, rfl, hu, hn, h⟩ := counted_eq_ok.1 h
      refine restriction_sound [t, u] reads ?_ h
      rw [List.map_cons, List.map_singleton, ht, hu]
      exact .atLeast hn
    · next ht =>
      obtain ⟨u, text, n, left, rfl, hu, hn, h⟩ := counted_eq_ok.1 h
      refine restriction_sound [t, u] reads ?_ h
      rw [List.map_cons, List.map_singleton, ht, hu]
      exact .atMost hn
    · next ht =>
      obtain ⟨u, text, n, left, rfl, hu, hn, h⟩ := counted_eq_ok.1 h
      refine restriction_sound [t, u] reads ?_ h
      rw [List.map_cons, List.map_singleton, ht, hu]
      exact .exactly hn
    · next ht =>
      cases h
      refine ⟨[t], rfl, ?_⟩
      rw [List.map_singleton, ht]
      exact .top
    · next ht =>
      cases h
      refine ⟨[t], rfl, ?_⟩
      rw [List.map_singleton, ht]
      exact .bottom
    · next text ht =>
      obtain ⟨iri, known, hend⟩ := bind_eq_ok.1 h
      cases hend
      refine ⟨[t], rfl, ?_⟩
      rw [List.map_singleton, ht]
      exact .name known
    · next ht =>
      obtain ⟨⟨members, left⟩, hmembers, hend⟩ := bind_eq_ok.1 h
      cases hend
      obtain ⟨inner, b, rfl, hb, sentence⟩ := readMembers_sound hmembers
      refine ⟨t :: inner ++ [b], by simp, ?_⟩
      rw [List.map_append, List.map_cons, List.map_singleton, ht, hb]
      exact .oneOf sentence
    · next ht =>
      obtain ⟨⟨d, left⟩, hd, h⟩ := bind_eq_ok.1 h
      obtain ⟨after, hclose, hend⟩ := bind_eq_ok.1 h
      cases hend
      obtain ⟨b, hb, rfl⟩ := closeParen_eq_ok.1 hclose
      obtain ⟨inner, rfl, cs, sentence, rfl⟩ :=
        (reads_readInter reads).sound hd
      refine ⟨t :: inner ++ [b], by simp, ?_⟩
      rw [List.map_append, List.map_cons, List.map_singleton, ht, hb]
      exact .group sentence
    · cases h

/-- What is read behind a quantifier is read as a restriction. -/
theorem readFactor_restriction {budget : Nat} {qs : List Token}
    {q : Quantifier} (quantifier : IsQuantifier (qs.map Token.lexeme) q)
    (ts : List Token) :
    ∃ start, readFactor reader whole (budget + 1) (qs ++ ts) =
      readRestriction start (readRole reader whole budget)
        (readFactor reader whole budget) q ts := by
  have number {u : Token} {text : List Char} {n : UInt32}
      (hu : u.lexeme = .name text) (known : number? text = some n) :
      readNumber whole (u :: ts) = .ok (n, ts) :=
    readNumber_eq_ok.2 ⟨u, text, rfl, hu, known⟩
  refine ⟨qs ++ ts, ?_⟩
  generalize hls : qs.map Token.lexeme = ls at quantifier
  cases quantifier with
  | existential =>
    obtain ⟨t, rfl, ht⟩ := List.map_eq_singleton_iff.1 hls
    rw [List.singleton_append, readFactor, ht]
  | universal =>
    obtain ⟨t, rfl, ht⟩ := List.map_eq_singleton_iff.1 hls
    rw [List.singleton_append, readFactor, ht]
  | atLeast known =>
    obtain ⟨t, back, rfl, ht, hback⟩ := List.map_eq_cons_iff.1 hls
    obtain ⟨u, rfl, hu⟩ := List.map_eq_singleton_iff.1 hback
    rw [List.cons_append, List.singleton_append, readFactor, ht,
      number hu known]
    rfl
  | atMost known =>
    obtain ⟨t, back, rfl, ht, hback⟩ := List.map_eq_cons_iff.1 hls
    obtain ⟨u, rfl, hu⟩ := List.map_eq_singleton_iff.1 hback
    rw [List.cons_append, List.singleton_append, readFactor, ht,
      number hu known]
    rfl
  | exactly known =>
    obtain ⟨t, back, rfl, ht, hback⟩ := List.map_eq_cons_iff.1 hls
    obtain ⟨u, rfl, hu⟩ := List.map_eq_singleton_iff.1 hback
    rw [List.cons_append, List.singleton_append, readFactor, ht,
      number hu known]
    rfl

/-- A factor that starts with a quantifier is read. -/
theorem readFactor_quantifier {budget : Nat} {qs ts rest : List Token}
    {q : Quantifier} {c : Concept}
    (quantifier : IsQuantifier (qs.map Token.lexeme) q)
    (h : ∀ start, readRestriction start (readRole reader whole budget)
      (readFactor reader whole budget) q ts = .ok (c, rest)) :
    readFactor reader whole (budget + 1) (qs ++ ts) = .ok (c, rest) := by
  obtain ⟨start, read⟩ := readFactor_restriction quantifier ts
  rw [read]
  exact h start

/-- A factor is read in front of anything, if this holds in the budget
below. -/
theorem readFactor_complete {budget : Nat}
    (reads : Step.Reads (readFactor reader whole budget)
      (IsFactor reader budget) [])
    {used rest : List Token} {c : Concept}
    (sentence : IsFactor reader (budget + 1) (used.map Token.lexeme) c) :
    readFactor reader whole (budget + 1) (used ++ rest) = .ok (c, rest) := by
  generalize hls : used.map Token.lexeme = ls at sentence
  cases sentence with
  | top =>
    obtain ⟨t, rfl, ht⟩ := List.map_eq_singleton_iff.1 hls
    rw [List.singleton_append, readFactor, ht]
  | bottom =>
    obtain ⟨t, rfl, ht⟩ := List.map_eq_singleton_iff.1 hls
    rw [List.singleton_append, readFactor, ht]
  | name known =>
    obtain ⟨t, rfl, ht⟩ := List.map_eq_singleton_iff.1 hls
    rw [List.singleton_append, readFactor, ht]
    exact bind_eq_ok.2 ⟨_, known, rfl⟩
  | oneOf inner =>
    obtain ⟨t, front, b, rfl, ht, hfront, hb⟩ := map_eq_enclosed hls
    rw [List.append_assoc, List.cons_append, readFactor, ht]
    exact bind_eq_ok.2 ⟨_, readMembers_complete inner rest hfront hb, rfl⟩
  | compl operand =>
    obtain ⟨t, back, rfl, ht, rfl⟩ := List.map_eq_cons_iff.1 hls
    have hd := reads.complete rest operand not_mem_nil_of_head
    rw [List.cons_append, readFactor, ht]
    exact bind_eq_ok.2 ⟨_, hd, rfl⟩
  | restrict quantifier role filler =>
    rw [List.append_assoc] at hls
    obtain ⟨qs, back, rfl, rfl, hback⟩ := List.map_eq_append_iff.1 hls
    rw [List.append_assoc]
    refine readFactor_quantifier quantifier fun start => ?_
    exact (reads_readRestriction (reads_readRole budget) reads start _).complete
      rest ⟨_, _, _, _, hback, role, filler, rfl⟩ not_mem_nil_of_head
  | group inner =>
    obtain ⟨t, front, b, rfl, ht, rfl, hb⟩ := map_eq_enclosed hls
    have hd := (reads_readInter reads).complete (b :: rest) ⟨_, inner, rfl⟩
      (not_mem_of_head (by rw [hb]; decide))
    rw [List.append_assoc, List.cons_append, readFactor, ht]
    refine bind_eq_ok.2 ⟨_, hd, ?_⟩
    exact bind_eq_ok.2 ⟨rest, closeParen_eq_ok.2 ⟨b, hb, rfl⟩, rfl⟩

theorem reads_readFactor (budget : Nat) :
    Step.Reads (readFactor reader whole budget) (IsFactor reader budget)
      [] := by
  induction budget with
  | zero =>
    constructor
    · intro ts c rest h
      cases h
    · intro used c rest sentence
      cases sentence
  | succ budget ih =>
    exact ⟨readFactor_sound ih, fun _ sentence _ =>
      readFactor_complete ih sentence⟩

-- =========================================================== whole expressions

/-- Tokens are read as a concept if they are a concept sentence. -/
theorem conceptOfTokens_eq_ok {ts : List Token} {c : Concept} :
    reader.conceptOfTokens ts = .ok c ↔
      IsConcept reader reader.budget (ts.map Token.lexeme) c :=
  (reads_readInter (reads_readFactor reader.budget)).finish_eq_ok

/-- Tokens are read as a role if they are a role sentence. -/
theorem roleOfTokens_eq_ok {ts : List Token} {r : Role} :
    reader.roleOfTokens ts = .ok r ↔
      IsRole reader reader.budget (ts.map Token.lexeme) r :=
  (reads_readRole reader.budget).finish_eq_ok

end Reader

end ContextDL
