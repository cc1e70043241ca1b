/-
Statements are read by their grammar.

The reader of statements cuts the tokens by scans and reads the parts;
`Grammar.IsBody` and `Grammar.IsStatement` say how parts are put together. The
two agree on every text.

# What the reader accepts is a statement

This half needs no more than what each cut puts together again. It holds for
every text and every base.

# What is a statement is accepted

Here every cut has to find the parts that the grammar has in mind. The parts
are sentences, and sentences are nested (`Brackets`), so the mark between two
concepts is the only one outside brackets, an assertion has none, the group of
the arguments is the last, and no part holds a tag mark. For the same reason
the check of brackets does not turn a statement away. That names make IRIs is
assumed of the base.
-/
import ContextDL.Proofs.Iri.Checking
import ContextDL.Proofs.Surface.Cutting

namespace ContextDL

open Grammar

namespace Reader

variable {reader : Reader}

-- ===================================================== what the reader accepts

theorem argument_eq_ok {body part : List Token} {a : Individual} :
    reader.argument body part = .ok a ↔
      ∃ name iri, part.map Token.lexeme = [.name name] ∧
        reader.iriOf name = .ok iri ∧ a = .named iri := by
  constructor
  · intro h
    unfold argument at h
    split at h
    · next name =>
      obtain ⟨iri, made, hend⟩ := bind_eq_ok.1 h
      cases hend
      exact ⟨name, iri, rfl, made, rfl⟩
    · cases h
    · cases h
  · intro h
    obtain ⟨name, iri, hpart, made, rfl⟩ := h
    obtain ⟨⟨gap, l⟩, rfl, hl⟩ := List.map_eq_singleton_iff.1 hpart
    cases hl
    exact bind_eq_ok.2 ⟨iri, made, rfl⟩

/-- A head that is read as a role is no `⊤` and no `⊥`. -/
theorem isRoleHead_of_roleOfTokens {head : List Token} {r : Role}
    (single : IsConceptHead head) (role : reader.roleOfTokens head = .ok r) :
    IsRoleHead head := by
  rcases single with h | h | h | h
  · exact Or.inl h
  · rw [roleOfTokens_eq_ok, h] at role
    cases role
  · rw [roleOfTokens_eq_ok, h] at role
    cases role
  · exact Or.inr h

section Arguments

variable {body group : List Token} {left right : Token}

/-- One argument in parentheses is a name. -/
theorem exists_name_of_arguments (opened : left.lexeme = .openParen)
    (closed : right.lexeme = .closeParen) {a : Individual}
    (h : (Token.splitCommas group).mapM (reader.argument body) = .ok [a]) :
    ∃ name iri, (left :: group ++ [right]).map Token.lexeme =
      [.openParen, .name name, .closeParen] ∧
      reader.iriOf name = .ok iri ∧ a = .named iri := by
  have parts := Token.splits_splitCommas group
  obtain ⟨p, rest, hp, ha, hrest⟩ := mapM_eq_ok_cons.1 h
  rw [hp, mapM_eq_ok_nil.1 hrest] at parts
  obtain ⟨name, iri, hname, made, rfl⟩ := argument_eq_ok.1 ha
  refine ⟨name, iri, ?_, made, rfl⟩
  rw [parts.eq_of_singleton]
  simp [opened, hname, closed]

/-- Two arguments in parentheses are names with a comma between them. -/
theorem exists_names_of_arguments (opened : left.lexeme = .openParen)
    (closed : right.lexeme = .closeParen) {a b : Individual}
    (h : (Token.splitCommas group).mapM (reader.argument body) =
      .ok [a, b]) :
    ∃ name other first second,
      (left :: group ++ [right]).map Token.lexeme =
        [.openParen, .name name, .comma, .name other, .closeParen] ∧
      reader.iriOf name = .ok first ∧ a = .named first ∧
      reader.iriOf other = .ok second ∧ b = .named second := by
  have parts := Token.splits_splitCommas group
  obtain ⟨p, rest, hp, ha, hrest⟩ := mapM_eq_ok_cons.1 h
  obtain ⟨q, rest, hq, hb, hrest⟩ := mapM_eq_ok_cons.1 hrest
  rw [hp, hq, mapM_eq_ok_nil.1 hrest] at parts
  obtain ⟨comma, hcomma, rfl⟩ := parts.exists_of_pair
  obtain ⟨name, first, hname, made, rfl⟩ := argument_eq_ok.1 ha
  obtain ⟨other, second, hother, made', rfl⟩ := argument_eq_ok.1 hb
  refine ⟨name, other, first, second, ?_, made, rfl, made', rfl⟩
  simp [opened, hname, hcomma, hother, closed]

end Arguments

theorem isBody_of_assertion {body : List Token} {a : Axiom}
    (h : reader.assertion body = .ok a) : IsBody reader body a := by
  unfold assertion at h
  split at h
  · next head group hgroup =>
    obtain ⟨left, right, rfl, hleft, hright, -⟩ :=
      Token.splitGroup_eq_some.1 hgroup
    split at h
    · next single =>
      rw [Token.isSingle_iff] at single
      obtain ⟨arguments, harguments, h⟩ := bind_eq_ok.1 h
      rw [List.append_assoc]
      split at h
      · obtain ⟨c, concept, hend⟩ := bind_eq_ok.1 h
        cases hend
        obtain ⟨name, iri, member, made, rfl⟩ :=
          exists_name_of_arguments hleft hright harguments
        rw [(iriOf_eq_ok.1 made).2]
        exact .classAssertion single concept member
      · obtain ⟨r, role, hend⟩ := bind_eq_ok.1 h
        cases hend
        obtain ⟨name, other, first, second, pair, made, rfl, made', rfl⟩ :=
          exists_names_of_arguments hleft hright harguments
        rw [(iriOf_eq_ok.1 made).2, (iriOf_eq_ok.1 made').2]
        exact .roleAssertion (isRoleHead_of_roleOfTokens single role) role pair
      · cases h
    · cases h
  · cases h

theorem isBody_of_axiomOfTokens {text : List Char} {body : List Token}
    {a : Axiom} (h : reader.axiomOfTokens text body = .ok a) :
    IsBody reader body a := by
  unfold axiomOfTokens at h
  split at h
  · cases h
  · split at h
    · exact isBody_of_assertion h
    · next sub sup hparts =>
      have parts := Token.splits_splitInclusion 0 body
      rw [hparts] at parts
      obtain ⟨mark, hmark, rfl⟩ := parts.exists_of_pair
      obtain ⟨c, hc, h⟩ := bind_eq_ok.1 h
      obtain ⟨d, hd, hend⟩ := bind_eq_ok.1 h
      cases hend
      exact .subClassOf hmark hc hd
    · cases h

/-- What is read as a statement is one. -/
theorem isStatement_of_statementOfChars {cs : List Char} {s : Statement}
    (h : reader.statementOfChars cs = .ok s) :
    ∃ ts, Token.ofText cs = .ok ts ∧ IsStatement reader ts s := by
  unfold statementOfChars at h
  obtain ⟨ts, hts, hcut⟩ := bind_eq_ok.1 h
  obtain ⟨⟨body, tag⟩, htag, hbody⟩ := bind_eq_ok.1 hcut
  obtain ⟨a, ha, hnotes⟩ := bind_eq_ok.1 hbody
  obtain ⟨tail, rfl, -, htail⟩ := Token.cutTag_eq_ok.1 htag
  have axiomTokens := isBody_of_axiomOfTokens ha
  refine ⟨body ++ tail, (tokens_eq_ok.1 hts).1, ?_⟩
  cases tag with
  | none =>
    cases hnotes
    cases List.map_eq_nil_iff.1 htail
    rw [List.append_nil]
    exact .untagged axiomTokens
  | some name =>
    obtain ⟨note, hnote, hend⟩ := bind_eq_ok.1 hnotes
    cases hend
    unfold noteOfTag at hnote
    split at hnote
    · next word =>
      cases hnote
      exact .global axiomTokens (by rw [htail, word]; rfl)
    · next other =>
      obtain ⟨iri, made, hend⟩ := bind_eq_ok.1 hnote
      cases hend
      rw [(iriOf_eq_ok.1 made).2]
      exact .definedBy axiomTokens htail other

end Reader

-- ============================================================ what is accepted

namespace Grammar

open Lexeme

variable {reader : Reader}

theorem isNested_of_conceptOfTokens {ts : List Token} {c : Concept}
    (h : reader.conceptOfTokens ts = .ok c) :
    IsNested (ts.map Token.lexeme) :=
  (Reader.conceptOfTokens_eq_ok.1 h).isNested

theorem isNested_of_roleOfTokens {ts : List Token} {r : Role}
    (h : reader.roleOfTokens ts = .ok r) : IsNested (ts.map Token.lexeme) :=
  (Reader.roleOfTokens_eq_ok.1 h).isNested

theorem isNested_argument (a : List Char) :
    IsNested [.openParen, .name a, .closeParen] :=
  .parens (.plain (isPlain_name a) .nil) .nil

theorem isNested_pair (a b : List Char) :
    IsNested [.openParen, .name a, .comma, .name b, .closeParen] :=
  .parens (.plain (isPlain_name a)
    (.plain (by decide) (.plain (isPlain_name b) .nil))) .nil

/-- The tokens of an axiom change no balance and hold no tag mark. -/
theorem IsBody.passes {body : List Token} {a : Axiom}
    (h : IsBody reader body a) :
    KeepsBalance (body.map Token.lexeme) ∧
      .tag ∉ body.map Token.lexeme := by
  cases h with
  | subClassOf between left right =>
    have hsub := isNested_of_conceptOfTokens left
    have hsup := isNested_of_conceptOfTokens right
    rw [List.map_append, List.map_cons, between]
    constructor
    · exact hsub.keepsBalance.append
        ((keepsBalance_of_ne (by decide) (by decide) (by decide)
          (by decide)).append hsup.keepsBalance)
    · simp [hsub.tag_not_mem, hsup.tag_not_mem]
  | @classAssertion _ _ a _ _ concept member =>
    have nested := (isNested_of_conceptOfTokens concept).append
      (isNested_argument a)
    rw [List.map_append, member]
    exact ⟨nested.keepsBalance, nested.tag_not_mem⟩
  | @roleAssertion _ _ a b _ _ role pair =>
    have nested := (isNested_of_roleOfTokens role).append (isNested_pair a b)
    rw [List.map_append, pair]
    exact ⟨nested.keepsBalance, nested.tag_not_mem⟩

end Grammar

namespace Reader

variable {reader : Reader}

/-- Where all tokens are nested, no inclusion mark is found. -/
theorem splitInclusion_of_isNested {ts : List Token}
    (nested : Lexeme.IsNested (ts.map Token.lexeme)) :
    Token.splitInclusion 0 ts = [ts] := by
  have whole := Token.splitInclusion_append nested rfl 0 []
  rw [List.append_nil] at whole
  rw [whole]
  simp [Token.splitInclusion]

/-- The mark between two nested parts is found. -/
theorem splitInclusion_of_mark {sub sup : List Token} {mark : Token}
    (hsub : Lexeme.IsNested (sub.map Token.lexeme))
    (hmark : mark.lexeme = .inclusion)
    (hsup : Lexeme.IsNested (sup.map Token.lexeme)) :
    Token.splitInclusion 0 (sub ++ mark :: sup) = [sub, sup] := by
  rw [Token.splitInclusion_append hsub rfl, Token.splitInclusion, hmark,
    show Token.openAfter 0 .inclusion = 0 from rfl,
    splitInclusion_of_isNested hsup]
  simp

/-- With one argument a head is read as a concept. -/
theorem assertion_argument {head arguments : List Token} {a : List Char}
    {iri : Iri} (single : IsConceptHead head)
    (member : arguments.map Token.lexeme =
      [.openParen, .name a, .closeParen])
    (made : reader.iriOf a = .ok iri) :
    reader.assertion (head ++ arguments) = do
      return .classAssertion (← reader.conceptOfTokens head) (.named iri) := by
  have enclosed : arguments.map Token.lexeme =
      .openParen :: [.name a] ++ [.closeParen] := member
  obtain ⟨left, group, right, rfl, hleft, hgroup, hright⟩ :=
    map_eq_enclosed enclosed
  obtain ⟨t, rfl, ht⟩ := List.map_eq_singleton_iff.1 hgroup
  have cut : Token.splitGroup (head ++ (left :: [t] ++ [right])) =
      some (head, [t]) := by
    refine Token.splitGroup_eq_some.2
      ⟨left, right, (List.append_assoc ..).symm, hleft, hright, ?_⟩
    rw [hgroup]
    rfl
  have parts : Token.splitCommas [t] = [[t]] := by
    simp [Token.splitCommas, ht]
  have named (body : List Token) :
      (Token.splitCommas [t]).mapM (reader.argument body) =
        .ok [.named iri] :=
    mapM_eq_ok_cons.2 ⟨[t], [], parts,
      argument_eq_ok.2 ⟨a, iri, hgroup, made, rfl⟩, mapM_eq_ok_nil.2 rfl⟩
  unfold assertion
  rw [cut]
  dsimp only
  rw [if_pos (Token.isSingle_iff.2 single), named]
  rfl

/-- With two arguments a head is read as a role. -/
theorem assertion_pair {head arguments : List Token} {a b : List Char}
    {first second : Iri} (single : IsConceptHead head)
    (pair : arguments.map Token.lexeme =
      [.openParen, .name a, .comma, .name b, .closeParen])
    (madeFirst : reader.iriOf a = .ok first)
    (madeSecond : reader.iriOf b = .ok second) :
    reader.assertion (head ++ arguments) = do
      return .roleAssertion (← reader.roleOfTokens head) (.named first)
        (.named second) := by
  have enclosed : arguments.map Token.lexeme =
      .openParen :: [.name a, .comma, .name b] ++ [.closeParen] := pair
  obtain ⟨left, group, right, rfl, hleft, hgroup, hright⟩ :=
    map_eq_enclosed enclosed
  have cut : Token.splitGroup (head ++ (left :: group ++ [right])) =
      some (head, group) := by
    refine Token.splitGroup_eq_some.2
      ⟨left, right, (List.append_assoc ..).symm, hleft, hright, ?_⟩
    rw [hgroup]
    rfl
  obtain ⟨t, back, rfl, ht, hback⟩ := List.map_eq_cons_iff.1 hgroup
  obtain ⟨comma, back, rfl, hcomma, hback⟩ := List.map_eq_cons_iff.1 hback
  obtain ⟨u, rfl, hu⟩ := List.map_eq_singleton_iff.1 hback
  have parts : Token.splitCommas [t, comma, u] = [[t], [u]] := by
    simp [Token.splitCommas, ht, hcomma, hu]
  have named (body : List Token) :
      (Token.splitCommas [t, comma, u]).mapM (reader.argument body) =
        .ok [.named first, .named second] := by
    refine mapM_eq_ok_cons.2 ⟨[t], [[u]], parts,
      argument_eq_ok.2 ⟨a, first, by simp [ht], madeFirst, rfl⟩, ?_⟩
    exact mapM_eq_ok_cons.2 ⟨[u], [], rfl,
      argument_eq_ok.2 ⟨b, second, hback, madeSecond, rfl⟩,
      mapM_eq_ok_nil.2 rfl⟩
  unfold assertion
  rw [cut]
  dsimp only
  rw [if_pos (Token.isSingle_iff.2 single), named]
  rfl

/-- A head and one argument are read. -/
theorem assertion_of_argument {head arguments : List Token} {a : List Char}
    {c : Concept} {iri : Iri} (single : IsConceptHead head)
    (concept : reader.conceptOfTokens head = .ok c)
    (member : arguments.map Token.lexeme =
      [.openParen, .name a, .closeParen])
    (made : reader.iriOf a = .ok iri) :
    reader.assertion (head ++ arguments) =
      .ok (.classAssertion c (.named iri)) := by
  rw [assertion_argument single member made]
  exact bind_eq_ok.2 ⟨c, concept, rfl⟩

/-- A head and two arguments are read. -/
theorem assertion_of_pair {head arguments : List Token} {a b : List Char}
    {r : Role} {first second : Iri} (single : IsRoleHead head)
    (role : reader.roleOfTokens head = .ok r)
    (pair : arguments.map Token.lexeme =
      [.openParen, .name a, .comma, .name b, .closeParen])
    (madeFirst : reader.iriOf a = .ok first)
    (madeSecond : reader.iriOf b = .ok second) :
    reader.assertion (head ++ arguments) =
      .ok (.roleAssertion r (.named first) (.named second)) := by
  have conceptHead : IsConceptHead head :=
    single.imp_right fun h => Or.inr (Or.inr h)
  rw [assertion_pair conceptHead pair madeFirst madeSecond]
  exact bind_eq_ok.2 ⟨r, role, rfl⟩

/-- Where nested tokens are an assertion, they are read as one. -/
theorem axiomOfTokens_of_assertion {text : List Char} {body : List Token}
    {a : Axiom} (nested : Lexeme.IsNested (body.map Token.lexeme))
    (nonempty : body ≠ []) (h : reader.assertion body = .ok a) :
    reader.axiomOfTokens text body = .ok a := by
  unfold axiomOfTokens
  rw [if_neg (by simpa using nonempty), splitInclusion_of_isNested nested]
  exact h

/-- The tokens of an axiom are read, if its names are proper. -/
theorem axiomOfTokens_of_isBody (valid : reader.NamesValid) {text : List Char}
    {body : List Token} {a : Axiom}
    (proper : ∀ l ∈ body.map Token.lexeme, l.IsProper)
    (h : IsBody reader body a) : reader.axiomOfTokens text body = .ok a := by
  have made : ∀ {name : List Char}, .name name ∈ body.map Token.lexeme →
      reader.iriOf name = .ok (reader.named name) := by
    intro name hname
    exact valid.iriOf (proper _ hname)
  cases h with
  | subClassOf between left right =>
    unfold axiomOfTokens
    rw [if_neg (by simp), splitInclusion_of_mark
      (isNested_of_conceptOfTokens left) between
      (isNested_of_conceptOfTokens right)]
    exact bind_eq_ok.2 ⟨_, left, bind_eq_ok.2 ⟨_, right, rfl⟩⟩
  | @classAssertion _ arguments a _ single concept member =>
    refine axiomOfTokens_of_assertion ?_ ?_
      (assertion_of_argument single concept member (made ?_))
    · rw [List.map_append, member]
      exact (isNested_of_conceptOfTokens concept).append (isNested_argument a)
    · intro h
      rw [(List.append_eq_nil_iff.1 h).2] at member
      cases member
    · rw [List.map_append, member]
      simp
  | @roleAssertion _ arguments a b _ single role pair =>
    refine axiomOfTokens_of_assertion ?_ ?_
      (assertion_of_pair single role pair (made ?_) (made ?_))
    · rw [List.map_append, pair]
      exact (isNested_of_roleOfTokens role).append (isNested_pair a b)
    · intro h
      rw [(List.append_eq_nil_iff.1 h).2] at pair
      cases pair
    · rw [List.map_append, pair]
      simp
    · rw [List.map_append, pair]
      simp

/-- The notes that a tag stands for, if there is one. -/
def notesOfTag (reader : Reader) : Option (List Char) →
    Except ReadError (List Note)
  | none => .ok []
  | some name => do return [← reader.noteOfTag name]

/-- A text whose tokens are a body and a tag is read, if its notes are. -/
theorem statementOfChars_of_parts (valid : reader.NamesValid) {cs : List Char}
    {body tail : List Token} {a : Axiom} (tag : Option (List Char))
    {notes : List Note} (hts : Token.ofText cs = .ok (body ++ tail))
    (hbody : IsBody reader body a)
    (htail : tail.map Token.lexeme = Token.tagLexemes tag)
    (hnotes : reader.notesOfTag tag = .ok notes) :
    reader.statementOfChars cs = .ok ⟨a, notes⟩ := by
  obtain ⟨bodyKeeps, noTag⟩ := hbody.passes
  have tagKeeps : Lexeme.KeepsBalance (Token.tagLexemes tag) := by
    cases tag with
    | none => exact Lexeme.IsNested.nil.keepsBalance
    | some name =>
      exact (Lexeme.keepsBalance_of_ne (by decide) (by decide) (by decide)
        (by decide)).append
          (Lexeme.keepsBalance_of_isPlain (Lexeme.isPlain_name name))
  have balanced : tokens cs = .ok (body ++ tail) := by
    refine tokens_eq_ok.2 ⟨hts, ?_⟩
    rw [List.map_append, htail]
    exact (bodyKeeps.append tagKeeps).isBalanced
  have proper : ∀ l ∈ body.map Token.lexeme, l.IsProper := by
    intro l hl
    refine Token.isProper_of_ofText hts ?_
    rw [List.map_append]
    exact List.mem_append_left _ hl
  have cut : Token.cutTag (body ++ tail) = .ok (body, tag) :=
    Token.cutTag_eq_ok.2 ⟨tail, rfl, noTag, htail⟩
  unfold statementOfChars
  refine bind_eq_ok.2 ⟨_, balanced, bind_eq_ok.2 ⟨_, cut, bind_eq_ok.2
    ⟨_, axiomOfTokens_of_isBody valid proper hbody, ?_⟩⟩⟩
  cases tag with
  | none =>
    cases hnotes
    rfl
  | some name =>
    obtain ⟨note, hnote, hend⟩ := bind_eq_ok.1 hnotes
    cases hend
    exact bind_eq_ok.2 ⟨note, hnote, rfl⟩

/-- What is a statement is read as one. -/
theorem statementOfChars_of_isStatement (valid : reader.NamesValid)
    {cs : List Char} {ts : List Token} {s : Statement}
    (hts : Token.ofText cs = .ok ts) (h : IsStatement reader ts s) :
    reader.statementOfChars cs = .ok s := by
  cases h with
  | untagged axiomTokens =>
    rw [← List.append_nil ts] at hts
    exact statementOfChars_of_parts valid none hts axiomTokens rfl rfl
  | global axiomTokens word =>
    exact statementOfChars_of_parts valid (some globalWord) hts axiomTokens
      word rfl
  | @definedBy body tag _ name axiomTokens word other =>
    have proper : (Lexeme.name name).IsProper := by
      refine Token.isProper_of_ofText hts ?_
      rw [List.map_append, word]
      simp
    have note : reader.noteOfTag name =
        .ok (.definedBy (reader.named name)) := by
      unfold noteOfTag
      rw [if_neg other]
      exact bind_eq_ok.2 ⟨_, valid.iriOf proper, rfl⟩
    exact statementOfChars_of_parts valid (some name) hts axiomTokens word
      (bind_eq_ok.2 ⟨_, note, rfl⟩)

/-- A text is read as a statement if it can be cut into tokens, and they are
the tokens of that statement. -/
theorem statement_eq_ok_iff (valid : reader.NamesValid) (text : String)
    (s : Statement) :
    reader.statement text = .ok s ↔
      ∃ ts, Token.ofText text.toList = .ok ts ∧ IsStatement reader ts s := by
  constructor
  · exact isStatement_of_statementOfChars
  · intro h
    obtain ⟨ts, hts, tokens⟩ := h
    exact statementOfChars_of_isStatement valid hts tokens

/-- A tagged inclusion between two names. -/
theorem statement_globalInclusion :
    standard.statement "A ⊑ B @ global" =
      .ok ⟨.subClassOf (.atom (standard.named ['A']))
        (.atom (standard.named ['B'])), [.objectGlobal]⟩ := by
  let sub : List Token := [⟨[], .name ['A']⟩]
  let sup : List Token := [⟨[' '], .name ['B']⟩]
  let tag : List Token := [⟨[' '], .tag⟩, ⟨[' '], .name globalWord⟩]
  have axiomTokens : IsBody standard (sub ++ ⟨[' '], .inclusion⟩ :: sup)
      (.subClassOf (.atom (standard.named ['A']))
        (.atom (standard.named ['B']))) :=
    .subClassOf rfl (by decide +kernel) (by decide +kernel)
  have word : tag.map Token.lexeme = [.tag, .name globalWord] := rfl
  exact (statement_eq_ok_iff namesValid_standard _ _).2
    ⟨_, by decide +kernel, .global axiomTokens word⟩

end Reader

end ContextDL
