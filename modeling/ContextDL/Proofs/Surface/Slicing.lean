/-
No slice is missing, and every error quotes the text.

The reader by positions looks for the places where a statement is cut: the tag
mark, the inclusion marks, the parenthesis that opens the last group. Each place
is the number of tokens in front of the cut that the other reader makes
(`Token.places`, `Positional.openingOf_eq`), so the slices between the places
are the parts of that cut, and they stand in the text as the statement does.

In a document every line, without the blanks at its ends, is a part of the
text, so what is a part of a line is a part of the text.
-/
import ContextDL.Proofs.Surface.Positions

namespace ContextDL

open Text (size)

variable {α β γ : Type} {text front : List Char} {ps : List Placed}
  {ts us : List Token} {reader : Reader}

-- ======================================================================= kinds

theorem Token.openAfter_kind (depth : Nat) (l : Lexeme) :
    openAfter depth l.kind = openAfter depth l := by
  cases l <;> rfl

namespace Stands

theorem eq_nil (h : Stands text front ps []) : ps = [] :=
  h.2

theorem map_kind (h : Stands text front ps ts) :
    ps.map Placed.kind = ts.map fun t => t.lexeme.kind := by
  induction ts generalizing front ps with
  | nil =>
    rw [h.2]
    rfl
  | cons t ts ih =>
    obtain ⟨qs, rfl, others⟩ := h.cons
    rw [List.map_cons, List.map_cons, ih others]

/-- A token in front of tokens that stand in a text stands there with them. -/
theorem of_cons {t : Token} {qs : List Placed}
    (h : Stands text (front ++ t.gap ++ t.chars) qs ts) :
    Stands text front
      (⟨t.lexeme.kind, size (front ++ t.gap),
        size (front ++ t.gap ++ t.chars)⟩ :: qs) (t :: ts) := by
  obtain ⟨⟨back, around⟩, rfl⟩ := h
  refine ⟨⟨back, ?_⟩, ?_⟩
  · rw [around]
    simp [Token.render]
  · simp [Placed.locate, Nat.add_assoc]

theorem of_nil (h : Stands text front ps ts) : Stands text front [] [] := by
  obtain ⟨⟨back, around⟩, -⟩ := h
  exact ⟨⟨Token.render ts ++ back, by simpa [Token.render] using around⟩, rfl⟩

end Stands

-- ======================================================================== tags

namespace Token

/-- Tokens without a tag mark stay in the body. -/
theorem cutTag_append {body : List Token}
    (untagged : ∀ t ∈ body, t.lexeme ≠ .tag) (ts : List Token) :
    cutTag (body ++ ts) = do
      let (rest, tag) ← cutTag ts
      return (body ++ rest, tag) := by
  induction body with
  | nil =>
    show cutTag ts = _
    cases cutTag ts <;> rfl
  | cons t body ih =>
    obtain ⟨first, others⟩ := List.forall_mem_cons.1 untagged
    rw [List.cons_append, cutTag.eq_def]
    dsimp only
    rw [if_neg first, ih others]
    cases cutTag ts <;> rfl

end Token

namespace Positional

/-- A placed tag has the text of the tag. -/
def SameTag (text : List Char) : Option Placed → Option (List Char) → Prop :=
  Option.Rel fun p tag => Takes text (word text p) tag

/-- The tag mark is looked for by its kind. -/
theorem findIdx?_tag (stands : Stands text front ps ts) :
    ps.findIdx? (·.kind = .tag) = ts.findIdx? (·.lexeme = .tag) := by
  have marks : (fun t : Token => decide (t.lexeme.kind = .tag)) =
      fun t => decide (t.lexeme = .tag) := by
    funext t
    exact decide_eq_decide.2 (Lexeme.kind_eq_iff (by simp))
  calc ps.findIdx? (·.kind = .tag)
    _ = (ps.map Placed.kind).findIdx? (· = .tag) := by
        rw [List.findIdx?_map]
        rfl
    _ = ts.findIdx? (·.lexeme.kind = .tag) := by
        rw [stands.map_kind, List.findIdx?_map]
        rfl
    _ = ts.findIdx? (·.lexeme = .tag) := by rw [marks]

/-- The index of the first tag mark is the number of tokens in front of it. -/
theorem findIdx?_first_tag {body rest : List Token} {t : Token}
    (plain : ∀ s ∈ body, s.lexeme ≠ .tag) (marked : t.lexeme = .tag) :
    (body ++ t :: rest).findIdx? (·.lexeme = .tag) = some body.length := by
  have before : body.findIdx? (·.lexeme = .tag) = none :=
    List.findIdx?_eq_none_iff.2 fun s hs => decide_eq_false (plain s hs)
  rw [List.findIdx?_append, before, List.findIdx?_cons]
  simp [marked]

/-- At the tag mark a name is found, or all that is left is quoted. -/
theorem quotes_tagOf {t : Token} (stands : Stands text front ps (t :: ts))
    (marked : t.lexeme = .tag) :
    Quotes text (fun p cut => cut.1 = [] ∧ SameTag text (some p) cut.2)
      (tagOf text ps) (Token.cutTag (t :: ts)) := by
  have fails := stands.takes_span
  obtain ⟨p, behind, rfl, -, -, others⟩ := stands.uncons
  rw [Token.cutTag.eq_def]
  dsimp only
  rw [if_pos marked]
  cases ts with
  | nil =>
    obtain rfl := others.eq_nil
    exact fails.quotes .unexpected
  | cons s ts =>
    obtain ⟨q, others, rfl, kind, named, last⟩ := others.uncons
    obtain ⟨gap, l⟩ := s
    cases ts with
    | nil =>
      obtain rfl := last.eq_nil
      rw [tagOf, kind]
      cases l with
      | name word => exact .ok ⟨rfl, .some named⟩
      | _ => exact fails.quotes .unexpected
    | cons u ts =>
      obtain ⟨r, _, rfl, -, -, -⟩ := last.uncons
      cases l <;> exact fails.quotes .unexpected

/-- The same body, and the same tag. -/
def SameCut (text front : List Char) (a : List Placed × Option Placed)
    (b : List Token × Option (List Char)) : Prop :=
  Stands text front a.1 b.1 ∧ SameTag text a.2 b.2

theorem quotes_cutTag (stands : Stands text front ps ts) :
    Quotes text (SameCut text front) (cutTag text ps) (Token.cutTag ts) := by
  rw [cutTag, findIdx?_tag stands]
  by_cases tagged : .tag ∈ ts.map Token.lexeme
  · obtain ⟨_, _, split, untagged⟩ := List.eq_append_cons_of_mem tagged
    obtain ⟨body, _, rfl, rfl, others⟩ := List.map_eq_append_iff.1 split
    obtain ⟨t, rest, rfl, marked, -⟩ := List.map_eq_cons_iff.1 others
    have plain : ∀ s ∈ body, s.lexeme ≠ .tag := by simpa using untagged
    obtain ⟨qs, body_taken, bodied⟩ := stands.part_front rfl
    obtain ⟨tail, tail_taken, tailed⟩ := stands.part_back rfl
    rw [findIdx?_first_tag plain marked, Token.cutTag_append plain]
    dsimp only
    rw [tail_taken, pure_bind, body_taken]
    refine (quotes_tagOf tailed marked).bind fun p cut found _ => ?_
    obtain ⟨rest, tag⟩ := cut
    obtain ⟨rfl, same⟩ := found
    exact .ok ⟨by simpa using bodied, same⟩
  · have plain : ts.findIdx? (·.lexeme = .tag) = none :=
      List.findIdx?_eq_none_iff.2 fun t ht => decide_eq_false fun h =>
        tagged (List.mem_map.2 ⟨t, ht, h⟩)
    have whole : Token.cutTag ts = .ok (ts, none) :=
      Token.cutTag_eq_ok.2 ⟨[], (List.append_nil ts).symm, tagged, rfl⟩
    rw [plain, whole]
    exact .ok ⟨stands, .none⟩

end Positional

-- ================================================================== inclusions

namespace Token

/-- The places of the cuts between some parts: how many tokens are in front of
each, given how many are in front of the first part. -/
def places : Nat → List (List Token) → List Nat
  | pos, part :: next :: parts =>
    (pos + part.length) :: places (pos + part.length + 1) (next :: parts)
  | _, _ => []

/-- One more token in the first part moves no cut, if it is counted there. -/
theorem places_cons (t : Token) (pos : Nat) (part : List Token)
    (parts : List (List Token)) :
    places pos ((t :: part) :: parts) = places (pos + 1) (part :: parts) := by
  cases parts with
  | nil => rfl
  | cons next parts =>
    have same : pos + (part.length + 1) = pos + 1 + part.length := by omega
    rw [places, places, List.length_cons, same]

end Token

namespace Positional

/-- The inclusion marks are found where the other reader cuts. -/
theorem inclusions_eq (stands : Stands text front ps ts) (depth pos : Nat) :
    inclusions depth pos ps =
      Token.places pos (Token.splitInclusion depth ts) := by
  induction ts generalizing front ps depth pos with
  | nil =>
    obtain rfl := stands.eq_nil
    rfl
  | cons t ts ih =>
    obtain ⟨p, qs, rfl, kind, -, others⟩ := stands.uncons
    have marked : p.kind = .inclusion ↔ t.lexeme = .inclusion := by
      rw [kind, Lexeme.kind_eq_iff (by simp)]
    rw [inclusions, kind, Token.openAfter_kind, ih others, ← kind]
    rw [Token.splitInclusion]
    simp only [marked]
    cases split : Token.splitInclusion (Token.openAfter depth t.lexeme) ts with
    | nil =>
      exact absurd split (Token.splits_splitInclusion _ _).ne_nil
    | cons part parts =>
      dsimp only
      split
      · rfl
      · rw [Token.places_cons]

-- ====================================================================== groups

/-- A token in front of others can be looked up. -/
theorem exists_member {before behind : List Token} {t : Token}
    (stands : Stands text front ps (before ++ t :: behind)) :
    ∃ p, Checked.member ps before.length = pure p ∧
      p.kind = t.lexeme.kind := by
  have left : Left (before ++ t :: behind) before.length (t :: behind) :=
    ⟨before, rfl, rfl⟩
  obtain ⟨p, found, kind, -⟩ := left.getElem? stands
  refine ⟨p, ?_, kind⟩
  rw [Checked.member, found]
  rfl

/-- The parenthesis that opens a group is found behind what stands before the
group. The other scan keeps what it has passed, and counts one less. -/
theorem openingOf_eq {before behind : List Token}
    (stands : Stands text front ps (before.reverse ++ behind)) (depth : Nat)
    (group : List Token) :
    openingOf ps before.length (depth + 1) =
      pure ((Token.openGroup depth group before).map (·.1.length)) := by
  induction before generalizing depth group behind with
  | nil => rfl
  | cons t before ih =>
    rw [List.reverse_cons, List.append_assoc, List.singleton_append] at stands
    obtain ⟨p, member, kind⟩ := exists_member stands
    rw [List.length_reverse] at member
    rw [List.length_cons, openingOf.eq_def, Token.openGroup.eq_def]
    dsimp only
    rw [member, pure_bind, kind]
    cases hl : t.lexeme with
    | closeParen => exact ih stands _ _
    | openParen =>
      cases depth with
      | zero =>
        show _ = pure (some before.reverse.length)
        rw [List.length_reverse]
        rfl
      | succ depth => exact ih stands _ _
    | _ => exact ih stands _ _

/-- From a closing parenthesis on, the last group is looked for. -/
theorem openingOf_closing {before behind : List Token} {t : Token}
    (stands : Stands text front ps (before ++ t :: behind))
    (closing : t.lexeme = .closeParen) :
    openingOf ps (before.length + 1) 0 =
      pure ((Token.splitGroup (before ++ [t])).map (·.1.length)) := by
  obtain ⟨p, member, kind⟩ := exists_member stands
  have reversed : Stands text front ps
      (before.reverse.reverse ++ t :: behind) := by
    rwa [List.reverse_reverse]
  have looked := openingOf_eq reversed 0 []
  rw [List.length_reverse] at looked
  have group : Token.splitGroup (before ++ [t]) =
      Token.openGroup 0 [] before.reverse := by
    simp [Token.splitGroup, closing]
  rw [openingOf, member, pure_bind, kind, closing, group]
  exact looked

theorem lastOpening_eq (stands : Stands text front ps ts) :
    lastOpening ps = pure ((Token.splitGroup ts).map (·.1.length)) := by
  rcases List.eq_nil_or_concat ts with rfl | ⟨before, t, rfl⟩
  · obtain rfl := stands.eq_nil
    rfl
  rw [List.concat_eq_append] at *
  have length := stands.length_eq
  obtain ⟨qs, rs, rfl, -, last⟩ := stands.split
  obtain ⟨p, _, rfl, kind, -, ended⟩ := last.uncons
  obtain rfl := ended.eq_nil
  rw [lastOpening, List.getLast?_concat, length, List.length_append]
  dsimp only
  rw [kind]
  split
  · next closing =>
    exact openingOf_closing stands
      ((Lexeme.kind_eq_iff (by simp)).1 closing)
  · next other =>
    have none : Token.splitGroup (before ++ [t]) = none := by
      have open_ : t.lexeme ≠ .closeParen := fun closing =>
        other (by rw [closing]; rfl)
      simp [Token.splitGroup, open_]
    rw [none]
    rfl

end Positional

-- ======================================================================= heads

namespace Token

/-- Two tokens or more are single if nothing stands before their last group. -/
theorem isSingle_of_ends (t u : Token) (mid : List Token) :
    isSingle (t :: mid ++ [u]) =
      decide ((splitGroup (t :: mid ++ [u])).map (·.1.length) = some 0) := by
  rw [isSingle]
  · rcases splitGroup (t :: mid ++ [u]) with _ | ⟨_ | ⟨s, head⟩, group⟩ <;> rfl
  all_goals simp

/-- A group that nothing stands before is enclosed in parentheses. -/
theorem enclosed_of_splitGroup {t u : Token} {mid : List Token}
    (h : (splitGroup (t :: mid ++ [u])).map (·.1.length) = some 0) :
    t.lexeme = .openParen ∧ u.lexeme = .closeParen := by
  obtain ⟨⟨head, group⟩, found, none⟩ := Option.map_eq_some_iff.1 h
  obtain rfl := List.length_eq_zero_iff.1 none
  obtain ⟨a, b, read, ha, hb, -⟩ := splitGroup_eq_some.1 found
  obtain ⟨first, last⟩ := List.append_inj' read rfl
  cases first
  cases last
  exact ⟨ha, hb⟩

end Token

namespace Positional

theorem isSingle_eq {head behind : List Token}
    (stands : Stands text front ps (head ++ behind)) :
    isSingle ps head.length = pure (Token.isSingle head) := by
  obtain ⟨qs, taken, headed⟩ := stands.part_front rfl
  rw [isSingle, taken, pure_bind]
  rcases List.eq_nil_or_concat head with rfl | ⟨before, u, rfl⟩
  · obtain rfl := headed.eq_nil
    rfl
  rw [List.concat_eq_append] at *
  cases before with
  | nil =>
    obtain ⟨p, _, rfl, kind, -, none⟩ := headed.uncons
    obtain rfl := none.eq_nil
    dsimp only
    rw [kind]
    obtain ⟨gap, l⟩ := u
    cases l <;> rfl
  | cons t before =>
    obtain ⟨p, qs, rfl, hp, -, others⟩ := headed.uncons
    obtain ⟨rs, _, rfl, -, last⟩ := others.split
    obtain ⟨q, _, rfl, hq, -, ended⟩ := last.uncons
    obtain rfl := ended.eq_nil
    have shape : ∃ second others, rs ++ [q] = second :: others ∧
        ∀ h, (second :: others).getLast h = q := by
      cases rs with
      | nil => exact ⟨q, [], rfl, fun _ => rfl⟩
      | cons r rs => exact ⟨r, rs ++ [q], rfl, fun _ => by simp⟩
    obtain ⟨second, others, shaped, last⟩ := shape
    rw [shaped]
    dsimp only
    rw [last, hp, hq, Token.isSingle_of_ends]
    by_cases enclosed : t.lexeme = .openParen ∧ u.lexeme = .closeParen
    · have parted : Stands text front ps ((t :: before) ++ u :: behind) := by
        simpa using stands
      have looked := openingOf_closing parted enclosed.2
      have length : (t :: before ++ [u]).length = (t :: before).length + 1 :=
        List.length_append
      rw [length, looked, enclosed.1, enclosed.2]
      rfl
    · have bare : (Token.splitGroup (t :: before ++ [u])).map (·.1.length) ≠
          some 0 := fun h => enclosed (Token.enclosed_of_splitGroup h)
      rw [decide_eq_false bare, if_neg]
      simpa [Lexeme.kind_eq_iff] using enclosed

-- =================================================================== arguments

/-- Tokens that stand in a text somewhere. -/
def Occurs (text : List Char) (ps : List Placed) (ts : List Token) : Prop :=
  ∃ front, Stands text front ps ts

/-- The parts between commas stand in the text, the first of them where all of
the tokens stand. -/
theorem splitCommas_stand (stands : Stands text front ps ts) :
    ∃ qs us parts parts', splitCommas ps = qs :: parts ∧
      Token.splitCommas ts = us :: parts' ∧ Stands text front qs us ∧
        List.Forall₂ (Occurs text) parts parts' := by
  induction ts generalizing front ps with
  | nil =>
    obtain rfl := stands.eq_nil
    exact ⟨[], [], [], [], rfl, rfl, stands, .nil⟩
  | cons t ts ih =>
    obtain ⟨qs, rfl, behind⟩ := stands.cons
    obtain ⟨rs, us, parts, parts', cut, cut', first, others⟩ := ih behind
    rw [splitCommas, Token.splitCommas, cut, cut']
    dsimp only
    by_cases comma : t.lexeme = .comma
    · rw [if_pos comma, if_pos ((Lexeme.kind_eq_iff (by simp)).2 comma)]
      exact ⟨[], [], _, _, rfl, rfl, stands.of_nil, .cons ⟨_, first⟩ others⟩
    · rw [if_neg comma, if_neg (mt (Lexeme.kind_eq_iff (by simp)).1 comma)]
      exact ⟨_, _, parts, parts', rfl, rfl, first.of_cons, others⟩

theorem occurs_splitCommas (stands : Stands text front ps ts) :
    List.Forall₂ (Occurs text) (splitCommas ps) (Token.splitCommas ts) := by
  obtain ⟨qs, us, parts, parts', cut, cut', first, others⟩ :=
    splitCommas_stand stands
  rw [cut, cut']
  exact .cons ⟨front, first⟩ others

theorem quotes_argument (body : Stands text front ps ts) {qs : List Placed}
    (group : Occurs text qs us) :
    Quotes text Eq (argument reader text ps qs) (reader.argument ts us) := by
  obtain ⟨front', stands⟩ := group
  have fails := stands.takes_span
  cases us with
  | nil =>
    obtain rfl := stands.eq_nil
    exact body.takes_span.quotes .wrongArity
  | cons t us =>
    obtain ⟨p, qs, rfl, kind, named, others⟩ := stands.uncons
    cases us with
    | nil =>
      obtain rfl := others.eq_nil
      obtain ⟨gap, l⟩ := t
      rw [argument, kind]
      cases l with
      | name word =>
        exact (quotes_resolve named).bind fun _ _ same _ =>
          .ok (congrArg _ same)
      | _ => exact fails.quotes .badName
    | cons u us =>
      obtain ⟨q, _, rfl, -, -, -⟩ := others.uncons
      obtain ⟨gap, l⟩ := t
      cases l <;> exact fails.quotes .badName

-- ================================================================== assertions

/-- What stands before the last group, and what stands in it, can be cut out,
and the head is checked as the other reader checks it. -/
theorem parts_of_splitGroup (stands : Stands text front ps ts)
    {head group : List Token}
    (found : Token.splitGroup ts = some (head, group)) :
    (if 0 < head.length then isSingle ps head.length else return false) =
        pure (Token.isSingle head) ∧
      (∃ qs, Checked.part ps 0 head.length = pure qs ∧
        Stands text front qs head) ∧
      ∃ rs, Checked.part ps (head.length + 1) (ps.length - 1) = pure rs ∧
        Occurs text rs group := by
  obtain ⟨a, b, rfl, -, -, -⟩ := Token.splitGroup_eq_some.1 found
  have parted : Stands text front ps (head ++ (a :: group ++ [b])) := by
    simpa using stands
  have grouped : Stands text front ps ((head ++ [a]) ++ group ++ [b]) := by
    simpa using stands
  refine ⟨?_, parted.part_front rfl, ?_⟩
  · split
    · exact isSingle_eq parted
    · next none =>
      obtain rfl := List.length_eq_zero_iff.1 (Nat.eq_zero_of_not_pos none)
      rfl
  · have start : head.length + 1 = (head ++ [a]).length := by simp
    have stop : ps.length - 1 = ((head ++ [a]) ++ group).length := by
      rw [stands.length_eq]
      simp
    obtain ⟨rs, taken, inner⟩ := grouped.part start stop
    exact ⟨rs, taken, _, inner⟩

theorem quotes_assertion (stands : Stands text front ps ts) :
    Quotes text Eq (assertion reader text ps) (reader.assertion ts) := by
  have fails : Quotes text Eq (do throw ⟨.unexpected, ← span text ps⟩)
      (.error ⟨.unexpected, Token.span ts⟩ : Except ReadError Axiom) :=
    stands.takes_span.quotes .unexpected
  rw [assertion, lastOpening_eq stands, pure_bind, Reader.assertion]
  cases found : Token.splitGroup ts with
  | none => exact fails
  | some cut =>
    obtain ⟨head, group⟩ := cut
    obtain ⟨single, ⟨qs, head_taken, headed⟩, rs, group_taken, _, inner⟩ :=
      parts_of_splitGroup stands found
    dsimp only [Option.map_some]
    rw [single, pure_bind]
    cases Token.isSingle head with
    | false => exact fails
    | true =>
      rw [if_pos rfl, if_pos rfl, head_taken, pure_bind, group_taken, pure_bind]
      refine (Quotes.mapM (occurs_splitCommas inner) fun _ _ =>
        quotes_argument stands).bind fun args _ same _ => ?_
      rw [List.forall₂_eq_eq_eq] at same
      subst same
      match args with
      | [a] =>
        exact (quotes_conceptOf headed).bind fun c _ same _ =>
          .ok (congrArg (Axiom.classAssertion · a) same)
      | [a, b] =>
        exact (quotes_roleOf headed).bind fun r _ same _ =>
          .ok (congrArg (Axiom.roleAssertion · a b) same)
      | [] => exact inner.takes_span.quotes .wrongArity
      | _ :: _ :: _ :: _ => exact inner.takes_span.quotes .wrongArity

-- ================================================================== statements

/-- An inclusion is cut at its mark. -/
theorem quotes_inclusion {sub sup : List Token} {t : Token}
    (stands : Stands text front ps (sub ++ t :: sup)) :
    Quotes text Eq
      (do
        let subs ← Checked.part ps 0 sub.length
        let c ← conceptOf reader text subs
        let sups ← Checked.part ps (sub.length + 1) ps.length
        return Axiom.subClassOf c (← conceptOf reader text sups))
      (do
        return Axiom.subClassOf (← reader.conceptOfTokens sub)
          (← reader.conceptOfTokens sup)) := by
  have behind : Stands text front ps ((sub ++ [t]) ++ sup) := by
    simpa using stands
  have start : sub.length + 1 = (sub ++ [t]).length := by simp
  obtain ⟨qs, sub_taken, below⟩ := stands.part_front rfl
  obtain ⟨rs, sup_taken, above⟩ := behind.part_back start
  rw [sub_taken, pure_bind, sup_taken]
  refine (quotes_conceptOf below).bind fun c _ same _ => ?_
  subst same
  exact (quotes_conceptOf above).bind fun d _ same _ =>
    .ok (congrArg (Axiom.subClassOf c) same)

theorem quotes_axiomOf (stands : Stands text front ps ts) :
    Quotes text Eq (axiomOf reader text ps) (reader.axiomOfTokens text ts) := by
  cases ts with
  | nil =>
    obtain rfl := stands.eq_nil
    exact .error (Text.isInfix_trim text)
  | cons t ts =>
    have nonempty : ps.isEmpty = false := by
      obtain ⟨_, _, rfl, -⟩ := stands.uncons
      rfl
    have splits := Token.splits_splitInclusion 0 (t :: ts)
    rw [axiomOf, Reader.axiomOfTokens, nonempty, inclusions_eq stands 0 0]
    match cut : Token.splitInclusion 0 (t :: ts) with
    | [] => exact absurd cut splits.ne_nil
    | [_] => exact quotes_assertion stands
    | [sub, sup] =>
      rw [cut] at splits
      obtain ⟨_, -, read⟩ := splits.exists_of_pair
      rw [read] at stands
      have place : Token.places 0 [sub, sup] = [sub.length] := by
        simp [Token.places]
      rw [place]
      exact quotes_inclusion stands
    | _ :: _ :: _ :: _ => exact stands.takes_span.quotes .wrongArity

-- ======================================================================= texts

theorem quotes_tokens (text : List Char) :
    Quotes text (Stands text []) (tokens text) (Reader.tokens text) := by
  rw [tokens, Reader.tokens]
  split
  · refine (Placed.quotes_scan_whole text).imp fun ps ts placed cut => ?_
    rw [placed.1]
    exact stands_of_ofText cut
  · exact .error (Text.isInfix_trim text)

/-- A tag is quoted as it is written. -/
theorem quotes_noteOfTag {tag : List Char} (inside : tag <:+: text) :
    Quotes text Eq (Checked.of (reader.noteOfTag tag))
      (reader.noteOfTag tag) := by
  rw [Reader.noteOfTag]
  split
  · exact .ok rfl
  have quoted : Quotes text Eq (Checked.of (reader.iriOf tag))
      (reader.iriOf tag) := quotes_iriOf inside
  cases named : reader.iriOf tag with
  | ok iri => exact .ok rfl
  | error e =>
    rw [named] at quoted
    cases quoted with
    | error inside => exact .error inside

theorem quotes_statement (text : List Char) :
    Quotes text Eq (statement reader text) (reader.statementOfChars text) := by
  refine (quotes_tokens text).bind fun ps ts stands _ => ?_
  refine (quotes_cutTag stands).bind fun cut cut' same _ => ?_
  obtain ⟨body, tag⟩ := cut
  obtain ⟨body', tag'⟩ := cut'
  obtain ⟨bodied, tagged⟩ := same
  refine (quotes_axiomOf bodied).bind fun a _ same _ => ?_
  subst same
  cases tagged with
  | none => exact .ok rfl
  | @some p name named =>
    dsimp only
    rw [named.1, pure_bind]
    refine (quotes_noteOfTag named.2).bind fun n _ same _ => ?_
    subst same
    exact .ok rfl

theorem quotes_concept (text : String) :
    Quotes text.toList Eq (concept reader text.toList) (reader.concept text) :=
  (quotes_tokens text.toList).bind fun _ _ stands _ => quotes_conceptOf stands

theorem quotes_role (text : String) :
    Quotes text.toList Eq (role reader text.toList) (reader.role text) :=
  (quotes_tokens text.toList).bind fun _ _ stands _ => quotes_roleOf stands

-- =================================================================== documents

theorem isInfix_rigidNames? {cs names : List Char}
    (h : Reader.rigidNames? cs = some names) : names <:+: cs := by
  rw [Reader.rigidNames?] at h
  split at h
  · split at h
    · next behind =>
      split at h
      · cases h
        rw [← behind]
        exact (List.drop_suffix _ _).isInfix
      · cases h
    · cases h
  · cases h

/-- A name between commas is quoted without the blanks around it. -/
theorem quotes_rigidName {part : List Char} (inside : part <:+: text) :
    Quotes text Eq (Checked.of (reader.rigidName part))
      (reader.rigidName part) := by
  have name := (Text.isInfix_trim part).trans inside
  rw [Reader.rigidName]
  split
  · exact .error name
  · exact quotes_iriOf name

theorem quotes_rigidNames {parts : List (List Char)}
    (inside : ∀ part ∈ parts, part <:+: text) :
    Quotes text Eq (parts.mapM fun part => Checked.of (reader.rigidName part))
      (parts.mapM reader.rigidName) := by
  have same : List.Forall₂ (fun a b => a = b ∧ a <:+: text) parts parts :=
    List.forall₂_same.2 fun part h => ⟨rfl, inside part h⟩
  have read : Quotes text (List.Forall₂ Eq)
      (parts.mapM fun part => Checked.of (reader.rigidName part))
      (parts.mapM reader.rigidName) := by
    refine Quotes.mapM same ?_
    rintro part _ ⟨rfl, inside⟩
    exact quotes_rigidName inside
  rwa [List.forall₂_eq_eq_eq] at read

theorem quotes_line (text : List Char) :
    Quotes text Eq (line reader text) (reader.line text) := by
  have trimmed := Text.isInfix_trim text
  rw [line, Reader.line]
  split
  · exact .ok rfl
  cases rigid : Reader.rigidNames? (Text.trim text) with
  | some names =>
    refine (quotes_rigidNames fun part h => ?_).bind fun names _ same _ =>
      .ok (congrArg Line.rigid same)
    exact (Text.isInfix_of_mem_splitOn h).trans
      ((isInfix_rigidNames? rigid).trans trimmed)
  | none =>
    exact ((quotes_statement _).of_isInfix trimmed).bind fun _ _ same _ =>
      .ok (congrArg Line.statement same)

/-- Lines are read one after the other. -/
theorem quotes_lines {lines : List (List Char)}
    (inside : ∀ line ∈ lines, line <:+: text) (o : Ontology) :
    Quotes text Eq
      (lines.foldlM (fun o text => do return o.addLine (← line reader text)) o)
      (reader.addLines o lines) := by
  rw [Reader.addLines]
  induction lines generalizing o with
  | nil => exact .ok rfl
  | cons first lines ih =>
    obtain ⟨first_inside, others⟩ := List.forall_mem_cons.1 inside
    rw [List.foldlM_cons, List.foldlM_cons, bind_assoc, bind_assoc]
    refine ((quotes_line first).of_isInfix first_inside).bind
      fun content _ same _ => ?_
    subst same
    exact ih others (o.addLine content)

theorem quotes_ontology (text : String) :
    Quotes text.toList Eq (ontology reader text.toList)
      (reader.ontology text) :=
  quotes_lines (fun _ => Text.isInfix_of_mem_splitOn) (.empty none)

end Positional

namespace Reader

-- ===================================================================== safety

/-- On every text, the run that cuts it into tokens and the runs that read it
take no slice that is not there. The tokens that are found are laid out in the
text, the runs end as the reader does, and whatever error they end with quotes
a part of the text. -/
theorem slices_within_text (reader : Reader) (text : String) :
    Quotes text.toList
        (fun ps ts => ps = Placed.locate 0 ts ∧ Placed.IsLaid text.toList ps)
        (Placed.scan text.toList 0 text.toList) (Token.ofText text.toList) ∧
      Quotes text.toList Eq (Positional.statement reader text.toList)
        (reader.statement text) ∧
      Quotes text.toList Eq (Positional.concept reader text.toList)
        (reader.concept text) ∧
      Quotes text.toList Eq (Positional.role reader text.toList)
        (reader.role text) ∧
      Quotes text.toList Eq (Positional.ontology reader text.toList)
        (reader.ontology text) :=
  ⟨Placed.quotes_scan_whole text.toList,
    Positional.quotes_statement text.toList, Positional.quotes_concept text,
    Positional.quotes_role text, Positional.quotes_ontology text⟩

end Reader

end ContextDL
