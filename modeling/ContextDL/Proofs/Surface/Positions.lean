/-
Reading by positions takes no slice that is not there.

The reader by positions is followed step by step (`Quotes`): where it is at an
index of the tokens, the other reader has the tokens from this index on left
(`Left`). Every slice that is taken then has a text: the span of tokens that
stand in the text next to each other, or one of them.
-/
import ContextDL.Proofs.Surface.Cutting
import ContextDL.Proofs.Surface.Placement
import ContextDL.Surface.Positional

namespace ContextDL

open Text (size)

variable {α β γ : Type} {text front : List Char} {ps : List Placed}
  {whole rest ts us : List Token} {pos : Nat}

/-- A kind that is no name is the kind of one lexeme. -/
theorem Lexeme.kind_eq_iff {l m : Lexeme} (mark : ∀ word, m ≠ .name word) :
    l.kind = m ↔ l = m := by
  cases l with
  | name word =>
    exact iff_of_false (mark []).symm (mark word).symm
  | _ => exact Iff.rfl

-- ======================================================================= spans

namespace Stands

theorem getLast?_stop {t : Token} (h : Stands text front ps (t :: ts)) :
    ∃ p, ps.getLast? = some p ∧
      p.stop = size (front ++ Token.render (t :: ts)) := by
  induction ts generalizing front ps t with
  | nil =>
    obtain ⟨qs, rfl, -, rfl⟩ := h.cons
    exact ⟨_, rfl, by simp [Placed.locate, Token.render]⟩
  | cons u ts ih =>
    obtain ⟨qs, rfl, others⟩ := h.cons
    obtain ⟨p, last, stop⟩ := ih others
    refine ⟨p, ?_, ?_⟩
    · rw [List.getLast?_cons, last]
      rfl
    · rw [stop]
      simp [Token.render]

/-- The first token has its kind and its text. -/
theorem uncons {t : Token} (h : Stands text front ps (t :: ts)) :
    ∃ p qs, ps = p :: qs ∧ p.kind = t.lexeme.kind ∧
      Takes text (Positional.word text p) t.chars ∧
      Stands text (front ++ t.gap ++ t.chars) qs ts := by
  have named := h.takes_head
  obtain ⟨qs, rfl, others⟩ := h.cons
  exact ⟨_, qs, rfl, rfl, named, others⟩

/-- The text from the first of some tokens to the last is their span. -/
theorem takes_span (h : Stands text front ps ts) :
    Takes text (Positional.span text ps) (Token.span ts) := by
  cases ts with
  | nil =>
    rw [h.2]
    exact ⟨rfl, [], text, rfl⟩
  | cons t ts =>
    obtain ⟨p, last, hstop⟩ := h.getLast?_stop
    obtain ⟨qs, hps, -⟩ := h.cons
    have ⟨⟨back, around⟩, _⟩ := h
    have spanned : front ++ Token.render (t :: ts) =
        (front ++ t.gap) ++ Token.span (t :: ts) := by
      simp [Token.render, Token.span]
    rw [Positional.span, last, hps]
    rw [spanned] at around hstop
    exact takes_slice around rfl hstop

/-- Tokens between others are a part of the placed tokens, and stand in the
text as well. -/
theorem part {before after : List Token} {start stop : Nat}
    (h : Stands text front ps (before ++ us ++ after))
    (hstart : start = before.length) (hstop : stop = (before ++ us).length) :
    ∃ qs, Checked.part ps start stop = pure qs ∧
      Stands text (front ++ Token.render before) qs us := by
  obtain ⟨qs, rs, rfl, first, -⟩ := h.split
  obtain ⟨qs, us', rfl, first, second⟩ := first.split
  refine ⟨us', ?_, second⟩
  have found : part? (qs ++ us' ++ rs) start stop = some us' := by
    refine part?_eq_some.2 ⟨qs, rs, rfl, ?_, ?_⟩
    · rw [hstart, first.length_eq]
    · rw [hstop, List.length_append, List.length_append, first.length_eq,
        second.length_eq]
  rw [Checked.part, found]
  rfl

theorem part_front {after : List Token} {stop : Nat}
    (h : Stands text front ps (us ++ after)) (hstop : stop = us.length) :
    ∃ qs, Checked.part ps 0 stop = pure qs ∧ Stands text front qs us := by
  have parted : Stands text front ps ([] ++ us ++ after) := h
  obtain ⟨qs, taken, found⟩ := parted.part rfl hstop
  refine ⟨qs, taken, ?_⟩
  simpa [Token.render] using found

theorem part_back {before : List Token} {start : Nat}
    (h : Stands text front ps (before ++ us)) (hstart : start = before.length) :
    ∃ qs, Checked.part ps start ps.length = pure qs ∧
      Stands text (front ++ Token.render before) qs us := by
  have parted : Stands text front ps (before ++ us ++ []) := by
    rwa [List.append_nil]
  exact parted.part hstart h.length_eq

end Stands

-- ====================================================================== places

/-- The tokens that are left from an index on. -/
def Left (whole : List Token) (pos : Nat) (rest : List Token) : Prop :=
  ∃ used, whole = used ++ rest ∧ used.length = pos

/-- The same value, read up to the same place. -/
def SamePlace (whole : List Token) (a : α × Nat) (b : Parsed α) : Prop :=
  a.1 = b.1 ∧ Left whole a.2 b.2

namespace Left

theorem next {t : Token} (h : Left whole pos (t :: rest)) :
    Left whole (pos + 1) rest := by
  obtain ⟨used, rfl, rfl⟩ := h
  exact ⟨used ++ [t], by simp, by simp⟩

theorem length_eq (h : Left whole pos rest) :
    pos + rest.length = whole.length := by
  obtain ⟨used, rfl, rfl⟩ := h
  rw [List.length_append]

/-- The token at an index is the first that is left. -/
theorem getElem? {t : Token} (stands : Stands text front ps whole)
    (h : Left whole pos (t :: rest)) :
    ∃ p, ps[pos]? = some p ∧ p.kind = t.lexeme.kind ∧
      Takes text (Positional.word text p) t.chars := by
  obtain ⟨used, rfl, rfl⟩ := h
  obtain ⟨qs, rs, rfl, first, second⟩ := stands.split
  obtain ⟨p, others, rfl, kind, named, -⟩ := second.uncons
  refine ⟨p, ?_, kind, named⟩
  rw [← first.length_eq, List.getElem?_append_right (Nat.le_refl _),
    Nat.sub_self]
  rfl

theorem getElem?_nil (stands : Stands text front ps whole)
    (h : Left whole pos []) : ps[pos]? = none := by
  have := h.length_eq
  rw [List.getElem?_eq_none_iff, stands.length_eq]
  simpa using this.ge

theorem next?_ne (stands : Stands text front ps whole)
    (h : Left whole pos []) (m : Lexeme) :
    Positional.next? ps pos ≠ some m := by
  simp [Positional.next?, h.getElem?_nil stands]

theorem next?_eq_iff {t : Token} (stands : Stands text front ps whole)
    (h : Left whole pos (t :: rest)) {m : Lexeme}
    (mark : ∀ word, m ≠ .name word) :
    Positional.next? ps pos = some m ↔ t.lexeme = m := by
  obtain ⟨p, found, kind, -⟩ := h.getElem? stands
  simp [Positional.next?, found, kind, Lexeme.kind_eq_iff mark]

theorem takes_remaining (stands : Stands text front ps whole)
    (h : Left whole pos rest) :
    Takes text (Positional.remaining text ps pos) (Token.span rest) := by
  obtain ⟨used, rfl, rfl⟩ := h
  have start : min used.length ps.length = used.length := by
    rw [stands.length_eq, List.length_append]
    exact Nat.min_eq_left (Nat.le_add_right _ _)
  obtain ⟨qs, taken, left⟩ := stands.part_back start
  rw [Positional.remaining, taken, pure_bind]
  exact left.takes_span

end Left

/-- The next step gets the value that was read, and starts where the tokens
that are left start. -/
theorem Quotes.bind_place {x : Checked (α × Nat)}
    {y : Except ReadError (Parsed α)} {f : α × Nat → Checked β}
    {g : Parsed α → Except ReadError γ} {S : β → γ → Prop}
    (first : Quotes text (SamePlace whole) x y)
    (next : ∀ a pos rest, Left whole pos rest → y = .ok (a, rest) →
      Quotes text S (f (a, pos)) (g (a, rest))) :
    Quotes text S (x >>= f) (y >>= g) := by
  refine first.bind fun p q same ended => ?_
  obtain ⟨a, pos⟩ := p
  obtain ⟨_, rest⟩ := q
  obtain ⟨rfl, left⟩ := same
  exact next a pos rest left ended

-- ====================================================================== pieces

namespace Positional

variable {reader : Reader}

theorem quotes_missing {R : α → β → Prop}
    (stands : Stands text front ps whole) :
    Quotes text R (missing text ps) (Reader.missing whole) :=
  stands.takes_span.quotes .wrongArity

theorem quotes_closeParen (stands : Stands text front ps whole)
    (left : Left whole pos rest) :
    Quotes text (Left whole) (closeParen text ps pos)
      (Reader.closeParen rest) := by
  have fails := left.takes_remaining stands
  cases rest with
  | nil =>
    rw [closeParen, if_neg (left.next?_ne stands _)]
    exact fails.quotes .unbalanced
  | cons t rest =>
    have here := left.next?_eq_iff stands (m := .closeParen) (by simp)
    rw [closeParen, Reader.closeParen]
    by_cases closed : t.lexeme = .closeParen
    · rw [if_pos (here.2 closed), if_pos closed]
      exact .ok left.next
    · rw [if_neg (mt here.1 closed), if_neg closed]
      exact fails.quotes .unbalanced

/-- A restriction is quoted from its first token to the one in the place of
the dot. -/
theorem takes_shown (stands : Stands text front ps whole) {start : Nat}
    {shown : List Token} (begun : Left whole start shown)
    (left : Left whole pos rest) (behind : rest <:+ shown) :
    Takes text (Positional.shown text ps start pos)
      (Token.span (shown.take (shown.length - rest.length + 1))) := by
  obtain ⟨used, rfl⟩ := behind
  have place : pos = start + used.length := by
    have := begun.length_eq
    have := left.length_eq
    rw [List.length_append] at *
    omega
  obtain ⟨before, rfl, rfl⟩ := begun
  have quoted : (used ++ rest).take ((used ++ rest).length - rest.length + 1) =
      used ++ rest.take 1 := by
    rw [List.length_append, Nat.add_sub_cancel, List.take_length_add_append]
  have parted : Stands text front ps
      (before ++ (used ++ rest.take 1) ++ rest.drop 1) := by
    simpa only [List.append_assoc, List.take_append_drop] using stands
  have stop : min (pos + 1) ps.length =
      (before ++ (used ++ rest.take 1)).length := by
    rw [stands.length_eq, place]
    simp only [List.length_append, List.length_take]
    omega
  obtain ⟨qs, taken, found⟩ := parted.part rfl stop
  rw [Positional.shown, taken, pure_bind, quoted]
  exact found.takes_span

theorem quotes_takeDot (stands : Stands text front ps whole) {start : Nat}
    {shown : List Token} (begun : Left whole start shown)
    (left : Left whole pos rest) (behind : rest <:+ shown) :
    Quotes text (Left whole) (takeDot text ps start pos)
      (Reader.takeDot shown rest) := by
  have fails := takes_shown stands begun left behind
  cases rest with
  | nil =>
    rw [takeDot, if_neg (left.next?_ne stands _)]
    exact fails.quotes .missingDot
  | cons t rest =>
    have here := left.next?_eq_iff stands (m := .dot) (by simp)
    rw [takeDot, Reader.takeDot]
    by_cases dotted : t.lexeme = .dot
    · rw [if_pos (here.2 dotted), if_pos dotted]
      exact .ok left.next
    · rw [if_neg (mt here.1 dotted), if_neg dotted]
      exact fails.quotes .missingDot

/-- Tokens that are a name have the text of the name. -/
theorem takes_name {t : Token} {p : Placed} {name : List Char}
    (word : Takes text (Positional.word text p) t.chars)
    (named : t.lexeme = .name name) :
    Takes text (Positional.word text p) name := by
  rwa [Token.chars, named] at word

theorem quotes_readNumber (stands : Stands text front ps whole)
    (left : Left whole pos rest) :
    Quotes text (SamePlace whole) (readNumber text ps pos)
      (Reader.readNumber whole rest) := by
  cases rest with
  | nil =>
    rw [readNumber, left.getElem?_nil stands]
    exact quotes_missing stands
  | cons t rest =>
    obtain ⟨p, found, kind, word⟩ := left.getElem? stands
    rw [readNumber, found, Reader.readNumber]
    dsimp only
    rw [kind]
    cases hl : t.lexeme with
    | name digits =>
      dsimp only [Lexeme.kind]
      have taken := takes_name word hl
      rw [taken.1, pure_bind]
      cases Reader.number? digits with
      | some n => exact .ok ⟨rfl, left.next⟩
      | none => exact .error taken.2
    | _ => exact word.quotes .badName

theorem quotes_iriOf {name : List Char} (inside : name <:+: text) :
    Quotes text Eq (Checked.of (reader.iriOf name)) (reader.iriOf name) := by
  rw [Reader.iriOf]
  split
  · exact .ok rfl
  · exact .error inside

/-- A name is cut out of the text again. -/
theorem quotes_resolve {p : Placed} {name : List Char}
    (word : Takes text (Positional.word text p) name) :
    Quotes text Eq (resolve reader text p) (reader.iriOf name) := by
  rw [resolve, word.1, pure_bind]
  exact quotes_iriOf word.2

theorem quotes_readMembers (stands : Stands text front ps whole)
    {pos : Nat} {rest : List Token} (left : Left whole pos rest) :
    Quotes text (SamePlace whole) (readMembers reader text ps pos)
      (reader.readMembers whole rest) := by
  rw [readMembers]
  cases rest with
  | nil =>
    split
    · exact quotes_missing stands
    · next h =>
      rw [left.getElem?_nil stands] at h
      cases h
  | cons t rest =>
    obtain ⟨p, found, kind, word⟩ := left.getElem? stands
    rw [Reader.readMembers.eq_def]
    split
    · next h =>
      rw [found] at h
      cases h
    next q h =>
    rw [found] at h
    cases h
    dsimp only
    rw [kind]
    cases hl : t.lexeme with
    | name name =>
      dsimp only [Lexeme.kind]
      refine (quotes_resolve (takes_name word hl)).bind fun iri _ same _ => ?_
      subst same
      cases rest with
      | nil =>
        rw [left.next.getElem?_nil stands]
        exact quotes_missing stands
      | cons s rest =>
        obtain ⟨q, found, kind, word⟩ := left.next.getElem? stands
        rw [found]
        dsimp only
        rw [kind]
        cases hs : s.lexeme with
        | comma =>
          exact (quotes_readMembers stands left.next.next).bind_place
            fun _ _ _ left _ => .ok ⟨rfl, left⟩
        | closeBrace => exact .ok ⟨rfl, left.next.next⟩
        | _ => exact word.quotes .unexpected
    | _ => exact word.quotes .badName

-- ======================================================================= roles

theorem samePlace_readInverses (stands : Stands text front ps whole)
    {pos : Nat} {rest : List Token} (left : Left whole pos rest) (role : Role) :
    SamePlace whole (readInverses ps role pos)
      (Reader.readInverses role rest) := by
  induction rest generalizing pos role with
  | nil =>
    rw [readInverses, dif_neg (left.next?_ne stands _)]
    exact ⟨rfl, left⟩
  | cons t rest ih =>
    have here := left.next?_eq_iff stands (m := .inverse) (by simp)
    rw [readInverses, Reader.readInverses]
    by_cases marked : t.lexeme = .inverse
    · rw [dif_pos (here.2 marked), if_pos marked]
      exact ih left.next role.inverted
    · rw [dif_neg (mt here.1 marked), if_neg marked]
      exact ⟨rfl, left⟩

theorem quotes_readRole (stands : Stands text front ps whole) (budget : Nat)
    {pos : Nat} {rest : List Token} (left : Left whole pos rest) :
    Quotes text (SamePlace whole) (readRole reader text ps budget pos)
      (reader.readRole whole budget rest) := by
  induction budget generalizing pos rest with
  | zero => exact (left.takes_remaining stands).quotes .tooDeep
  | succ budget ih =>
    cases rest with
    | nil =>
      rw [readRole, left.getElem?_nil stands]
      exact quotes_missing stands
    | cons t rest =>
      obtain ⟨p, found, kind, word⟩ := left.getElem? stands
      rw [readRole, found, Reader.readRole]
      dsimp only
      rw [kind]
      cases hl : t.lexeme with
      | name name =>
        refine (quotes_resolve (takes_name word hl)).bind fun p _ same _ => ?_
        subst same
        exact .ok (samePlace_readInverses stands left.next _)
      | openParen =>
        refine (ih left.next).bind_place fun r _ _ left _ => ?_
        exact (quotes_closeParen stands left).bind fun _ _ left _ =>
          .ok (samePlace_readInverses stands left r)
      | top => exact word.quotes .badName
      | bottom => exact word.quotes .badName
      | _ => exact word.quotes .unexpected

-- ====================================================================== chains

section Steps

variable {item : Nat → Checked (Concept × Nat)} {item' : Step Concept}

/-- A step by positions that follows another step, wherever it starts. -/
def Follows (text : List Char) (whole : List Token)
    (step : Nat → Checked (α × Nat)) (step' : Step α) : Prop :=
  ∀ pos rest, Left whole pos rest →
    Quotes text (SamePlace whole) (step pos) (step' rest)

theorem quotes_readOperands (stands : Stands text front ps whole)
    (items : Follows text whole item item') {operator : Lexeme}
    (mark : ∀ word, operator ≠ .name word) (bound : Nat) {pos : Nat}
    {rest : List Token} (left : Left whole pos rest) :
    Quotes text (SamePlace whole) (readOperands ps item operator bound pos)
      (Reader.readOperands item' operator bound rest) := by
  induction bound generalizing pos rest with
  | zero => cases rest <;> exact .ok ⟨rfl, left⟩
  | succ bound ih =>
    cases rest with
    | nil =>
      rw [readOperands, if_neg (left.next?_ne stands _)]
      exact .ok ⟨rfl, left⟩
    | cons t rest =>
      have here := left.next?_eq_iff stands mark
      rw [readOperands, Reader.readOperands]
      by_cases marked : t.lexeme = operator
      · rw [if_pos (here.2 marked), if_pos marked]
        refine (items _ _ left.next).bind_place fun _ _ _ left _ => ?_
        exact (ih left).bind_place fun _ _ _ left _ => .ok ⟨rfl, left⟩
      · rw [if_neg (mt here.1 marked), if_neg marked]
        exact .ok ⟨rfl, left⟩

theorem follows_readChain (stands : Stands text front ps whole)
    (items : Follows text whole item item') {operator : Lexeme}
    (mark : ∀ word, operator ≠ .name word)
    (node : List Concept → Concept) :
    Follows text whole (readChain ps item operator node)
      (Reader.readChain item' operator node) := by
  intro pos rest left
  refine (items pos rest left).bind_place fun c pos rest left _ => ?_
  have bound : ps.length - pos = rest.length := by
    rw [stands.length_eq, ← left.length_eq, Nat.add_sub_cancel_left]
  dsimp only
  rw [bound]
  exact (quotes_readOperands stands items mark _ left).bind_place
    fun _ _ _ left _ => .ok ⟨rfl, left⟩

theorem follows_readInter (stands : Stands text front ps whole)
    (items : Follows text whole item item') :
    Follows text whole (readInter ps item) (Reader.readInter item') :=
  follows_readChain stands
    (follows_readChain stands items (by simp) .union) (by simp) .inter

-- ==================================================================== concepts

theorem quotes_readRestriction (stands : Stands text front ps whole)
    {role : Nat → Checked (Role × Nat)} {role' : Step Role}
    (roles : Follows text whole role role')
    (shortens : ∀ {ts r rest}, role' ts = .ok (r, rest) → rest <:+ ts)
    (fillers : Follows text whole item item') (q : Quantifier) {start : Nat}
    {shown : List Token} (begun : Left whole start shown) {pos : Nat}
    {rest : List Token} (left : Left whole pos rest)
    (behind : rest <:+ shown) :
    Quotes text (SamePlace whole)
      (readRestriction text ps start role item q pos)
      (Reader.readRestriction shown role' item' q rest) := by
  refine (roles pos rest left).bind_place fun _ _ _ left ended => ?_
  have dot := quotes_takeDot stands begun left
    ((shortens ended).trans behind)
  refine dot.bind fun _ _ left _ => ?_
  exact (fillers _ _ left).bind_place fun _ _ _ left _ => .ok ⟨rfl, left⟩

end Steps

/-- A counted restriction reads its number first. -/
theorem quotes_counted (stands : Stands text front ps whole)
    {restriction : Quantifier → Nat → Checked (Concept × Nat)}
    {restriction' : Quantifier → Step Concept}
    (follows : ∀ (q : Quantifier) {pos : Nat} {rest : List Token},
      Left whole pos rest → rest <:+ ts →
        Quotes text (SamePlace whole) (restriction q pos)
          (restriction' q rest))
    (q : UInt32 → Quantifier) (left : Left whole pos rest)
    (behind : rest <:+ ts) :
    Quotes text (SamePlace whole)
      (do
        let (n, left) ← readNumber text ps pos
        restriction (q n) left)
      (do
        let (n, left) ← Reader.readNumber whole rest
        restriction' (q n) left) := by
  refine (quotes_readNumber stands left).bind_place fun n _ _ next ended => ?_
  obtain ⟨t, _, rfl, -, -⟩ := Reader.readNumber_eq_ok.1 ended
  exact follows (q n) next ((List.suffix_cons _ _).trans behind)

theorem follows_readFactor (stands : Stands text front ps whole)
    (budget : Nat) :
    Follows text whole (readFactor reader text ps budget)
      (reader.readFactor whole budget) := by
  induction budget with
  | zero =>
    exact fun _ _ left => (left.takes_remaining stands).quotes .tooDeep
  | succ budget factors =>
    intro pos rest left
    cases rest with
    | nil =>
      rw [readFactor, left.getElem?_nil stands]
      exact quotes_missing stands
    | cons t rest =>
      obtain ⟨p, found, kind, word⟩ := left.getElem? stands
      have shortens {ts : List Token} {r : Role} {rest : List Token}
          (h : reader.readRole whole budget ts = .ok (r, rest)) :
          rest <:+ ts := by
        obtain ⟨used, rfl, -⟩ := (Reader.reads_readRole budget).sound h
        exact List.suffix_append _ _
      have restriction (q : Quantifier) {pos' : Nat} {rest' : List Token}
          (left' : Left whole pos' rest') (behind : rest' <:+ t :: rest) :=
        quotes_readRestriction stands
          (fun _ _ left => quotes_readRole stands budget left) shortens factors
          q left left' behind
      rw [readFactor, found, Reader.readFactor]
      dsimp only
      rw [kind]
      cases hl : t.lexeme with
      | complement =>
        exact (factors _ _ left.next).bind_place fun _ _ _ left _ =>
          .ok ⟨rfl, left⟩
      | existential =>
        exact restriction _ left.next (List.suffix_cons _ _)
      | universal =>
        exact restriction _ left.next (List.suffix_cons _ _)
      | atLeast =>
        exact quotes_counted stands restriction _ left.next
          (List.suffix_cons _ _)
      | atMost =>
        exact quotes_counted stands restriction _ left.next
          (List.suffix_cons _ _)
      | exactly =>
        exact quotes_counted stands restriction _ left.next
          (List.suffix_cons _ _)
      | top => exact .ok ⟨rfl, left.next⟩
      | bottom => exact .ok ⟨rfl, left.next⟩
      | name name =>
        refine (quotes_resolve (takes_name word hl)).bind fun p _ same _ => ?_
        subst same
        exact .ok ⟨rfl, left.next⟩
      | openBrace =>
        exact (quotes_readMembers stands left.next).bind_place
          fun _ _ _ left _ => .ok ⟨rfl, left⟩
      | openParen =>
        refine (follows_readInter stands factors _ _ left.next).bind_place
          fun _ _ _ left _ => ?_
        exact (quotes_closeParen stands left).bind fun _ _ left _ =>
          .ok ⟨rfl, left⟩
      | _ => exact word.quotes .unexpected

-- =========================================================== whole expressions

/-- Tokens are left where the tokens have not been used up. -/
theorem quotes_finish (stands : Stands text front ps whole)
    {x : Checked (α × Nat)} {y : Except ReadError (Parsed α)}
    (read : Quotes text (SamePlace whole) x y) :
    Quotes text Eq (finish text ps x) (Reader.finish y) := by
  refine read.bind_place fun a pos rest left _ => ?_
  have length := left.length_eq
  rw [← stands.length_eq] at length
  dsimp only
  cases rest with
  | nil =>
    rw [if_neg (by simpa using length.ge)]
    exact .ok rfl
  | cons t rest =>
    rw [if_pos (by rw [← length, List.length_cons]; omega)]
    exact (left.takes_remaining stands).quotes .unexpected

theorem quotes_conceptOf (stands : Stands text front ps whole) :
    Quotes text Eq (conceptOf reader text ps)
      (reader.conceptOfTokens whole) := by
  have factors : Follows text whole (readFactor reader text ps reader.budget)
      (reader.readFactor whole reader.budget) := follows_readFactor stands _
  exact quotes_finish stands
    (follows_readInter stands factors 0 whole ⟨[], rfl, rfl⟩)

theorem quotes_roleOf (stands : Stands text front ps whole) :
    Quotes text Eq (roleOf reader text ps) (reader.roleOfTokens whole) :=
  quotes_finish stands (quotes_readRole stands _ ⟨[], rfl, rfl⟩)

end Positional

end ContextDL
