/-
Raising the depth limit.

A reader with a higher limit reads what a reader with a lower limit reads, and
fails where it fails, with the same error; only where the lower limit is
reached it may go on. And a limit is not reached by a text with no more tokens
than the limit says.

# Two runs at once

`Relaxes` compares a run under the lower limit with one under the higher. If
the first is not too deep, the second is the same, and if it is, something is
spent. What is spent decides the second half: a step within a budget is too
deep only if there are as many tokens as the budget (`Reader.relaxes_readRole`,
`Reader.relaxes_readFactor`). To go one level down costs one unit of the budget
and one token, so nothing is lost on the way.

Runs compose (`Relaxes.bind`): the second parts have to be compared only where
the first part has ended well, and there the two runs have the same tokens
left. These are no more than before, since what was read was taken off the
front (`Step.Reads.sound`).
-/
import ContextDL.Proofs.Surface.Statement
import ContextDL.Surface.Document

namespace ContextDL

variable {α β : Type}

-- ==================================================================== outcomes

/-- A run that has reached the depth limit. -/
def TooDeep : Except ReadError α → Prop
  | .ok _ => False
  | .error e => e.cause = .tooDeep

/-- A run goes on under a higher limit as it went under a lower one, unless it
was too deep there; then something is spent. -/
structure Relaxes (spent : Prop) (low high : Except ReadError α) : Prop where
  same : ¬ TooDeep low → high = low
  deep : TooDeep low → spent

namespace Relaxes

variable {spent more : Prop} {x x' : Except ReadError α}

theorem ok (value : α) :
    Relaxes spent (.ok value : Except ReadError α) (.ok value) :=
  ⟨fun _ => rfl, False.elim⟩

/-- An error of another cause is the same under every limit. -/
theorem error {cause : ReadError.Cause} {fragment : List Char}
    (other : cause ≠ .tooDeep) :
    Relaxes spent (.error ⟨cause, fragment⟩ : Except ReadError α)
      (.error ⟨cause, fragment⟩) :=
  ⟨fun _ => rfl, fun deep => absurd deep other⟩

theorem mono (h : Relaxes spent x x') (weaker : spent → more) :
    Relaxes more x x' :=
  ⟨h.same, fun deep => weaker (h.deep deep)⟩

/-- Runs are compared part by part. -/
theorem bind {f f' : α → Except ReadError β} (first : Relaxes spent x x')
    (next : ∀ value, x = .ok value → Relaxes spent (f value) (f' value)) :
    Relaxes spent (x >>= f) (x' >>= f') := by
  cases x with
  | ok value =>
    have ended : x' = .ok value := first.same id
    rw [ended]
    exact next value rfl
  | error e =>
    -- an error of the first part is the outcome of both
    constructor
    · intro other
      have failed : x' = .error e := first.same other
      rw [failed]
      rfl
    · exact first.deep

/-- A list is gone through member by member. -/
theorem mapM {f f' : β → Except ReadError α} {xs : List β}
    (each : ∀ b, Relaxes spent (f b) (f' b)) :
    Relaxes spent (xs.mapM f) (xs.mapM f') := by
  induction xs with
  | nil => exact .ok []
  | cons b xs ih =>
    rw [List.mapM_cons, List.mapM_cons]
    exact (each b).bind fun value _ => ih.bind fun values _ => .ok _

/-- States are passed through a list. -/
theorem foldlM {f f' : α → β → Except ReadError α} {xs : List β}
    (each : ∀ a b, Relaxes spent (f a b) (f' a b)) (start : α) :
    Relaxes spent (xs.foldlM f start) (xs.foldlM f' start) := by
  induction xs generalizing start with
  | nil => exact .ok start
  | cons b xs ih =>
    rw [List.foldlM_cons, List.foldlM_cons]
    exact (each start b).bind fun a _ => ih a

end Relaxes

-- ====================================================================== pieces

/-- What is left after a step is no more than what was there. -/
theorem Step.Reads.length_le {step : Step α}
    {IsSentence : List Lexeme → α → Prop} {more : List Lexeme}
    (reads : Step.Reads step IsSentence more) {ts rest : List Token}
    {value : α} (h : step ts = .ok (value, rest)) :
    rest.length ≤ ts.length := by
  obtain ⟨used, rfl, -⟩ := reads.sound h
  rw [List.length_append]
  exact Nat.le_add_left _ _

namespace Reader

variable {low high : Reader} {spent : Prop} {whole : List Token}

theorem relaxes_read (c : Char) (rest : List Char) :
    Relaxes spent (Lexeme.read c rest) (Lexeme.read c rest) := by
  unfold Lexeme.read
  split
  · exact .ok _
  split
  · split
    · exact .ok _
    · exact .error (by decide)
  split
  · dsimp only
    split
    · exact .ok _
    · exact .error (by decide)
  · exact .error (by decide)

theorem relaxes_ofText (cs : List Char) :
    Relaxes spent (Token.ofText cs) (Token.ofText cs) := by
  fun_induction Token.ofText cs with
  | case1 => exact .ok _
  | case2 cs c rest _ e first =>
    have failed := @relaxes_read spent c rest
    rw [first] at failed
    exact ⟨fun _ => rfl, failed.deep⟩
  | case3 cs c rest _ lexeme left first _ ih => exact ih.bind fun _ _ => .ok _

/-- Cutting a text into tokens takes no notice of a limit. -/
theorem relaxes_tokens (text : List Char) :
    Relaxes spent (tokens text) (tokens text) := by
  unfold tokens
  split
  · exact relaxes_ofText text
  · exact .error (by decide)

theorem relaxes_cutTag (ts : List Token) :
    Relaxes spent (Token.cutTag ts) (Token.cutTag ts) := by
  induction ts with
  | nil => exact .ok _
  | cons t rest ih =>
    rw [Token.cutTag.eq_def]
    dsimp only
    split
    · split
      · exact .ok _
      · exact .error (by decide)
    · exact ih.bind fun _ _ => .ok _

theorem relaxes_closeParen (ts : List Token) :
    Relaxes spent (closeParen ts) (closeParen ts) := by
  unfold closeParen
  split
  · exact .error (by decide)
  · split
    · exact .ok _
    · exact .error (by decide)

theorem relaxes_takeDot (start ts : List Token) :
    Relaxes spent (takeDot start ts) (takeDot start ts) := by
  unfold takeDot
  dsimp only
  split
  · exact .error (by decide)
  · split
    · exact .ok _
    · exact .error (by decide)

theorem relaxes_readNumber (ts : List Token) :
    Relaxes spent (readNumber whole ts) (readNumber whole ts) := by
  unfold readNumber
  split
  · exact .error (by decide)
  · split
    · split
      · exact .ok _
      · exact .error (by decide)
    · exact .error (by decide)

theorem relaxes_finish {x x' : Except ReadError (Parsed α)}
    (h : Relaxes spent x x') : Relaxes spent (finish x) (finish x') := by
  refine h.bind fun _ _ => ?_
  dsimp only
  split
  · exact .ok _
  · exact .error (by decide)

-- ======================================================================= steps

section Steps

variable {budget : Nat} {item item' : Step Concept}
  {IsItem : List Lexeme → Concept → Prop} {more : List Lexeme}

theorem relaxes_readOperands (reads : Step.Reads item IsItem more)
    (items : ∀ ts, Relaxes (budget ≤ ts.length) (item ts) (item' ts))
    (operator : Lexeme) (bound : Nat) (ts : List Token) :
    Relaxes (budget ≤ ts.length) (readOperands item operator bound ts)
      (readOperands item' operator bound ts) := by
  induction bound generalizing ts with
  | zero => cases ts <;> exact .ok _
  | succ bound ih =>
    cases ts with
    | nil => exact .ok _
    | cons t rest =>
      rw [readOperands, readOperands]
      by_cases marked : t.lexeme = operator
      · rw [if_pos marked, if_pos marked]
        refine ((items rest).mono Nat.le_succ_of_le).bind fun parsed hc => ?_
        obtain ⟨c, left⟩ := parsed
        have shorter := reads.length_le hc
        refine ((ih left).mono fun spent => ?_).bind fun _ _ => .ok _
        exact Nat.le_succ_of_le (Nat.le_trans spent shorter)
      · rw [if_neg marked, if_neg marked]
        exact .ok _

/-- A chain is too deep only if one of its operands is. -/
theorem relaxes_readChain (reads : Step.Reads item IsItem more)
    (items : ∀ ts, Relaxes (budget ≤ ts.length) (item ts) (item' ts))
    (operator : Lexeme) (node : List Concept → Concept) (ts : List Token) :
    Relaxes (budget ≤ ts.length) (readChain item operator node ts)
      (readChain item' operator node ts) := by
  refine (items ts).bind fun parsed hc => ?_
  obtain ⟨c, left⟩ := parsed
  have others := relaxes_readOperands reads items operator left.length left
  have shorter := reads.length_le hc
  exact (others.mono fun spent => Nat.le_trans spent shorter).bind
    fun _ _ => .ok _

/-- An intersection of unions is too deep only if one of its factors is. -/
theorem relaxes_readInter {reader : Reader}
    (reads : Step.Reads item (Grammar.IsFactor reader budget) [])
    (items : ∀ ts, Relaxes (budget ≤ ts.length) (item ts) (item' ts))
    (ts : List Token) :
    Relaxes (budget ≤ ts.length) (readInter item ts) (readInter item' ts) :=
  relaxes_readChain (reads_readUnion reads)
    (relaxes_readChain reads items .join .union) .meet .inter ts

/-- A restriction is too deep only if its role or its filler is. -/
theorem relaxes_readRestriction {role role' : Step Role}
    {IsRoleSentence : List Lexeme → Role → Prop}
    (reads : Step.Reads role IsRoleSentence more)
    (roles : ∀ ts, Relaxes (budget ≤ ts.length) (role ts) (role' ts))
    (fillers : ∀ ts, Relaxes (budget ≤ ts.length) (item ts) (item' ts))
    (start : List Token) (q : Quantifier) (ts : List Token) :
    Relaxes (budget ≤ ts.length) (readRestriction start role item q ts)
      (readRestriction start role' item' q ts) := by
  refine (roles ts).bind fun parsed hr => ?_
  obtain ⟨r, left⟩ := parsed
  refine (relaxes_takeDot start left).bind fun after hdot => ?_
  have shorter := reads.length_le hr
  obtain ⟨t, -, rfl⟩ := takeDot_eq_ok.1 hdot
  rw [List.length_cons] at shorter
  exact ((fillers after).mono fun spent => by omega).bind fun _ _ => .ok _

/-- A number costs a token, and no budget. -/
theorem relaxes_counted {next next' : Quantifier → Step Concept}
    (nexts : ∀ q ts, Relaxes (budget ≤ ts.length) (next q ts) (next' q ts))
    (quantifier : UInt32 → Quantifier) (ts : List Token) :
    Relaxes (budget ≤ ts.length)
      (do
        let (n, left) ← readNumber whole ts
        next (quantifier n) left)
      (do
        let (n, left) ← readNumber whole ts
        next' (quantifier n) left) := by
  refine (relaxes_readNumber ts).bind fun parsed hn => ?_
  obtain ⟨n, left⟩ := parsed
  obtain ⟨t, _, rfl, -, -⟩ := readNumber_eq_ok.1 hn
  exact (nexts (quantifier n) left).mono Nat.le_succ_of_le

end Steps

/-- A text has more tokens than a limit. -/
def Exceeds (limit : Nat) (text : List Char) : Prop :=
  ∃ ts, tokens text = .ok ts ∧ limit < ts.length

/-- What reads the tokens of a text reads the text. -/
theorem relaxes_text {limit : Nat} {f f' : List Token → Except ReadError α}
    (each : ∀ ts, Relaxes (limit < ts.length) (f ts) (f' ts))
    (text : List Char) :
    Relaxes (Exceeds limit text) (tokens text >>= f) (tokens text >>= f') :=
  (relaxes_tokens text).bind fun ts cut =>
    (each ts).mono fun many => ⟨ts, cut, many⟩

-- ==================================================================== one base

section Bases

variable (base : low.base = high.base)
include base

/-- Names are read alike from one base. -/
theorem relaxes_iriOf (name : List Char) :
    Relaxes spent (low.iriOf name) (high.iriOf name) := by
  rw [iriOf, iriOf, base]
  split
  · exact .ok _
  · exact .error (by decide)

theorem relaxes_readMembers (ts : List Token) :
    Relaxes spent (low.readMembers whole ts) (high.readMembers whole ts) := by
  cases ts with
  | nil => exact .error (by decide)
  | cons t rest =>
    rw [readMembers.eq_def, readMembers.eq_def high]
    dsimp only
    cases t.lexeme with
    | name text =>
      refine (relaxes_iriOf base text).bind fun iri _ => ?_
      cases rest with
      | nil => exact .error (by decide)
      | cons s rest =>
        dsimp only
        cases s.lexeme with
        | comma => exact (relaxes_readMembers rest).bind fun _ _ => .ok _
        | closeBrace => exact .ok _
        | _ => exact .error (by decide)
    | _ => exact .error (by decide)

theorem relaxes_argument (body part : List Token) :
    Relaxes spent (low.argument body part) (high.argument body part) := by
  match part with
  | [] => exact .error (by decide)
  | [⟨_, l⟩] =>
    cases l with
    | name text => exact (relaxes_iriOf base text).bind fun _ _ => .ok _
    | _ => exact .error (by decide)
  | ⟨_, l⟩ :: _ :: _ => cases l <;> exact .error (by decide)

theorem relaxes_noteOfTag (tag : List Char) :
    Relaxes spent (low.noteOfTag tag) (high.noteOfTag tag) := by
  unfold noteOfTag
  by_cases word : tag = globalWord
  · rw [if_pos word, if_pos word]
    exact .ok _
  · rw [if_neg word, if_neg word]
    exact (relaxes_iriOf base tag).bind fun _ _ => .ok _

theorem relaxes_rigidName (part : List Char) :
    Relaxes spent (low.rigidName part) (high.rigidName part) := by
  unfold rigidName
  dsimp only
  split
  · exact .error (by decide)
  · exact relaxes_iriOf base _

/-- A role is too deep only if its tokens are as many as the budget. -/
theorem relaxes_readRole {budget more : Nat} (le : budget ≤ more)
    (ts : List Token) :
    Relaxes (budget ≤ ts.length) (low.readRole whole budget ts)
      (high.readRole whole more ts) := by
  induction budget generalizing more ts with
  | zero => exact ⟨fun other => absurd rfl other, fun _ => Nat.zero_le _⟩
  | succ budget ih =>
    obtain ⟨more, rfl⟩ := Nat.exists_eq_succ_of_ne_zero (by omega : more ≠ 0)
    have below := Nat.le_of_succ_le_succ le
    cases ts with
    | nil => exact .error (by decide)
    | cons t rest =>
      rw [readRole, readRole]
      cases t.lexeme with
      | name text => exact (relaxes_iriOf base text).bind fun _ _ => .ok _
      | openParen =>
        refine ((ih below rest).mono Nat.succ_le_succ).bind fun _ _ => ?_
        exact (relaxes_closeParen _).bind fun _ _ => .ok _
      | _ => exact .error (by decide)

/-- A factor is too deep only if its tokens are as many as the budget. -/
theorem relaxes_readFactor {budget more : Nat} (le : budget ≤ more)
    (ts : List Token) :
    Relaxes (budget ≤ ts.length) (low.readFactor whole budget ts)
      (high.readFactor whole more ts) := by
  induction budget generalizing more ts with
  | zero => exact ⟨fun other => absurd rfl other, fun _ => Nat.zero_le _⟩
  | succ budget ih =>
    obtain ⟨more, rfl⟩ := Nat.exists_eq_succ_of_ne_zero (by omega : more ≠ 0)
    have below := Nat.le_of_succ_le_succ le
    cases ts with
    | nil => exact .error (by decide)
    | cons t rest =>
      have factors := ih below
      have readsRole := @reads_readRole low whole budget
      have restriction (q : Quantifier) := relaxes_readRestriction readsRole
        (relaxes_readRole base below) factors (t :: rest) q
      rw [readFactor, readFactor]
      dsimp only
      -- the first token and a unit of the budget are gone in every case
      cases t.lexeme with
      | complement =>
        exact ((factors rest).mono Nat.succ_le_succ).bind fun _ _ => .ok _
      | existential => exact (restriction _ rest).mono Nat.succ_le_succ
      | universal => exact (restriction _ rest).mono Nat.succ_le_succ
      | atLeast =>
        exact (relaxes_counted restriction .atLeast rest).mono Nat.succ_le_succ
      | atMost =>
        exact (relaxes_counted restriction .atMost rest).mono Nat.succ_le_succ
      | exactly =>
        exact (relaxes_counted restriction .exactly rest).mono Nat.succ_le_succ
      | top => exact .ok _
      | bottom => exact .ok _
      | name text => exact (relaxes_iriOf base text).bind fun _ _ => .ok _
      | openBrace =>
        exact (relaxes_readMembers base rest).bind fun _ _ => .ok _
      | openParen =>
        have inner := relaxes_readInter (reads_readFactor budget) factors rest
        refine (inner.mono Nat.succ_le_succ).bind fun _ _ => ?_
        exact (relaxes_closeParen _).bind fun _ _ => .ok _
      | _ => exact .error (by decide)

-- ================================================================== two limits

variable (limit : low.maxDepth ≤ high.maxDepth)
include limit

theorem relaxes_conceptOfTokens (ts : List Token) :
    Relaxes (low.maxDepth < ts.length) (low.conceptOfTokens ts)
      (high.conceptOfTokens ts) := by
  have factors := @relaxes_readFactor low high ts base low.budget high.budget
    (Nat.succ_le_succ limit)
  exact relaxes_finish
    (relaxes_readInter (reads_readFactor low.budget) factors ts)

theorem relaxes_roleOfTokens (ts : List Token) :
    Relaxes (low.maxDepth < ts.length) (low.roleOfTokens ts)
      (high.roleOfTokens ts) :=
  relaxes_finish (relaxes_readRole base (Nat.succ_le_succ limit) ts)

theorem relaxes_assertion (body : List Token) :
    Relaxes (low.maxDepth < body.length) (low.assertion body)
      (high.assertion body) := by
  unfold assertion
  cases cut : Token.splitGroup body with
  | none => exact .error (by decide)
  | some parts =>
    obtain ⟨head, group⟩ := parts
    obtain ⟨left, right, rfl, -⟩ := Token.splitGroup_eq_some.1 cut
    dsimp only
    by_cases single : Token.isSingle head
    · rw [if_pos single, if_pos single]
      -- the head is shorter than the body
      have longer : low.maxDepth < head.length →
          low.maxDepth < (head ++ left :: group ++ [right]).length := by
        intro many
        simp only [List.length_append]
        omega
      refine (Relaxes.mapM (relaxes_argument base _)).bind fun arguments _ => ?_
      match arguments with
      | [a] =>
        exact ((relaxes_conceptOfTokens base limit head).mono longer).bind
          fun _ _ => .ok _
      | [a, b] =>
        exact ((relaxes_roleOfTokens base limit head).mono longer).bind
          fun _ _ => .ok _
      | [] => exact .error (by decide)
      | _ :: _ :: _ :: _ => exact .error (by decide)
    · rw [if_neg single, if_neg single]
      exact .error (by decide)

theorem relaxes_axiomOfTokens (text : List Char) (body : List Token) :
    Relaxes (low.maxDepth < body.length) (low.axiomOfTokens text body)
      (high.axiomOfTokens text body) := by
  unfold axiomOfTokens
  by_cases empty : body.isEmpty
  · rw [if_pos empty, if_pos empty]
    exact .error (by decide)
  · rw [if_neg empty, if_neg empty]
    have parts := Token.splits_splitInclusion 0 body
    match Token.splitInclusion 0 body, parts with
    | [_], _ => exact relaxes_assertion base limit body
    | [sub, sup], parts =>
      obtain ⟨mark, -, rfl⟩ := parts.exists_of_pair
      have within (part : List Token)
          (shorter : part.length ≤ (sub ++ mark :: sup).length) :=
        (relaxes_conceptOfTokens base limit part).mono fun many =>
          Nat.lt_of_lt_of_le many shorter
      refine (within sub (by simp)).bind fun _ _ => ?_
      refine (within sup ?_).bind fun _ _ => .ok _
      rw [List.length_append, List.length_cons]
      omega
    | [], _ => exact .error (by decide)
    | _ :: _ :: _ :: _, _ => exact .error (by decide)

theorem relaxes_statementOfChars (text : List Char) :
    Relaxes (Exceeds low.maxDepth text) (low.statementOfChars text)
      (high.statementOfChars text) := by
  refine relaxes_text (fun ts => ?_) text
  refine (relaxes_cutTag ts).bind fun parts htag => ?_
  obtain ⟨body, tag⟩ := parts
  obtain ⟨tail, rfl, -⟩ := Token.cutTag_eq_ok.1 htag
  have longer : low.maxDepth < body.length →
      low.maxDepth < (body ++ tail).length := by
    intro many
    rw [List.length_append]
    omega
  refine ((relaxes_axiomOfTokens base limit text body).mono longer).bind
    fun _ _ => ?_
  cases tag with
  | none => exact .ok _
  | some tag => exact (relaxes_noteOfTag base tag).bind fun _ _ => .ok _

theorem relaxes_line (text : List Char) :
    Relaxes True (low.line text) (high.line text) := by
  unfold line
  dsimp only
  split
  · exact .ok _
  · cases rigidNames? (Text.trim text) with
    | some names =>
      exact (Relaxes.mapM (relaxes_rigidName base)).bind fun _ _ => .ok _
    | none =>
      have statement := relaxes_statementOfChars base limit (Text.trim text)
      exact (statement.mono fun _ => trivial).bind fun _ _ => .ok _

theorem relaxes_ontology (text : String) :
    Relaxes True (low.ontology text) (high.ontology text) :=
  Relaxes.foldlM (fun _ text => (relaxes_line base limit text).bind
    fun _ _ => .ok _) _

end Bases

-- ================================================================== conclusion

/-- To raise the depth limit only takes away that a text is nested too deeply.
What a reader makes of a text, be it a value or another error, a reader with a
higher limit makes of it too; and no axiom, concept or role is too deep for a
limit that its text has no more tokens than. -/
theorem depth_limit_raises (base : low.base = high.base)
    (limit : low.maxDepth ≤ high.maxDepth) (text : String) :
    (¬ TooDeep (low.statement text) →
      high.statement text = low.statement text) ∧
    (¬ TooDeep (low.concept text) → high.concept text = low.concept text) ∧
    (¬ TooDeep (low.role text) → high.role text = low.role text) ∧
    (¬ TooDeep (low.ontology text) →
      high.ontology text = low.ontology text) ∧
    ((∀ ts, tokens text.toList = .ok ts → ts.length ≤ low.maxDepth) →
      ¬ TooDeep (low.statement text) ∧ ¬ TooDeep (low.concept text) ∧
        ¬ TooDeep (low.role text)) := by
  have statement := relaxes_statementOfChars base limit text.toList
  have concept := relaxes_text (relaxes_conceptOfTokens base limit) text.toList
  have role := relaxes_text (relaxes_roleOfTokens base limit) text.toList
  refine ⟨statement.same, concept.same, role.same,
    (relaxes_ontology base limit text).same, fun few => ?_⟩
  have enough : ¬ Exceeds low.maxDepth text.toList := by
    intro exceeds
    obtain ⟨ts, cut, many⟩ := exceeds
    exact Nat.not_lt.2 (few ts cut) many
  exact ⟨mt statement.deep enough, mt concept.deep enough,
    mt role.deep enough⟩

/-- One complement is read alike under two limits, and so is a document that
fails on its second line. Two complements are too deep for the lower limit. For
the higher one they cannot be, since there are five tokens. -/
theorem depth_limit_raises_complements :
    let low : Reader := ⟨"e:#", 1⟩
    let high : Reader := ⟨"e:#", 5⟩
    low.base = high.base ∧ low.maxDepth ≤ high.maxDepth ∧
    ¬ TooDeep (low.statement "¬A ⊑ B") ∧
    high.statement "¬A ⊑ B" = low.statement "¬A ⊑ B" ∧
    low.ontology "¬A ⊑ B\n(¬¬A(b)" = .error ⟨.unbalanced, "(¬¬A(b)".toList⟩ ∧
    high.ontology "¬A ⊑ B\n(¬¬A(b)" = low.ontology "¬A ⊑ B\n(¬¬A(b)" ∧
    low.statement "¬¬A ⊑ B" = .error ⟨.tooDeep, ['A']⟩ ∧
    (∀ ts, tokens "¬¬A ⊑ B".toList = .ok ts → ts.length ≤ high.maxDepth) ∧
    ¬ TooDeep (high.statement "¬¬A ⊑ B") := by
  intro low high
  have base : low.base = high.base := rfl
  have limit : low.maxDepth ≤ high.maxDepth := by decide
  have flat : low.statement "¬A ⊑ B" =
      .ok (.plain (.subClassOf (.compl (.atom ⟨"e:#A"⟩))
        (.atom ⟨"e:#B"⟩))) := by
    decide +kernel
  have shallow : ¬ TooDeep (low.statement "¬A ⊑ B") := by
    rw [flat]
    exact id
  have failed : low.ontology "¬A ⊑ B\n(¬¬A(b)" =
      .error ⟨.unbalanced, "(¬¬A(b)".toList⟩ := by
    decide +kernel
  have other : ¬ TooDeep (low.ontology "¬A ⊑ B\n(¬¬A(b)") := by
    rw [failed]
    exact ReadError.Cause.noConfusion
  have five : (tokens "¬¬A ⊑ B".toList).map List.length = .ok 5 := by
    decide +kernel
  have few (ts : List Token) (cut : tokens "¬¬A ⊑ B".toList = .ok ts) :
      ts.length ≤ high.maxDepth := by
    rw [cut] at five
    exact Nat.le_of_eq (Except.ok.inj five)
  have same := depth_limit_raises base limit
  have nested := @depth_limit_raises high high rfl (Nat.le_refl _) "¬¬A ⊑ B"
  exact ⟨base, limit, shallow, (same _).1 shallow, failed,
    (same _).2.2.2.1 other, by decide +kernel, few, (nested.2.2.2.2 few).1⟩

end Reader

end ContextDL
