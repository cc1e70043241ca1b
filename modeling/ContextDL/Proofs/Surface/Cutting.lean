/-
Cutting the tokens of a statement into parts.

Each cut is specified by what it puts together again: the tag and the body
(`Token.cutTag_eq_ok`), the parts between marks (`Token.Splits`), the last
group and what stands before it (`Token.splitGroup_eq_some`).

# Two scans for one parenthesis

The last group is looked for from the right, and a group is balanced when read
from the left. The two meet in the depth in front of some lexemes: if the
lexemes are balanced from a depth at all, it is the only such depth
(`Reader.isBalanced_unique`). So the scan from the right, which keeps count of
a depth from which the group so far is balanced, knows the depth that a scan
from the left would have reached.

# Passing over nested sequences

The cut at inclusion marks passes over nested tokens as a whole
(`Token.splitInclusion_append`). Where the parts of a statement are nested, it
therefore finds the mark between two concepts, and none in an assertion.
-/
import ContextDL.Proofs.Surface.Brackets

namespace ContextDL

-- ==================================================================== balances

namespace Reader

variable {α : Type} [DecidableEq α] {opening closing : α}

/-- There is one depth at most from which a sequence is balanced. -/
theorem isBalanced_unique {d e : Nat} {xs : List α}
    (hd : isBalanced opening closing d xs = true)
    (he : isBalanced opening closing e xs = true) : d = e := by
  induction xs generalizing d e with
  | nil =>
    simp only [isBalanced, beq_iff_eq] at hd he
    omega
  | cons x xs ih =>
    by_cases ho : x = opening
    · subst ho
      rw [isBalanced_opening] at hd he
      have := ih hd he
      omega
    by_cases hc : x = closing
    · subst hc
      cases d with
      | zero => rw [isBalanced_zero_closing ho] at hd; cases hd
      | succ d =>
        cases e with
        | zero => rw [isBalanced_zero_closing ho] at he; cases he
        | succ e =>
          rw [isBalanced_closing ho] at hd he
          rw [ih hd he]
    · rw [isBalanced_other ho hc] at hd he
      exact ih hd he

/-- What closes one more than is open cannot go on to be balanced. -/
theorem isBalanced_append_eq_false {d : Nat} {xs ys : List α}
    (h : isBalanced opening closing (d + 1) xs = true) :
    isBalanced opening closing d (xs ++ ys) = false := by
  induction xs generalizing d with
  | nil => simp [isBalanced] at h
  | cons x xs ih =>
    rw [List.cons_append]
    by_cases ho : x = opening
    · subst ho
      rw [isBalanced_opening] at h ⊢
      exact ih h
    by_cases hc : x = closing
    · subst hc
      rw [isBalanced_closing ho] at h
      cases d with
      | zero => exact isBalanced_zero_closing ho _
      | succ d =>
        rw [isBalanced_closing ho]
        exact ih h
    · rw [isBalanced_other ho hc] at h ⊢
      exact ih h

/-- The end of a balanced sequence is balanced from some depth. -/
theorem exists_isBalanced_of_append {d : Nat} {xs ys : List α}
    (h : isBalanced opening closing d (xs ++ ys) = true) :
    ∃ e, isBalanced opening closing e ys = true := by
  induction xs generalizing d with
  | nil => exact ⟨d, h⟩
  | cons x xs ih =>
    rw [List.cons_append] at h
    by_cases ho : x = opening
    · subst ho
      rw [isBalanced_opening] at h
      exact ih h
    by_cases hc : x = closing
    · subst hc
      cases d with
      | zero => rw [isBalanced_zero_closing ho] at h; cases h
      | succ d =>
        rw [isBalanced_closing ho] at h
        exact ih h
    · rw [isBalanced_other ho hc] at h
      exact ih h

end Reader

namespace Token

-- ======================================================================== tags

/-- The lexemes of a tag, if there is one. -/
def tagLexemes : Option (List Char) → List Lexeme
  | none => []
  | some text => [.tag, .name text]

/-- At the tag mark, one name is all that is left. -/
theorem cutTag_at_mark {t : Token} (ht : t.lexeme = .tag) {ts body : List Token}
    {tag : Option (List Char)} :
    cutTag (t :: ts) = .ok (body, tag) ↔
      body = [] ∧ (t :: ts).map Token.lexeme = tagLexemes tag := by
  rw [cutTag.eq_def]
  dsimp only
  rw [if_pos ht]
  constructor
  · intro h
    split at h
    · cases h
      exact ⟨rfl, by simp [ht, tagLexemes]⟩
    · cases h
  · intro h
    obtain ⟨rfl, hlexemes⟩ := h
    cases tag with
    | none => cases hlexemes
    | some text =>
      obtain ⟨⟨gap, l⟩, rfl, hl⟩ :=
        List.map_eq_singleton_iff.1 (List.cons.inj hlexemes).2
      cases hl
      rfl

/-- What is cut off is the tag, and what is left holds no tag mark. -/
theorem cutTag_eq_ok {ts body : List Token} {tag : Option (List Char)} :
    cutTag ts = .ok (body, tag) ↔
      ∃ tail, ts = body ++ tail ∧ .tag ∉ body.map Token.lexeme ∧
        tail.map Token.lexeme = tagLexemes tag := by
  induction ts generalizing body tag with
  | nil =>
    constructor
    · intro h
      cases h
      exact ⟨[], rfl, by simp, rfl⟩
    · intro h
      obtain ⟨tail, hts, -, htail⟩ := h
      obtain ⟨rfl, rfl⟩ := List.append_eq_nil_iff.1 hts.symm
      cases tag with
      | none => rfl
      | some text => cases htail
  | cons t ts ih =>
    by_cases ht : t.lexeme = .tag
    · rw [cutTag_at_mark ht]
      constructor
      · intro h
        obtain ⟨rfl, hlexemes⟩ := h
        exact ⟨t :: ts, rfl, by simp, hlexemes⟩
      · intro h
        obtain ⟨tail, hts, hbody, htail⟩ := h
        cases body with
        | nil => exact ⟨rfl, by rw [hts]; exact htail⟩
        | cons s body =>
          cases hts
          simp [ht] at hbody
    · rw [cutTag.eq_def]
      dsimp only
      rw [if_neg ht, bind_eq_ok]
      constructor
      · intro h
        obtain ⟨⟨front, tag⟩, hfront, hend⟩ := h
        cases hend
        obtain ⟨tail, rfl, hbody, htail⟩ := ih.1 hfront
        refine ⟨tail, rfl, ?_, htail⟩
        rw [List.map_cons, List.mem_cons, not_or]
        exact ⟨Ne.symm ht, hbody⟩
      · intro h
        obtain ⟨tail, hts, hbody, htail⟩ := h
        cases body with
        | nil =>
          cases hts
          cases tag with
          | none => cases htail
          | some text => exact absurd (List.cons.inj htail).1 ht
        | cons s body =>
          cases hts
          rw [List.map_cons, List.mem_cons, not_or] at hbody
          exact ⟨(body, tag), ih.2 ⟨tail, rfl, hbody.2, htail⟩, rfl⟩

-- ======================================================================= marks

/-- The parts of some tokens between some of the marks of one kind. -/
inductive Splits (mark : Lexeme) : List Token → List (List Token) → Prop where
  | nil : Splits mark [] [[]]
  | cut {t : Token} {ts : List Token} {parts : List (List Token)}
      (ht : t.lexeme = mark) (rest : Splits mark ts parts) :
      Splits mark (t :: ts) ([] :: parts)
  | keep {t : Token} {ts part : List Token} {parts : List (List Token)}
      (rest : Splits mark ts (part :: parts)) :
      Splits mark (t :: ts) ((t :: part) :: parts)

theorem Splits.ne_nil {mark : Lexeme} {ts : List Token} {parts : List (List Token)}
    (h : Splits mark ts parts) : parts ≠ [] := by
  cases h <;> exact List.cons_ne_nil _ _

/-- One part is all there is. -/
theorem Splits.eq_of_singleton {mark : Lexeme} {ts part : List Token}
    (h : Splits mark ts [part]) : ts = part := by
  generalize hparts : [part] = parts at h
  induction h generalizing part with
  | nil => cases hparts; rfl
  | cut _ rest => cases hparts; exact absurd rfl rest.ne_nil
  | keep _ ih => cases hparts; rw [ih rfl]

/-- Two parts have a mark between them. -/
theorem Splits.exists_of_pair {mark : Lexeme} {ts p q : List Token}
    (h : Splits mark ts [p, q]) : ∃ t, t.lexeme = mark ∧ ts = p ++ t :: q := by
  generalize hparts : [p, q] = parts at h
  induction h generalizing p with
  | nil => cases hparts
  | @cut t _ _ ht rest =>
    cases hparts
    exact ⟨t, ht, by rw [rest.eq_of_singleton]; rfl⟩
  | keep _ ih =>
    cases hparts
    obtain ⟨t, ht, rfl⟩ := ih rfl
    exact ⟨t, ht, rfl⟩

theorem splits_splitCommas (ts : List Token) :
    Splits .comma ts (splitCommas ts) := by
  induction ts with
  | nil => exact .nil
  | cons t ts ih =>
    rw [splitCommas]
    split
    · next part parts hparts =>
      rw [hparts] at ih
      split
      · next ht => exact .cut ht ih
      · exact .keep ih
    · next h => exact absurd h ih.ne_nil

theorem splits_splitInclusion (depth : Nat) (ts : List Token) :
    Splits .inclusion ts (splitInclusion depth ts) := by
  induction ts generalizing depth with
  | nil => exact .nil
  | cons t ts ih =>
    rw [splitInclusion]
    split
    · next h =>
      rw [Bool.and_eq_true, decide_eq_true_eq] at h
      exact .cut h.1 (ih _)
    · split
      · next hparts => exact .keep (hparts ▸ ih _)
      · next h => exact absurd h (ih _).ne_nil

/-- A token that is no inclusion mark belongs to the first part. -/
theorem splitInclusion_cons {t : Token} (ht : t.lexeme ≠ .inclusion)
    (depth : Nat) (rest : List Token) :
    splitInclusion depth (t :: rest) =
      (splitInclusion (openAfter depth t.lexeme) rest).modifyHead (t :: ·) := by
  rw [splitInclusion]
  simp only [ht, decide_false, Bool.false_and, Bool.false_eq_true, if_false]
  split
  · next h => rw [h]; rfl
  · next h => exact absurd h (splits_splitInclusion _ _).ne_nil

theorem openAfter_of_isPlain {l : Lexeme} (h : l.IsPlain) (depth : Nat) :
    openAfter depth l = depth := by
  cases l <;> first | rfl | exact absurd h (by decide)

/-- A scan that passes over two sequences passes over a pair of brackets
around the first and in front of the second. -/
theorem splitInclusion_enclosed {a b : Token} {front back : List Token}
    {depth : Nat} (ha : a.lexeme ≠ .inclusion) (hb : b.lexeme ≠ .inclusion)
    (same : openAfter (openAfter depth a.lexeme) b.lexeme = depth)
    (inner : ∀ depth rest, splitInclusion depth (front ++ rest) =
      (splitInclusion depth rest).modifyHead (front ++ ·))
    (others : ∀ depth rest, splitInclusion depth (back ++ rest) =
      (splitInclusion depth rest).modifyHead (back ++ ·))
    (rest : List Token) :
    splitInclusion depth (a :: front ++ b :: back ++ rest) =
      (splitInclusion depth rest).modifyHead
        (a :: front ++ b :: back ++ ·) := by
  rw [List.append_assoc, List.cons_append, List.cons_append,
    splitInclusion_cons ha, inner, splitInclusion_cons hb, same, others]
  simp [List.modifyHead_modifyHead, Function.comp_def]

/-- Nested tokens belong to the first part. -/
theorem splitInclusion_append {ls : List Lexeme} (nested : Lexeme.IsNested ls)
    {ts : List Token} (hts : ts.map Token.lexeme = ls) (depth : Nat)
    (rest : List Token) :
    splitInclusion depth (ts ++ rest) =
      (splitInclusion depth rest).modifyHead (ts ++ ·) := by
  induction nested generalizing ts depth rest with
  | nil =>
    cases List.map_eq_nil_iff.1 hts
    show _ = List.modifyHead id _
    rw [List.modifyHead_id]
    rfl
  | plain isPlain _ ih =>
    obtain ⟨t, ts, rfl, rfl, hback⟩ := List.map_eq_cons_iff.1 hts
    have ht : t.lexeme ≠ .inclusion := by
      intro h
      exact absurd isPlain (by rw [h]; decide)
    rw [List.cons_append, splitInclusion_cons ht, openAfter_of_isPlain isPlain,
      ih hback, List.modifyHead_modifyHead]
    rfl
  | parens _ _ inner others =>
    obtain ⟨front, back, rfl, hfront, hback⟩ := List.map_eq_append_iff.1 hts
    obtain ⟨a, front, rfl, ha, hfront⟩ := List.map_eq_cons_iff.1 hfront
    obtain ⟨b, back, rfl, hb, hback⟩ := List.map_eq_cons_iff.1 hback
    exact splitInclusion_enclosed (by rw [ha]; decide) (by rw [hb]; decide)
      (by rw [ha, hb]; rfl) (inner hfront) (others hback) rest
  | braces _ _ inner others =>
    obtain ⟨front, back, rfl, hfront, hback⟩ := List.map_eq_append_iff.1 hts
    obtain ⟨a, front, rfl, ha, hfront⟩ := List.map_eq_cons_iff.1 hfront
    obtain ⟨b, back, rfl, hb, hback⟩ := List.map_eq_cons_iff.1 hback
    exact splitInclusion_enclosed (by rw [ha]; decide) (by rw [hb]; decide)
      (by rw [ha, hb]; rfl) (inner hfront) (others hback) rest

-- ====================================================================== groups

theorem openGroup_closing {t : Token} (ht : t.lexeme = .closeParen)
    (depth : Nat) (group before : List Token) :
    openGroup depth group (t :: before) =
      openGroup (depth + 1) (t :: group) before := by
  simp only [openGroup, ht]

theorem openGroup_other {t : Token} (hopen : t.lexeme ≠ .openParen)
    (hclose : t.lexeme ≠ .closeParen) (depth : Nat)
    (group before : List Token) :
    openGroup depth group (t :: before) =
      openGroup depth (t :: group) before := by
  rw [openGroup.eq_def]
  dsimp only
  split
  · next h => exact absurd h hclose
  · next h => exact absurd h hopen
  · rfl

/-- The group that is found is balanced, if the part of it that is known is
balanced from the depth of the scan. -/
theorem openGroup_sound {before head group : List Token} :
    ∀ {depth : Nat} {known : List Token},
      Reader.isBalanced .openParen .closeParen depth
          (known.map Token.lexeme) = true →
        openGroup depth known before = some (head, group) →
          ∃ a, a.lexeme = .openParen ∧
            before.reverse ++ known = head ++ a :: group ∧
            Reader.isBalanced .openParen .closeParen 0
              (group.map Token.lexeme) = true := by
  induction before with
  | nil =>
    intro depth known _ h
    cases h
  | cons t before ih =>
    intro depth known balanced h
    rw [List.reverse_cons, List.append_assoc, List.singleton_append]
    by_cases hclose : t.lexeme = .closeParen
    · rw [openGroup_closing hclose] at h
      refine ih ?_ h
      rwa [List.map_cons, hclose, Reader.isBalanced_closing (by decide)]
    by_cases hopen : t.lexeme = .openParen
    · rw [openGroup.eq_def] at h
      simp only [hopen] at h
      cases depth with
      | zero =>
        cases h
        exact ⟨t, hopen, rfl, balanced⟩
      | succ depth =>
        refine ih ?_ h
        rwa [List.map_cons, hopen, Reader.isBalanced_opening]
    · rw [openGroup_other hopen hclose] at h
      refine ih ?_ h
      rwa [List.map_cons, Reader.isBalanced_other hopen hclose]

/-- A balanced group is found, whatever part of it is known: the depth of the
scan is the one from which that part is balanced. -/
theorem openGroup_complete {a : Token} (ha : a.lexeme = .openParen)
    (before : List Token) {front : List Token} :
    ∀ {depth : Nat} {known : List Token},
      Reader.isBalanced .openParen .closeParen depth
          (known.map Token.lexeme) = true →
        Reader.isBalanced .openParen .closeParen 0
            ((front.reverse ++ known).map Token.lexeme) = true →
          openGroup depth known (front ++ a :: before) =
            some (before.reverse, front.reverse ++ known) := by
  induction front with
  | nil =>
    intro depth known balanced whole
    obtain rfl := Reader.isBalanced_unique balanced whole
    rw [List.nil_append, openGroup, ha]
    rfl
  | cons t front ih =>
    intro depth known balanced whole
    rw [List.reverse_cons, List.append_assoc, List.singleton_append] at whole ⊢
    rw [List.cons_append]
    by_cases hclose : t.lexeme = .closeParen
    · rw [openGroup_closing hclose]
      refine ih ?_ whole
      rwa [List.map_cons, hclose, Reader.isBalanced_closing (by decide)]
    by_cases hopen : t.lexeme = .openParen
    · rw [openGroup.eq_def]
      simp only [hopen]
      cases depth with
      | zero =>
        -- a depth in front of the parenthesis would have to be below zero
        rw [List.map_append] at whole
        obtain ⟨e, he⟩ := Reader.exists_isBalanced_of_append whole
        rw [List.map_cons, hopen, Reader.isBalanced_opening] at he
        cases Reader.isBalanced_unique balanced he
      | succ depth =>
        refine ih ?_ whole
        rwa [List.map_cons, hopen, Reader.isBalanced_opening]
    · rw [openGroup_other hopen hclose]
      refine ih ?_ whole
      rwa [List.map_cons, Reader.isBalanced_other hopen hclose]

/-- The last group of some tokens, and what stands before it. -/
theorem splitGroup_eq_some {ts head group : List Token} :
    splitGroup ts = some (head, group) ↔
      ∃ a b, ts = head ++ a :: group ++ [b] ∧ a.lexeme = .openParen ∧
        b.lexeme = .closeParen ∧
        Reader.isBalanced .openParen .closeParen 0
          (group.map Token.lexeme) = true := by
  constructor
  · intro h
    rw [splitGroup] at h
    split at h
    · next b before hts =>
      split at h
      · next hb =>
        obtain ⟨a, ha, hgroup, balanced⟩ := openGroup_sound rfl h
        rw [List.append_nil] at hgroup
        refine ⟨a, b, ?_, ha, hb, balanced⟩
        rw [← hgroup, ← List.reverse_cons, ← hts, List.reverse_reverse]
      · cases h
    · cases h
  · intro h
    obtain ⟨a, b, rfl, ha, hb, balanced⟩ := h
    have whole : Reader.isBalanced .openParen .closeParen 0
        ((group.reverse.reverse ++ []).map Token.lexeme) = true := by
      rwa [List.reverse_reverse, List.append_nil]
    have none : Reader.isBalanced .openParen .closeParen 0
        (([] : List Token).map Token.lexeme) = true := rfl
    have found := openGroup_complete ha head.reverse none whole
    rw [splitGroup]
    simpa [hb] using found

/-- The check of a head is the one that the grammar makes. -/
theorem isSingle_iff {ts : List Token} :
    isSingle ts = true ↔ Grammar.IsConceptHead ts := by
  unfold isSingle Grammar.IsConceptHead
  split
  · next gap text => simp
  · simp
  · simp
  · next hname htop hbottom =>
    constructor
    · intro h
      split at h
      · next group hgroup =>
        obtain ⟨a, b, hts, ha, hb, balanced⟩ := splitGroup_eq_some.1 hgroup
        exact Or.inr (Or.inr (Or.inr ⟨a, group, b, hts, ha, hb, balanced⟩))
      · cases h
    · intro h
      rcases h with ⟨text, h⟩ | h | h | ⟨a, group, b, hts, ha, hb, balanced⟩
      · obtain ⟨⟨gap, l⟩, rfl, hl⟩ := List.map_eq_singleton_iff.1 h
        cases hl
        exact absurd rfl (hname gap text)
      · obtain ⟨⟨gap, l⟩, rfl, hl⟩ := List.map_eq_singleton_iff.1 h
        cases hl
        exact absurd rfl (htop gap)
      · obtain ⟨⟨gap, l⟩, rfl, hl⟩ := List.map_eq_singleton_iff.1 h
        cases hl
        exact absurd rfl (hbottom gap)
      · have found : splitGroup ts = some ([], group) :=
          splitGroup_eq_some.2 ⟨a, b, hts, ha, hb, balanced⟩
        rw [found]

end Token

end ContextDL
