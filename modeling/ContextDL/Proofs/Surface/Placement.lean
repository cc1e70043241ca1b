/-
Where the tokens of a text are.

The placed tokens of a text are its tokens at their places
(`Placed.quotes_scan`): the count of bytes that is kept while a text is cut is
the size of what was cut off before. So no slice that is taken on the way is
missing, and an error quotes a part of the text. Every reader by positions is
compared so with the reader it follows, in one relation (`Quotes`).

Tokens stand in a text (`Stands`) if they can be read off it behind some front,
gaps included, and are placed from the end of this front on. Any tokens next
to each other among them stand in the text again, behind a longer front; this
is all that is needed of places.

# Ranges

`Placed.IsLaid` says what ranges the placed tokens have: they are not empty, on
boundaries of characters, one behind the other, and every character outside of
them is blank.
-/
import Mathlib.Data.List.Forall2
import ContextDL.Proofs.Surface.Spelling
import ContextDL.Surface.Positional

namespace ContextDL

open Text (size)

variable {α β γ δ : Type} {text : List Char}

-- ==================================================================== outcomes

/-- A run that takes all its slices, and ends as another run does: with a
related value, or with the same error, which quotes a part of the text. -/
inductive Quotes (text : List Char) (R : α → β → Prop) :
    Checked α → Except ReadError β → Prop where
  | ok {a : α} {b : β} (h : R a b) : Quotes text R (pure a) (.ok b)
  | error {e : ReadError} (inside : e.fragment <:+: text) :
      Quotes text R (throw e) (.error e)

namespace Quotes

variable {R : α → β → Prop} {S : γ → δ → Prop}

theorem bind {x : Checked α} {y : Except ReadError β} {f : α → Checked γ}
    {g : β → Except ReadError δ} (first : Quotes text R x y)
    (next : ∀ a b, R a b → y = .ok b → Quotes text S (f a) (g b)) :
    Quotes text S (x >>= f) (y >>= g) := by
  cases first with
  | ok h => exact next _ _ h rfl
  | error inside => exact .error inside

/-- A relation can be replaced by one that holds of the values of the other
run. -/
theorem imp {R' : α → β → Prop} {x : Checked α} {y : Except ReadError β}
    (h : Quotes text R x y) (more : ∀ a b, R a b → y = .ok b → R' a b) :
    Quotes text R' x y := by
  cases h with
  | ok h => exact .ok (more _ _ h rfl)
  | error inside => exact .error inside

theorem mapM {f : α → Checked γ} {g : β → Except ReadError δ} {xs : List α}
    {ys : List β} (members : List.Forall₂ R xs ys)
    (each : ∀ a b, R a b → Quotes text S (f a) (g b)) :
    Quotes text (List.Forall₂ S) (xs.mapM f) (ys.mapM g) := by
  induction members with
  | nil => exact .ok .nil
  | cons h _ ih =>
    rw [List.mapM_cons, List.mapM_cons]
    refine (each _ _ h).bind fun c d hcd _ => ?_
    exact ih.bind fun cs ds hs _ => .ok (.cons hcd hs)

/-- What quotes a part of a text quotes the text. -/
theorem of_isInfix {part : List Char} {x : Checked α} {y : Except ReadError β}
    (h : Quotes part R x y) (inside : part <:+: text) : Quotes text R x y := by
  cases h with
  | ok h => exact .ok h
  | error quoted => exact .error (quoted.trans inside)

end Quotes

/-- A slice of a text is there, and known. -/
def Takes (text : List Char) (x : Checked (List Char)) (fragment : List Char) :
    Prop :=
  x = pure fragment ∧ fragment <:+: text

/-- An error that quotes a slice. -/
theorem Takes.quotes {R : α → β → Prop} {x : Checked (List Char)}
    {fragment : List Char} (taken : Takes text x fragment)
    (cause : ReadError.Cause) :
    Quotes text R (do throw ⟨cause, ← x⟩) (.error ⟨cause, fragment⟩) := by
  obtain ⟨rfl, inside⟩ := taken
  exact .error inside

theorem takes_slice {front part back : List Char} {start stop : Nat}
    (around : text = front ++ part ++ back) (hstart : start = size front)
    (hstop : stop = size (front ++ part)) :
    Takes text (Checked.slice text start stop) part := by
  have found : Text.slice? text start stop = some part :=
    Text.slice?_eq_some.2 ⟨front, back, around, hstart, hstop⟩
  refine ⟨?_, front, back, around.symm⟩
  rw [Checked.slice, found]
  rfl

-- ====================================================================== places

namespace Placed

theorem locate_append (pos : Nat) (ts us : List Token) :
    locate pos (ts ++ us) =
      locate pos ts ++ locate (pos + size (Token.render ts)) us := by
  induction ts generalizing pos with
  | nil => rfl
  | cons t ts ih =>
    rw [List.cons_append, locate, locate, ih, List.cons_append]
    simp [Token.render, Nat.add_assoc]

theorem length_locate (pos : Nat) (ts : List Token) :
    (locate pos ts).length = ts.length := by
  induction ts generalizing pos with
  | nil => rfl
  | cons t ts ih => rw [locate, List.length_cons, ih, List.length_cons]

end Placed

/-- Some tokens are read off a text behind a front, and placed there. -/
def Stands (text front : List Char) (ps : List Placed) (ts : List Token) :
    Prop :=
  (∃ back, text = front ++ Token.render ts ++ back) ∧
    ps = Placed.locate (size front) ts

namespace Stands

variable {front : List Char} {ps qs : List Placed} {ts us : List Token}

theorem length_eq (h : Stands text front ps ts) : ps.length = ts.length := by
  rw [h.2, Placed.length_locate]

/-- Tokens in two parts stand in a text part by part. -/
theorem split (h : Stands text front ps (ts ++ us)) :
    ∃ qs rs, ps = qs ++ rs ∧ Stands text front qs ts ∧
      Stands text (front ++ Token.render ts) rs us := by
  obtain ⟨⟨back, around⟩, rfl⟩ := h
  have rendered : Token.render (ts ++ us) =
      Token.render ts ++ Token.render us := by
    simp [Token.render]
  rw [rendered] at around
  refine ⟨_, _, Placed.locate_append _ ts us, ⟨⟨Token.render us ++ back, ?_⟩,
    rfl⟩, ⟨⟨back, ?_⟩, by rw [Text.size_append]⟩⟩
  · simpa using around
  · simpa using around

/-- The first token stands behind its gap, and the others behind it. -/
theorem cons {t : Token} (h : Stands text front ps (t :: ts)) :
    ∃ qs, ps = ⟨t.lexeme.kind, size (front ++ t.gap),
        size (front ++ t.gap ++ t.chars)⟩ :: qs ∧
      Stands text (front ++ t.gap ++ t.chars) qs ts := by
  obtain ⟨⟨back, around⟩, rfl⟩ := h
  refine ⟨Placed.locate (size (front ++ t.gap ++ t.chars)) ts, ?_, ⟨back, ?_⟩,
    rfl⟩
  · simp [Placed.locate, Nat.add_assoc]
  · rw [around]
    simp [Token.render]

/-- The text of the first token can be taken. -/
theorem takes_head {t : Token} (h : Stands text front ps (t :: ts)) :
    Takes text
      (Checked.slice text (size (front ++ t.gap))
        (size (front ++ t.gap ++ t.chars))) t.chars := by
  obtain ⟨_, -, ⟨back, around⟩, -⟩ := h.cons
  exact takes_slice
    (show text = (front ++ t.gap) ++ t.chars ++ (Token.render ts ++ back) by
      simpa using around) rfl rfl

end Stands

-- ==================================================================== scanning

/-- Blanks in front of a lexeme are its gap. -/
theorem Token.ofText_visible {gap rest : List Char} {c : Char}
    (blank : ∀ d ∈ gap, Text.isBlank d = true)
    (visible : Text.isBlank c = false) :
    ofText (gap ++ c :: rest) =
      match Lexeme.read c rest with
      | .error e => .error e
      | .ok (l, left) => (ofText left).map (⟨gap, l⟩ :: ·) := by
  have drop : (gap ++ c :: rest).dropWhile Text.isBlank = c :: rest := by
    rw [List.dropWhile_append_of_pos blank]
    simp [visible]
  have take : (gap ++ c :: rest).takeWhile Text.isBlank = gap := by
    rw [List.takeWhile_append_of_pos blank]
    simp [visible]
  rw [ofText]
  split
  · next h => rw [drop] at h; cases h
  · next d others h =>
    rw [drop] at h
    cases h
    rw [take]
    split
    · next first => rw [first]
    · next first => simp only [first]

theorem Token.ofText_blank {gap : List Char}
    (blank : ∀ d ∈ gap, Text.isBlank d = true) : ofText gap = .ok [] := by
  have drop : gap.dropWhile Text.isBlank = [] :=
    List.dropWhile_eq_nil_iff.2 blank
  rw [ofText]
  split
  · rfl
  · next h => rw [drop] at h; cases h

namespace Placed

/-- The tokens of the end of a text are placed while it is scanned. -/
def ScansFrom (text front left : List Char) : Prop :=
  Quotes text (fun ps ts => ps = locate (size front) ts)
    (scan text (size front) left) (Token.ofText left)

/-- A text that goes on with a gap and a visible character. -/
structure GoesOn (text front gap : List Char) (c : Char) (rest : List Char) :
    Prop where
  whole : text = front ++ gap ++ c :: rest
  blank : ∀ d ∈ gap, Text.isBlank d = true
  visible : Text.isBlank c = false

namespace GoesOn

variable {front gap rest : List Char} {c : Char}

/-- A lexeme is placed, and so is what is scanned behind it. -/
theorem quotes_lexeme (h : GoesOn text front gap c rest) {l : Lexeme}
    {left : List Char} (first : Lexeme.read c rest = .ok (l, left))
    (behind : ScansFrom text (front ++ gap ++ l.chars) left) {stop next : Nat}
    (hstop : stop = size (front ++ gap ++ l.chars))
    (hnext : next = size (front ++ gap ++ l.chars)) :
    Quotes text (fun ps ts => ps = locate (size front) ts)
      (do return ⟨l.kind, size (front ++ gap), stop⟩ :: (← scan text next left))
      (Token.ofText (gap ++ c :: rest)) := by
  rw [Token.ofText_visible h.blank h.visible, first, hstop, hnext]
  dsimp only
  unfold ScansFrom at behind
  generalize Token.ofText left = tokens at behind ⊢
  generalize scan text (size (front ++ gap ++ l.chars)) left = scanned
    at behind ⊢
  cases behind with
  | @ok ps ts placed =>
    refine .ok ?_
    rw [placed, locate]
    simp [Token.chars, Nat.add_assoc]
  | error inside => exact .error inside

/-- What stands in the text from the character on. -/
theorem takes (h : GoesOn text front gap c rest) (part : List Char)
    {back : List Char} (read : c :: rest = part ++ back) {stop : Nat}
    (hstop : stop = size (front ++ gap) + size part) :
    Takes text (Checked.slice text (size (front ++ gap)) stop) part :=
  takes_slice (show text = (front ++ gap) ++ part ++ back by
    rw [h.whole, read, List.append_assoc _ part]) rfl
    (by rw [hstop, Text.size_append _ part])

/-- A mark is placed. -/
theorem quotes_mark (h : GoesOn text front gap c rest) {l : Lexeme}
    (mark : Lexeme.ofMark? c = some l)
    (behind : ScansFrom text (front ++ gap ++ l.chars) rest) :
    Quotes text (fun ps ts => ps = locate (size front) ts)
      (scan text (size (front ++ gap)) (c :: rest))
      (Token.ofText (gap ++ c :: rest)) := by
  have first : Lexeme.read c rest = .ok (l, rest) := by
    unfold Lexeme.read
    rw [mark]
  have kind : l.kind = l := by
    unfold Lexeme.ofMark? at mark
    split at mark <;> cases mark <;> rfl
  have stop : size (front ++ gap) + c.utf8Size =
      size (front ++ gap ++ l.chars) := by
    rw [(Lexeme.of_ofMark? mark).1, Text.size_append _ [c]]
    simp
  have placed := h.quotes_lexeme first behind stop stop
  rw [kind] at placed
  rw [scan, mark]
  exact placed

/-- An inverse mark is told by the two characters behind a caret. -/
theorem quotes_caret (h : GoesOn text front gap '^' rest)
    (behind : ∀ left, rest = '-' :: '1' :: left →
      ScansFrom text (front ++ gap ++ Lexeme.inverse.chars) left) :
    Quotes text (fun ps ts => ps = locate (size front) ts)
      (scan text (size (front ++ gap)) ('^' :: rest))
      (Token.ofText (gap ++ '^' :: rest)) := by
  have mark : Lexeme.ofMark? '^' = none := rfl
  have after : Takes text
      (Checked.slice text (size (front ++ gap) + 1) (size text)) rest :=
    takes_slice (show text = (front ++ gap ++ ['^']) ++ rest ++ [] by
      simpa using h.whole) (by simp; rfl) (by simp [h.whole])
  have whole : Takes text
      (Checked.slice text (size (front ++ gap)) (size text)) ('^' :: rest) :=
    h.takes _ (List.append_nil _).symm (by simp [h.whole, Nat.add_assoc])
  rw [scan, mark]
  dsimp only
  rw [if_pos rfl, after.1, pure_bind]
  split
  · next inverse =>
    obtain ⟨left, rfl⟩ := List.isPrefixOf_iff_prefix.1 inverse
    have stop : size (front ++ gap) + 3 =
        size (front ++ gap ++ Lexeme.inverse.chars) := by
      rw [Text.size_append _ Lexeme.inverse.chars]
      rfl
    exact h.quotes_lexeme rfl (behind left rfl) stop stop
  · next other =>
    have first : Lexeme.read '^' rest = .error ⟨.unexpected,
        ('^' :: rest).takeWhile fun c => !Text.isBlank c⟩ := by
      unfold Lexeme.read
      rw [mark]
      dsimp only
      rw [if_pos rfl, List.takeWhile_cons_of_pos (by decide)]
      split
      · next left => exact absurd (by simp) other
      · rfl
    rw [whole.1, pure_bind, Token.ofText_visible h.blank h.visible, first]
    have word := h.takes _ (List.takeWhile_append_dropWhile
      (p := fun c => !Text.isBlank c)).symm rfl
    exact word.quotes .unexpected

/-- A run of name characters is placed as a name, or quoted. -/
theorem quotes_word (h : GoesOn text front gap c rest)
    (mark : Lexeme.ofMark? c = none) (caret : c ≠ '^')
    (behind : ScansFrom text
      (front ++ gap ++ c :: rest.takeWhile Lexeme.isNameChar)
      (rest.dropWhile Lexeme.isNameChar)) :
    Quotes text (fun ps ts => ps = locate (size front) ts)
      (scan text (size (front ++ gap)) (c :: rest))
      (Token.ofText (gap ++ c :: rest)) := by
  rw [scan, mark]
  dsimp only
  rw [if_neg caret, h.visible, if_neg Bool.false_ne_true]
  split
  · next named =>
    have word := h.takes (c :: rest.takeWhile Lexeme.isNameChar)
      (by rw [List.cons_append, List.takeWhile_append_dropWhile]) rfl
    rw [word.1, pure_bind]
    split
    · next proper =>
      have first : Lexeme.read c rest =
          .ok (.name (c :: rest.takeWhile Lexeme.isNameChar),
            rest.dropWhile Lexeme.isNameChar) := by
        unfold Lexeme.read
        rw [mark]
        dsimp only
        rw [if_neg caret, if_pos named, if_pos proper]
      have stop := Text.size_append (front ++ gap)
        (c :: rest.takeWhile Lexeme.isNameChar)
      exact h.quotes_lexeme first behind stop.symm stop.symm
    · next improper =>
      have first : Lexeme.read c rest =
          .error ⟨.badName, c :: rest.takeWhile Lexeme.isNameChar⟩ := by
        unfold Lexeme.read
        rw [mark]
        dsimp only
        rw [if_neg caret, if_pos named, if_neg improper]
      rw [Token.ofText_visible h.blank h.visible, first]
      exact .error word.2
  · next other =>
    have first : Lexeme.read c rest = .error ⟨.unexpected, [c]⟩ := by
      unfold Lexeme.read
      rw [mark]
      dsimp only
      rw [if_neg caret, if_neg other]
    rw [Token.ofText_visible h.blank h.visible, first]
    exact .error ⟨front ++ gap, rest, by rw [h.whole]; simp⟩

end GoesOn

/-- While a text is scanned, its tokens are placed. -/
theorem quotes_scan (front gap cs : List Char)
    (whole : text = front ++ gap ++ cs)
    (blank : ∀ c ∈ gap, Text.isBlank c = true) :
    Quotes text (fun ps ts => ps = locate (size front) ts)
      (scan text (size (front ++ gap)) cs) (Token.ofText (gap ++ cs)) := by
  match cs with
  | [] =>
    rw [List.append_nil, Token.ofText_blank blank, scan]
    exact .ok rfl
  | c :: rest =>
    -- a lexeme has no gap behind it, until the next blank is met
    have behind (word left : List Char) (read : c :: rest = word ++ left)
        (shorter : left.length < (c :: rest).length) :
        ScansFrom text (front ++ gap ++ word) left := by
      have others := quotes_scan (front ++ gap ++ word) [] left
        (by simp [whole, read]) (by simp)
      rwa [List.append_nil] at others
    cases visible : Text.isBlank c with
    | true =>
      have more := quotes_scan front (gap ++ [c]) rest (by simpa using whole)
        (by simpa [or_imp, forall_and] using ⟨blank, visible⟩)
      have mark : Lexeme.ofMark? c = none := by
        cases h : Lexeme.ofMark? c with
        | none => rfl
        | some l => simp [Lexeme.isBlank_eq_false_of_ofMark? h] at visible
      have caret : c ≠ '^' := by
        rintro rfl
        exact absurd visible (by decide)
      rw [scan, mark]
      dsimp only
      rw [if_neg caret, if_pos visible]
      simpa [Nat.add_assoc] using more
    | false =>
      have goesOn : GoesOn text front gap c rest := ⟨whole, blank, visible⟩
      cases mark : Lexeme.ofMark? c with
      | some l =>
        obtain ⟨chars, -⟩ := Lexeme.of_ofMark? mark
        exact goesOn.quotes_mark mark
          (behind _ rest (by rw [chars]; rfl) (by simp))
      | none =>
        by_cases caret : c = '^'
        · subst caret
          refine goesOn.quotes_caret fun left hleft => ?_
          exact behind _ left (by rw [hleft]; rfl) (by simp [hleft]; omega)
        · refine goesOn.quotes_word mark caret (behind _ _ ?_ ?_)
          · rw [List.cons_append, List.takeWhile_append_dropWhile]
          · have := (List.dropWhile_suffix (l := rest)
              Lexeme.isNameChar).length_le
            simp
            omega
termination_by cs.length
decreasing_by
  · exact shorter
  · exact Nat.lt_succ_self _

-- ====================================================================== ranges

/-- Ranges of bytes that are not empty, on boundaries of characters, one behind
the other, and with nothing but blanks outside of them. -/
structure IsLaid (text : List Char) (ps : List Placed) : Prop where
  nonempty : ∀ p ∈ ps, p.start < p.stop
  boundaries : ∀ p ∈ ps,
    Text.IsBoundary text p.start ∧ Text.IsBoundary text p.stop
  ordered : ps.Pairwise fun p q => p.stop ≤ q.start
  blank : ∀ front c back, text = front ++ c :: back →
    Text.isBlank c = false → ∃ p ∈ ps, p.start ≤ size front ∧
      size front + c.utf8Size ≤ p.stop

/-- A member of two joined sequences is in the first or in the second. -/
theorem append_eq_append_cons {xs ys mid back : List α} {a : α}
    (h : xs ++ ys = mid ++ a :: back) :
    (∃ rest, xs = mid ++ a :: rest) ∨
      ∃ rest, mid = xs ++ rest ∧ ys = rest ++ a :: back := by
  rcases List.append_eq_append_iff.1 h with ⟨rest, rfl, hys⟩ | ⟨rest, rfl, hys⟩
  · exact Or.inr ⟨rest, rfl, hys⟩
  · cases rest with
    | nil => exact Or.inr ⟨[], by simp, hys.symm⟩
    | cons b rest =>
      cases hys
      exact Or.inl ⟨rest, rfl⟩

theorem le_start_of_mem {pos : Nat} {ts : List Token} {p : Placed}
    (h : p ∈ locate pos ts) : pos ≤ p.start := by
  induction ts generalizing pos with
  | nil => cases h
  | cons t ts ih =>
    rcases List.mem_cons.1 h with rfl | h
    · exact Nat.le_add_right _ _
    · exact (Nat.le_trans (Nat.le_add_right _ _) (Nat.le_add_right _ _)).trans
        (ih h)

theorem lt_stop_of_mem {pos : Nat} {ts : List Token}
    (visible : ∀ t ∈ ts, t.chars ≠ []) {p : Placed} (h : p ∈ locate pos ts) :
    p.start < p.stop := by
  induction ts generalizing pos with
  | nil => cases h
  | cons t ts ih =>
    obtain ⟨first, others⟩ := List.forall_mem_cons.1 visible
    rcases List.mem_cons.1 h with rfl | h
    · have := mt Text.size_eq_zero.1 first
      dsimp only
      omega
    · exact ih others h

theorem pairwise_locate (pos : Nat) (ts : List Token) :
    (locate pos ts).Pairwise fun p q => p.stop ≤ q.start := by
  induction ts generalizing pos with
  | nil => exact .nil
  | cons t ts ih =>
    rw [locate, List.pairwise_cons]
    exact ⟨fun q hq => le_start_of_mem hq, ih _⟩

/-- Where a character of some tokens is not blank, there is a token. -/
theorem exists_mem_locate {ts : List Token} {tail : List Char}
    (gaps : ∀ t ∈ ts, ∀ d ∈ t.gap, Text.isBlank d = true)
    (blank : ∀ d ∈ tail, Text.isBlank d = true) {mid back : List Char}
    {c : Char} (read : Token.render ts ++ tail = mid ++ c :: back)
    (visible : Text.isBlank c = false) (pos : Nat) :
    ∃ p ∈ locate pos ts, p.start ≤ pos + size mid ∧
      pos + size mid + c.utf8Size ≤ p.stop := by
  have unseen {cs front rest : List Char}
      (all : ∀ d ∈ cs, Text.isBlank d = true)
      (h : cs = front ++ c :: rest) : False := by
    have := all c (h ▸ by simp)
    rw [visible] at this
    cases this
  induction ts generalizing mid pos with
  | nil => exact (unseen blank read).elim
  | cons t ts ih =>
    obtain ⟨first, others⟩ := List.forall_mem_cons.1 gaps
    have split : t.gap ++ (t.chars ++ (Token.render ts ++ tail)) =
        mid ++ c :: back := by
      rw [← read]
      simp [Token.render]
    rcases append_eq_append_cons split with ⟨_, h⟩ | ⟨mid, rfl, inner⟩
    · exact (unseen first h).elim
    rcases append_eq_append_cons inner with ⟨rest, h⟩ | ⟨mid, rfl, behind⟩
    · refine ⟨_, List.mem_cons_self, ?_, ?_⟩
      · rw [Text.size_append]
        dsimp only
        omega
      · rw [h, Text.size_append, Text.size_append, Text.size_cons]
        dsimp only
        omega
    · obtain ⟨p, hp, h⟩ := ih others behind (pos + size t.gap + size t.chars)
      refine ⟨p, List.mem_cons_of_mem _ hp, ?_⟩
      simpa [Nat.add_assoc] using h

end Placed

/-- Tokens that stand in a text are between boundaries of it. -/
theorem Stands.isBoundary {front : List Char} {ps : List Placed}
    {ts : List Token} (h : Stands text front ps ts) {p : Placed}
    (hp : p ∈ ps) :
    Text.IsBoundary text p.start ∧ Text.IsBoundary text p.stop := by
  induction ts generalizing front ps with
  | nil =>
    rw [h.2] at hp
    cases hp
  | cons t ts ih =>
    obtain ⟨qs, rfl, others⟩ := h.cons
    have ⟨⟨back, around⟩, _⟩ := others
    rcases List.mem_cons.1 hp with rfl | hp
    · constructor
      · exact Text.isBoundary_iff.2 ⟨front ++ t.gap,
          t.chars ++ (Token.render ts ++ back), by simpa using around, rfl⟩
      · exact Text.isBoundary_iff.2 ⟨front ++ t.gap ++ t.chars,
          Token.render ts ++ back, by simpa using around, rfl⟩
    · exact ih others hp

/-- A lexeme that is proper is not written as nothing. -/
theorem Lexeme.IsProper.chars_ne_nil {l : Lexeme} (h : l.IsProper) :
    l.chars ≠ [] := by
  cases l with
  | name text => exact h.1
  | _ => exact List.cons_ne_nil _ _

/-- The tokens of a text stand in it from its start on. -/
theorem stands_of_ofText {ts : List Token} (cut : Token.ofText text = .ok ts) :
    Stands text [] (Placed.locate 0 ts) ts := by
  obtain ⟨⟨tail, -, whole⟩, -⟩ := Token.render_of_ofText cut
  exact ⟨⟨tail, whole⟩, rfl⟩

namespace Placed

/-- The tokens of a text are laid out in it. -/
theorem isLaid_locate {ts : List Token} (cut : Token.ofText text = .ok ts) :
    IsLaid text (locate 0 ts) := by
  obtain ⟨⟨tail, blank, whole⟩, sound⟩ := Token.render_of_ofText cut
  have chars : ∀ t ∈ ts, t.chars ≠ [] := fun t ht => (sound t ht).2.chars_ne_nil
  refine ⟨fun p => lt_stop_of_mem chars,
    fun p => (stands_of_ofText cut).isBoundary, pairwise_locate 0 ts,
    fun front c back read visible => ?_⟩
  have found := exists_mem_locate (fun t ht => (sound t ht).1) blank
    (whole.symm.trans read) visible 0
  simpa using found

/-- A text is cut as the other reader cuts it, into tokens that are laid out in
it. -/
theorem quotes_scan_whole (text : List Char) :
    Quotes text (fun ps ts => ps = locate 0 ts ∧ IsLaid text ps)
      (scan text 0 text) (Token.ofText text) := by
  refine (quotes_scan [] [] text rfl (by simp)).imp fun ps ts placed cut => ?_
  subst placed
  exact ⟨rfl, isLaid_locate cut⟩

end Placed

end ContextDL
