/-
Where a dual name is an IRI.

The mark of a dual name is put behind the last break of an IRI, or in front of
all of it. The break can stand anywhere: it may close the `//` in front of an
authority, or be part of a path, a query or a fragment. So the mark becomes a
piece of a scheme, of user info, of a host, of a path segment, of a query or of
a fragment, and in each of them its letters and its dot are allowed.

There is one place where this is not enough. A host in brackets is told by its
first character. If the last break of an IRI is the one in front of such a host,
the mark takes that place away from the bracket, and a bracket that does not
come first is an offence. This happens exactly if the local name begins with a
bracket (`Iri.isValid_dual_iff`): nowhere else may a bracket follow a break, for
behind user info it follows an `@`.

# Part by part

A check is asked about a text in two pieces, the first of which ends in a break.
Inside of the first piece nothing depends on the second (`Iri.skip_space`): a
part either ends there, and the rest is left to the next check, or it goes on to
the end of the piece, and then it goes on over the mark as well. `TakesMark` is
the statement that goes from check to check.
-/
import ContextDL.Dual
import ContextDL.Proofs.Iri.Address
import ContextDL.Proofs.Iri.Checking
import Mathlib.Data.List.TakeWhile

namespace ContextDL.Iri

-- ====================================================================== spaces

theorem IsSpace.tail {c : Char} {cs : List Char} (h : IsSpace (c :: cs)) :
    IsSpace cs := by
  cases cs with
  | nil => simp [IsSpace]
  | cons d ds => simpa [IsSpace, List.getLast?_cons_cons] using h

/-- A space goes on behind a character that is no break. -/
theorem IsSpace.ne_nil {c : Char} {cs : List Char} (h : IsSpace (c :: cs))
    (other : isBreak c = false) : cs ≠ [] := by
  rintro rfl
  have := h c rfl
  rw [other] at this
  cases this

/-- What has no break is no space, unless it is empty. -/
theorem IsSpace.not_noBreak {cs : List Char} (h : IsSpace cs)
    (nonempty : cs ≠ []) : ¬NoBreak cs := by
  intro none
  have last := h _ (List.getLast?_eq_some_getLast nonempty)
  rw [none _ (List.getLast_mem nonempty)] at last
  cases last

/-- A space behind the end of another text ends as they do together. -/
theorem IsSpace.of_append {cs ds : List Char} (h : IsSpace (cs ++ ds)) :
    IsSpace ds := by
  induction cs with
  | nil => exact h
  | cons c cs ih => exact ih h.tail

-- ================================================================ runs and marks

variable {allowed ends : Char → Bool} {xs zs : List Char}

theorem skip_allowed {c : Char} (goesOn : ¬ends c = true) (noEscape : c ≠ '%')
    (isAllowed : allowed c = true) (cs : List Char) :
    skip allowed ends (c :: cs) = skip allowed ends cs := by
  rw [skip.eq_def]
  simp [goesOn, noEscape, isAllowed]

theorem skip_escape {a b : Char} (goesOn : ¬ends '%' = true)
    (digits : (isHexDigit a && isHexDigit b) = true) (cs : List Char) :
    skip allowed ends ('%' :: a :: b :: cs) = skip allowed ends cs := by
  rw [skip.eq_def]
  simp only [goesOn, digits, if_true, if_false, Bool.false_eq_true]

/-- A part ends in a space, whatever follows the space, or it goes on behind
it. The escapes of a space are whole, because no break is a hexadecimal
digit. -/
theorem skip_space {rest : List Char} (space : IsSpace xs)
    (h : skip allowed ends (xs ++ zs) = .ok rest) :
    (∃ y ys, ends y = true ∧ IsSpace (y :: ys) ∧
      ∀ ws, skip allowed ends (xs ++ ws) = .ok (y :: ys ++ ws)) ∨
    ∀ ws, skip allowed ends (xs ++ ws) = skip allowed ends ws := by
  fun_induction skip allowed ends xs with
  | case1 => exact .inr fun _ => rfl
  | case2 c xs stop =>
    exact .inl ⟨c, xs, stop, space, fun ws => skip_stop stop _⟩
  | case3 a b xs digits goesOn ih =>
    have step (ws : List Char) :
        skip allowed ends ('%' :: a :: b :: xs ++ ws) =
          skip allowed ends (xs ++ ws) :=
      skip_escape goesOn digits _
    simp only [step] at h ⊢
    exact ih space.tail.tail.tail h
  | case4 a b xs digits goesOn =>
    rw [List.cons_append, List.cons_append, List.cons_append, skip.eq_def] at h
    simp [goesOn, digits] at h
  | case5 xs short goesOn =>
    -- the space ends in the middle of an escape, with a break for a digit
    obtain ⟨d, rfl⟩ : ∃ d, xs = [d] := by
      match xs, space.ne_nil (by decide), short with
      | [d], _, _ => exact ⟨d, rfl⟩
      | a :: b :: xs, _, short => exact (short a b xs rfl).elim
    have other : isHexDigit d = false := by
      have last : isBreak d = true := space d rfl
      rw [← Bool.not_eq_true]
      intro digit
      rw [isBreak_eq_false digit (by decide) (by decide)] at last
      cases last
    rw [List.cons_append, List.cons_append, List.nil_append,
      skip.eq_def] at h
    cases zs <;> simp [goesOn, other] at h
  | case6 c xs goesOn noEscape isAllowed ih =>
    have step (ws : List Char) :
        skip allowed ends (c :: xs ++ ws) = skip allowed ends (xs ++ ws) :=
      skip_allowed goesOn noEscape isAllowed _
    simp only [step] at h ⊢
    exact ih space.tail h
  | case7 c xs goesOn noEscape isAllowed =>
    rw [List.cons_append, skip.eq_def] at h
    simp [goesOn, noEscape, isAllowed] at h

-- ========================================================= checks with a mark

/-- Where a check accepts a space and a name behind it, it accepts the mark
between them exactly if the name does not open a bracket. -/
def TakesMark (check : List Char → Except Fault Unit) (xs zs : List Char) :
    Prop :=
  check (xs ++ zs) = .ok () →
    (check (xs ++ (dualMark ++ zs)) = .ok () ↔ zs.head? ≠ some '[')

/-- A check that hands what follows a space on to another check takes a mark
if that does. -/
theorem TakesMark.of_eq {check next : List Char → Except Fault Unit}
    {ys : List Char} (same : ∀ ws, check (xs ++ ws) = next (ys ++ ws))
    (h : TakesMark next ys zs) : TakesMark check xs zs := by
  unfold TakesMark
  rw [same, same]
  exact h

/-- A part whose characters include those of the mark, and no bracket, takes a
mark if what is checked behind it does. -/
theorem takesMark_part {next : List Char → Except Fault Unit}
    (mark : isRun allowed ends dualMark = true) (goesOn : ends '[' = false)
    (noBracket : allowed '[' = false) (space : IsSpace xs)
    (behind : ∀ y ys, ends y = true → IsSpace (y :: ys) →
      TakesMark next (y :: ys) zs) :
    TakesMark (fun cs => skip allowed ends cs >>= next) xs zs := by
  intro h
  obtain ⟨rest, part, others⟩ := bind_eq_ok.1 h
  rcases skip_space space part with ⟨y, ys, stop, hys, stops⟩ | through
  · dsimp only at h ⊢
    rw [stops] at h ⊢
    exact behind y ys stop hys h
  · rw [through] at part
    refine iff_of_true (bind_eq_ok.2 ⟨rest, ?_, others⟩) ?_
    · rw [through, skip_append mark, part]
    · intro bracket
      obtain ⟨cs, rfl⟩ := List.head?_eq_some_iff.1 bracket
      rw [skip.eq_def] at part
      simp [goesOn, noBracket] at part

/-- A text with the mark in front begins with a letter. -/
theorem head?_mark_ne (c : Char) (other : c ≠ 'D') (zs : List Char) :
    (dualMark ++ zs).head? ≠ some c := by
  have first : dualMark.head? = some 'D' := by decide
  rw [List.head?_append, first, Option.some_or, Ne, Option.some.injEq]
  exact other.symm

-- ============================================================== path and after

/-- A fragment goes on to the end. -/
theorem takesMark_checkFragment (space : IsSpace xs) :
    TakesMark checkFragment xs zs :=
  takesMark_part rfl rfl rfl space
    fun _ _ stop => nomatch stop

theorem takesMark_checkQuery (space : IsSpace xs) :
    TakesMark checkQuery xs zs := by
  refine takesMark_part rfl rfl rfl space fun y ys _ hys => ?_
  exact .of_eq (fun _ => rfl) (takesMark_checkFragment hys.tail)

theorem takesMark_checkTail {y : Char} {ys : List Char}
    (space : IsSpace (y :: ys)) : TakesMark checkTail (y :: ys) zs := by
  by_cases query : y = '?'
  · subst query
    exact .of_eq (fun _ => rfl) (takesMark_checkQuery space.tail)
  · refine .of_eq (fun ws => ?_) (takesMark_checkFragment space.tail)
    rw [List.cons_append, checkTail.eq_def]
    split
    · next same => exact absurd (List.cons.inj same).1 query
    · next same => rw [(List.cons.inj same).2]
    · next same => cases same

theorem takesMark_checkPath (space : IsSpace xs) : TakesMark checkPath xs zs :=
  takesMark_part rfl rfl rfl space
    fun _ _ _ => takesMark_checkTail

-- =================================================================== authority

/-- The digits behind a host end before the last break. -/
theorem takesMark_checkDigits (nonempty : xs ≠ []) (space : IsSpace xs) :
    TakesMark checkDigits xs zs := by
  induction xs with
  | nil => exact absurd rfl nonempty
  | cons c xs ih =>
    by_cases stop : endsAuthority c = true
    · refine .of_eq (fun ws => ?_) (takesMark_checkPath space)
      rw [List.cons_append, checkDigits, if_pos stop]
    · by_cases digit : c.isDigit = true
      · refine .of_eq (fun ws => ?_) (ih (space.ne_nil ?_) space.tail)
        · rw [List.cons_append, checkDigits, if_neg stop, if_pos digit]
        · exact isBreak_eq_false digit (by decide) (by decide)
      · intro h
        rw [List.cons_append, checkDigits, if_neg stop, if_neg digit] at h
        cases h

/-- Checks what follows a host that is not in brackets. -/
def checkAfterHost : List Char → Except Fault Unit
  | ':' :: rest => checkDigits rest
  | rest => checkPath rest

/-- Checks what follows a host in brackets. -/
def checkAfterBracket : List Char → Except Fault Unit
  | ':' :: rest => checkDigits rest
  | c :: rest =>
    if endsAuthority c then checkPath (c :: rest) else .error (.host c)
  | [] => .ok ()

theorem checkHost_of_head {cs : List Char} (plain : cs.head? ≠ some '[') :
    checkHost cs =
      skip isPlain (fun c => c == ':' || endsAuthority c) cs >>=
        checkAfterHost := by
  rw [checkHost.eq_def]
  split
  · next rest => exact absurd rfl plain
  · rfl

/-- A bracketed host is checked up to the first closing bracket. -/
theorem checkHost_bracket {inside : List Char} (first : ']' ∉ inside)
    (rest : List Char) :
    checkHost ('[' :: (inside ++ ']' :: rest)) =
      checkAddress inside >>= fun _ => checkAfterBracket rest := by
  have goesOn : ∀ c ∈ inside, (c != ']') = true := by
    intro c hc
    rw [bne_iff_ne]
    rintro rfl
    exact first hc
  rw [checkHost, List.span_eq_takeWhile_dropWhile,
    List.takeWhile_append_of_pos goesOn, List.dropWhile_append_of_pos goesOn,
    List.takeWhile_cons_of_neg (by decide),
    List.dropWhile_cons_of_neg (by decide), List.append_nil]
  rfl

/-- No break stands in a bracketed host. -/
theorem noBreak_of_checkHost {cs : List Char}
    (h : checkHost ('[' :: cs) = .ok ()) :
    ∃ inside rest, cs = inside ++ ']' :: rest ∧ ']' ∉ inside ∧
      NoBreak inside := by
  by_cases closed : ']' ∈ cs
  · obtain ⟨inside, rest, rfl, first⟩ := List.eq_append_cons_of_mem closed
    rw [checkHost_bracket first] at h
    obtain ⟨_, address, -⟩ := bind_eq_ok.1 h
    exact ⟨inside, rest, rfl, first, noBreak_of_checkAddress address⟩
  · have goesOn : ∀ c ∈ cs, (c != ']') = true := by
      intro c hc
      rw [bne_iff_ne]
      rintro rfl
      exact closed hc
    have nothing : cs.dropWhile (· != ']') = [] :=
      List.dropWhile_eq_nil_iff.2 goesOn
    rw [checkHost, List.span_eq_takeWhile_dropWhile, nothing] at h
    cases h

theorem takesMark_checkAfterHost {y : Char} {ys : List Char}
    (space : IsSpace (y :: ys)) : TakesMark checkAfterHost (y :: ys) zs := by
  by_cases colon : y = ':'
  · subst colon
    exact .of_eq (fun _ => rfl)
      (takesMark_checkDigits (space.ne_nil (by decide)) space.tail)
  · refine .of_eq (fun ws => ?_) (takesMark_checkPath space)
    rw [List.cons_append, checkAfterHost.eq_def]
    split
    · next same => exact absurd (List.cons.inj same).1 colon
    · rfl

theorem takesMark_checkAfterBracket {y : Char} {ys : List Char}
    (space : IsSpace (y :: ys)) :
    TakesMark checkAfterBracket (y :: ys) zs := by
  by_cases colon : y = ':'
  · subst colon
    exact .of_eq (fun _ => rfl)
      (takesMark_checkDigits (space.ne_nil (by decide)) space.tail)
  · have other (ws : List Char) : checkAfterBracket (y :: ws) =
        if endsAuthority y then checkPath (y :: ws) else .error (.host y) := by
      rw [checkAfterBracket.eq_def]
      split
      · next same => exact absurd (List.cons.inj same).1 colon
      · next same =>
        obtain ⟨rfl, rfl⟩ := List.cons.inj same
        rfl
      · next same => cases same
    by_cases stop : endsAuthority y = true
    · refine .of_eq (fun ws => ?_) (takesMark_checkPath space)
      rw [List.cons_append, other, if_pos stop]
    · intro h
      rw [List.cons_append, other, if_neg stop] at h
      cases h

/-- A host that is not in brackets takes a mark as any part does. -/
theorem takesMark_checkHost_plain (space : IsSpace xs)
    (plain : ∀ ws, ws = zs ∨ ws = dualMark ++ zs →
      (xs ++ ws).head? ≠ some '[') : TakesMark checkHost xs zs := by
  unfold TakesMark
  rw [checkHost_of_head (plain zs (.inl rfl)),
    checkHost_of_head (plain _ (.inr rfl))]
  exact takesMark_part rfl rfl rfl space
    fun _ _ _ => takesMark_checkAfterHost

/-- If a bracketed host begins in front of a space, its bracket is closed in the
space: without a closing bracket there, the break at the end of the space would
stand inside of the host. -/
theorem takesMark_checkHost_bracket (nonempty : xs ≠ []) (space : IsSpace xs) :
    TakesMark checkHost ('[' :: xs) zs := by
  intro h
  obtain ⟨inside, rest, whole, first, none⟩ := noBreak_of_checkHost h
  have within : ¬NoBreak xs := space.not_noBreak nonempty
  obtain ⟨front, rfl⟩ : ∃ front, xs = inside ++ ']' :: front := by
    rcases List.append_eq_append_iff.1 whole with
      ⟨more, rfl, -⟩ | ⟨front, rfl, behind⟩
    · exact absurd (fun c hc => none c (List.mem_append_left _ hc)) within
    · cases front with
      | nil => exact absurd (by simpa using none) within
      | cons b front => exact ⟨front, by rw [(List.cons.inj behind).1]⟩
  have shut (ws : List Char) :
      checkHost ('[' :: (inside ++ ']' :: front) ++ ws) =
        checkAddress inside >>= fun _ => checkAfterBracket (front ++ ws) := by
    rw [List.cons_append, List.append_assoc, List.cons_append,
      checkHost_bracket first]
  have address : checkAddress inside = .ok () := by
    rw [shut] at h
    obtain ⟨_, address, -⟩ := bind_eq_ok.1 h
    exact address
  have closed : IsSpace (']' :: front) := space.of_append
  obtain ⟨y, ys, rfl⟩ :=
    List.exists_cons_of_ne_nil (closed.ne_nil (by decide))
  refine TakesMark.of_eq (fun ws => ?_)
    (takesMark_checkAfterBracket closed.tail) h
  rw [shut, address]
  rfl

/-- In front of a host in brackets a mark is refused, and everywhere else it is
taken. -/
theorem takesMark_checkHost (space : IsSpace xs) : TakesMark checkHost xs zs := by
  cases xs with
  | nil =>
    by_cases bracket : zs.head? = some '['
    · intro _
      refine iff_of_false (fun h => ?_) fun other => other bracket
      obtain ⟨cs, rfl⟩ := List.head?_eq_some_iff.1 bracket
      rw [List.nil_append, checkHost_of_head (head?_mark_ne '[' (by decide) _),
        skip_append rfl, skip.eq_def] at h
      cases h
    · refine takesMark_checkHost_plain space fun ws hws => ?_
      rcases hws with rfl | rfl
      · exact bracket
      · exact head?_mark_ne '[' (by decide) _
  | cons c xs =>
    by_cases bracket : c = '['
    · subst bracket
      exact takesMark_checkHost_bracket (space.ne_nil (by decide)) space.tail
    · exact takesMark_checkHost_plain space fun _ _ => by simpa using bracket

/-- Reads an authority as user info. -/
def readUser (cs : List Char) : Except Fault (List Char) :=
  skip isUserChar (fun c => c == '@' || c == '[' || endsAuthority c) cs

theorem checkAuthority_of_user {cs rest : List Char}
    (user : readUser cs = .ok ('@' :: rest)) :
    checkAuthority cs = checkHost rest := by
  unfold checkAuthority
  rw [show skip _ _ cs = _ from user]
  rfl

theorem checkAuthority_of_host {cs rest : List Char}
    (user : readUser cs = .ok rest) (plain : rest.head? ≠ some '@') :
    checkAuthority cs = checkHost cs := by
  unfold checkAuthority
  rw [show skip _ _ cs = _ from user]
  cases rest with
  | nil => rfl
  | cons c rest =>
    have other : c ≠ '@' := by simpa using plain
    simp [bind, Except.bind, other]

/-- A mark that is put into user info is a part of it, and one that is put in
front of the host meets the host. -/
theorem takesMark_checkAuthority (space : IsSpace xs) :
    TakesMark checkAuthority xs zs := by
  intro h
  obtain ⟨rest, user, -⟩ := bind_eq_ok.1 h
  change readUser (xs ++ zs) = .ok rest at user
  rcases skip_space space user with ⟨y, ys, -, hys, stops⟩ | through
  · -- the user info, or the place where it is missed, is in the space
    revert h
    by_cases at' : y = '@'
    · subst at'
      exact TakesMark.of_eq (fun ws => checkAuthority_of_user (stops ws))
        (takesMark_checkHost hys.tail)
    · refine TakesMark.of_eq (fun ws => ?_) (takesMark_checkHost space)
      exact checkAuthority_of_host (stops ws) (by simpa using at')
  · have marked : readUser (xs ++ (dualMark ++ zs)) = .ok rest := by
      rw [← user]
      unfold readUser
      rw [through, through, skip_append rfl]
    by_cases at' : rest.head? = some '@'
    · obtain ⟨host, rfl⟩ := List.head?_eq_some_iff.1 at'
      rw [checkAuthority_of_user user] at h
      rw [checkAuthority_of_user marked]
      refine iff_of_true h fun bracket => ?_
      obtain ⟨cs, rfl⟩ := List.head?_eq_some_iff.1 bracket
      unfold readUser at user
      rw [through, skip_stop (by decide)] at user
      cases user
    · rw [checkAuthority_of_host user at'] at h
      rw [checkAuthority_of_host marked at']
      exact takesMark_checkHost space h

-- ======================================================================= whole

theorem checkHierarchy_of_path {cs : List Char}
    (path : ¬ ['/', '/'] <+: cs) : checkHierarchy cs = checkPath cs := by
  unfold checkHierarchy
  split
  · exact absurd ⟨_, rfl⟩ path
  · rfl

/-- Two slashes at the front stand in the space, if the name behind it does not
begin with one. -/
theorem slashes_of_append {ws : List Char} (nonempty : xs ≠ [])
    (plain : ws.head? ≠ some '/') (h : ['/', '/'] <+: xs ++ ws) :
    ['/', '/'] <+: xs := by
  match xs, nonempty, ws with
  | [_], _, [] => simp at h
  | [_], _, _ :: _ =>
    simp only [List.cons_append, List.nil_append, List.cons_prefix_cons] at h
    exact absurd (congrArg some h.2.1.symm) plain
  | _ :: _ :: _, _, _ =>
    simpa only [List.cons_append, List.cons_prefix_cons, List.nil_prefix,
      and_true] using h

theorem takesMark_checkHierarchy (nonempty : xs ≠ []) (space : IsSpace xs)
    (name : NoBreak zs) : TakesMark checkHierarchy xs zs := by
  by_cases slashes : ['/', '/'] <+: xs
  · obtain ⟨authority, rfl⟩ := slashes
    exact .of_eq (fun _ => rfl) (takesMark_checkAuthority space.tail.tail)
  · have path (ws : List Char) (plain : ws.head? ≠ some '/') :=
      checkHierarchy_of_path fun h => slashes (slashes_of_append nonempty plain h)
    have first : zs.head? ≠ some '/' := by
      intro slash
      have := name _ (List.mem_of_head? slash)
      cases this
    unfold TakesMark
    rw [path _ first, path _ (head?_mark_ne '/' (by decide) zs)]
    exact takesMark_checkPath space

/-- A scheme ends before the first break. -/
theorem afterScheme_space {rest : List Char} (nonempty : xs ≠ [])
    (space : IsSpace xs) (h : afterScheme (xs ++ zs) = some rest) :
    ∃ ys, ys ≠ [] ∧ IsSpace ys ∧
      ∀ ws, afterScheme (xs ++ ws) = some (ys ++ ws) := by
  obtain ⟨c, xs, rfl⟩ := List.exists_cons_of_ne_nil nonempty
  rw [List.cons_append, afterScheme] at h
  split at h
  case isFalse => cases h
  case isTrue letter =>
    have goesOn := space.ne_nil (isBreak_eq_false letter (by decide) (by decide))
    have stops : xs.dropWhile isSchemeChar ≠ [] := by
      intro none
      refine space.tail.not_noBreak goesOn (.of_all (p := isSchemeChar) ?_
        (by decide) (by decide))
      exact List.all_eq_true.2 (List.dropWhile_eq_nil_iff.1 none)
    have behind (ws : List Char) : (xs ++ ws).dropWhile isSchemeChar =
        xs.dropWhile isSchemeChar ++ ws := by
      rw [List.dropWhile_append, if_neg (by simpa using stops)]
    have closed : IsSpace (xs.dropWhile isSchemeChar) := by
      have := space.tail
      rw [← List.takeWhile_append_dropWhile (p := isSchemeChar) (l := xs)] at this
      exact this.of_append
    obtain ⟨d, ys, split⟩ := List.exists_cons_of_ne_nil stops
    rw [split] at closed
    rw [behind, split, List.cons_append] at h
    by_cases colon : d = ':'
    · subst colon
      refine ⟨ys, closed.ne_nil (by decide), closed.tail, fun ws => ?_⟩
      rw [List.cons_append, afterScheme, if_pos letter, behind, split]
      rfl
    · simp [colon] at h

/-- In front of a whole text, a mark is a part of the scheme. -/
theorem afterScheme_mark {rest : List Char} (h : afterScheme zs = some rest) :
    afterScheme (dualMark ++ zs) = some rest := by
  cases zs with
  | nil => cases h
  | cons c cs =>
    rw [afterScheme] at h
    split at h
    case isFalse => cases h
    case isTrue letter =>
      have run : ∀ d ∈ ['U', 'A', 'L', '.', c], isSchemeChar d = true := by
        have behind : isSchemeChar c = true := by
          simp [isSchemeChar, Char.isAlphanum, letter]
        simp only [List.forall_mem_cons]
        exact ⟨rfl, rfl, rfl, rfl, behind, List.forall_mem_nil _⟩
      have text : dualMark ++ c :: cs = 'D' :: (['U', 'A', 'L', '.', c] ++ cs) :=
        rfl
      rw [text, afterScheme, if_pos (by decide),
        List.dropWhile_append_of_pos run]
      exact h

theorem check_of_scheme {cs rest : List Char}
    (scheme : afterScheme cs = some rest) : check cs = checkHierarchy rest := by
  rw [check, scheme]

/-- What is accepted has a scheme. -/
theorem exists_scheme {cs : List Char} (h : check cs = .ok ()) :
    ∃ rest, afterScheme cs = some rest := by
  unfold check at h
  split at h
  · next rest scheme => exact ⟨rest, scheme⟩
  · split at h
    · cases h
    · obtain ⟨_, _, missing⟩ := bind_eq_ok.1 h
      cases missing

theorem takesMark_check (space : IsSpace xs) (name : NoBreak zs) :
    TakesMark check xs zs := by
  intro h
  obtain ⟨rest, scheme⟩ := exists_scheme h
  by_cases whole : xs = []
  · subst whole
    rw [List.nil_append] at h scheme ⊢
    rw [check_of_scheme scheme] at h
    rw [check_of_scheme (afterScheme_mark scheme)]
    refine iff_of_true h fun bracket => ?_
    obtain ⟨cs, rfl⟩ := List.head?_eq_some_iff.1 bracket
    cases scheme
  · obtain ⟨ys, nonempty, hys, behind⟩ := afterScheme_space whole space scheme
    exact TakesMark.of_eq (fun ws => check_of_scheme (behind ws))
      (takesMark_checkHierarchy nonempty hys name) h

/-- The dual name of a valid class is a dual name with the namespace of the
class. It is a valid IRI exactly if the local name of the class does not begin
with a bracket. -/
theorem isValid_dual_iff {name : Iri} (valid : name.IsValid) :
    (name.dual.IsValid ↔ name.localName.head? ≠ some '[') ∧
      name.dual.isDual = true ∧ name.dual.space = name.space := by
  refine ⟨?_, isDual_dual name, by rw [space, split_dual]⟩
  have chars : name.dual.chars = name.space ++ (dualMark ++ name.localName) := by
    rw [Iri.chars, dual, String.toList_ofList, List.append_assoc]
  unfold IsValid at valid ⊢
  rw [chars]
  rw [← space_append_localName] at valid
  exact takesMark_check (isSpace_split _)
    (fun c hc => isBreak_eq_false_of_mem_split hc) valid

/-- The mark of a dual name may stand in the user info in front of a host in
brackets. -/
theorem isValid_dual_userInfo :
    let name : Iri := ⟨"e://u@[::1]:80"⟩
    name.IsValid ∧ name.dual = ⟨"e://DUAL.u@[::1]:80"⟩ ∧ name.dual.IsValid ∧
      name.dual.isDual = true ∧ name.dual.space = name.space := by
  intro name
  have valid : name.IsValid := toOption_eq_some.1 (by decide +kernel)
  obtain ⟨accepted, dual, space⟩ := isValid_dual_iff valid
  exact ⟨valid, by decide +kernel, accepted.2 (by decide), dual, space⟩

/-- The loopback address is the host of a valid class, and the dual of that is no
valid IRI. -/
theorem not_isValid_dual_loopback :
    ¬∀ name : Iri, name.IsValid → name.dual.IsValid := by
  intro all
  have valid : (⟨"http://[::1]"⟩ : Iri).IsValid :=
    toOption_eq_some.1 (by decide +kernel)
  have dual := toOption_eq_some.2 (all _ valid)
  revert dual
  decide +kernel

end ContextDL.Iri
