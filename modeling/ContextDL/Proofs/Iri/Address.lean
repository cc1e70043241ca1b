/-
No break stands between the brackets of a host.

A bracketed host is read up to the closing bracket first, whatever stands in
between, and checked afterwards. So a text may run over the end of its
authority there, and only the check of the address refuses it: an address is
made of digits, colons and dots, and a future address of the characters of a
host and colons (`Iri.noBreak_of_checkAddress`).
-/
import ContextDL.Iri.Grammar
import ContextDL.Text.Blank
import Mathlib.Data.List.TakeDrop

namespace ContextDL.Iri

-- ================================================================= no breaks

/-- A text without `#` and `/`. -/
def NoBreak (cs : List Char) : Prop :=
  ∀ c ∈ cs, isBreak c = false

theorem NoBreak.of_all {p : Char → Bool} {cs : List Char}
    (h : cs.all p = true) (hash : p '#' = false) (slash : p '/' = false) :
    NoBreak cs :=
  fun c hc => isBreak_eq_false (List.all_eq_true.1 h c hc) hash slash

theorem NoBreak.append {cs ds : List Char} (hc : NoBreak cs)
    (hd : NoBreak ds) : NoBreak (cs ++ ds) :=
  List.forall_mem_append.2 ⟨hc, hd⟩

theorem NoBreak.cons {c : Char} {cs : List Char} (hc : isBreak c = false)
    (hcs : NoBreak cs) : NoBreak (c :: cs) :=
  List.forall_mem_cons.2 ⟨hc, hcs⟩

/-- A text has no break if it is cut at another mark and the parts have
none. -/
theorem NoBreak.of_splitOn {mark : Char} {cs : List Char}
    (other : isBreak mark = false)
    (parts : ∀ part ∈ cs.splitOn mark, NoBreak part) : NoBreak cs := by
  have whole : [mark].intercalate (cs.splitOn mark) = cs :=
    List.intercalate_splitOn mark
  rw [← whole]
  refine Text.forall_mem_intercalate (fun c hc => ?_) parts
  rw [List.mem_singleton.1 hc]
  exact other

-- ================================================================= addresses

theorem noBreak_of_isGroup {cs : List Char} (h : isGroup cs = true) :
    NoBreak cs := by
  rw [isGroup, Bool.and_eq_true] at h
  exact .of_all h.2 (by decide) (by decide)

theorem noBreak_of_isOctet {cs : List Char} (h : isOctet cs = true) :
    NoBreak cs := by
  simp only [isOctet, Bool.and_eq_true] at h
  exact .of_all h.1.1.2 (by decide) (by decide)

theorem noBreak_of_isQuad {cs : List Char} (h : isQuad cs = true) :
    NoBreak cs := by
  simp only [isQuad, Bool.and_eq_true, List.all_eq_true] at h
  exact .of_splitOn (by decide) fun part hp => noBreak_of_isOctet (h.2 part hp)

/-- Pieces that stand for groups have no break. -/
theorem noBreak_of_groupCount {ps : List (List Char)} {n : Nat}
    (h : groupCount ps = some n) : ∀ p ∈ ps, NoBreak p := by
  induction ps generalizing n with
  | nil => simp
  | cons piece ps ih =>
    cases ps with
    | nil =>
      rw [List.forall_mem_singleton]
      rw [groupCount] at h
      split at h
      case isTrue group => exact noBreak_of_isGroup group
      case isFalse =>
        split at h
        case isTrue quad => exact noBreak_of_isQuad quad
        case isFalse => cases h
    | cons next ps =>
      rw [groupCount] at h
      · split at h
        case isTrue group =>
          obtain ⟨m, hm, -⟩ := Option.map_eq_some_iff.1 h
          exact List.forall_mem_cons.2 ⟨noBreak_of_isGroup group, ih hm⟩
        case isFalse => cases h
      · simp

theorem noBreak_of_pieces {cs : List Char} (h : ∀ p ∈ pieces cs, NoBreak p) :
    NoBreak cs := by
  unfold pieces at h
  split at h
  case isTrue none =>
    rw [List.isEmpty_iff.1 none]
    simp [NoBreak]
  case isFalse => exact .of_splitOn (by decide) h

theorem eq_of_splitGap {cs front back : List Char}
    (h : splitGap cs = some (front, back)) :
    cs = front ++ ':' :: ':' :: back := by
  induction cs generalizing front with
  | nil => cases h
  | cons c cs ih =>
    rw [splitGap.eq_def] at h
    split at h
    · next same =>
      cases h
      exact same
    · next same =>
      cases same
      obtain ⟨⟨rest, _⟩, hrest, hpair⟩ := Option.map_eq_some_iff.1 h
      cases hpair
      rw [List.cons_append, ← ih hrest]
    · cases h

theorem noBreak_of_isAddress {cs : List Char} (h : isAddress cs = true) :
    NoBreak cs := by
  unfold isAddress at h
  split at h
  · next front back gap =>
    rw [Bool.and_eq_true] at h
    obtain ⟨groups, counted⟩ := h
    have first : NoBreak front := noBreak_of_pieces fun p hp =>
      noBreak_of_isGroup (List.all_eq_true.1 groups p hp)
    have second : NoBreak back := by
      split at counted
      · next count => exact noBreak_of_pieces (noBreak_of_groupCount count)
      · cases counted
    rw [eq_of_splitGap gap]
    exact first.append (.cons (by decide) (.cons (by decide) second))
  · exact noBreak_of_pieces (noBreak_of_groupCount (beq_iff_eq.1 h))

-- =========================================================== future addresses

theorem noBreak_of_checkFutureBody {cs : List Char}
    (h : checkFutureBody cs = .ok ()) : NoBreak cs := by
  unfold checkFutureBody at h
  split at h
  · cases h
  · split at h
    · cases h
    · next none =>
      refine .of_all (p := isFutureChar) ?_ rfl rfl
      rw [List.find?_eq_none] at none
      simpa using none

theorem noBreak_of_checkFuture {cs : List Char}
    (h : checkFuture cs = .ok ()) : NoBreak cs := by
  have digits : NoBreak (cs.takeWhile isHexDigit) :=
    .of_all List.all_takeWhile (by decide) (by decide)
  rw [← List.takeWhile_append_dropWhile (p := isHexDigit) (l := cs)]
  refine digits.append ?_
  rw [checkFuture, List.span_eq_takeWhile_dropWhile] at h
  split at h
  · cases h
  · cases h
  · cases h
  · next same =>
    rw [(Prod.mk.inj same).2]
    split at h
    · next dot =>
      subst dot
      exact .cons (by decide) (noBreak_of_checkFutureBody h)
    · cases h

/-- No break stands in what is accepted between brackets. -/
theorem noBreak_of_checkAddress {cs : List Char}
    (h : checkAddress cs = .ok ()) : NoBreak cs := by
  unfold checkAddress at h
  split at h
  · exact .cons (by decide) (noBreak_of_checkFuture h)
  · exact .cons (by decide) (noBreak_of_checkFuture h)
  · split at h
    · next address => exact noBreak_of_isAddress address
    · cases h

end ContextDL.Iri
