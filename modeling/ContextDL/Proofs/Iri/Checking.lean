/-
Checking IRIs part by part.

A part of an IRI is a run of characters that are allowed in it and do not end
it. The check passes over such a run (`Iri.skip_append`) and stops at the mark
behind it (`Iri.skip_stop`), so a text that is put together out of runs and
marks is checked one part at a time.

`Reader.namesValid_standard` is the case that the readers ask for: behind the
base of the standard reader, every name makes an IRI.
-/
import ContextDL.Proofs.Success
import ContextDL.Surface.Grammar

namespace ContextDL

namespace Iri

-- ======================================================================== runs

/-- Characters that a part goes on over. -/
def isRun (allowed ends : Char → Bool) (cs : List Char) : Bool :=
  cs.all fun c => !ends c && c != '%' && allowed c

variable {allowed ends : Char → Bool}

theorem isRun_iff {cs : List Char} :
    isRun allowed ends cs = true ↔
      ∀ c ∈ cs, ends c = false ∧ c ≠ '%' ∧ allowed c = true := by
  simp [isRun, and_assoc]

theorem skip_append {cs : List Char} (h : isRun allowed ends cs = true)
    (rest : List Char) :
    skip allowed ends (cs ++ rest) = skip allowed ends rest := by
  rw [isRun_iff] at h
  induction cs with
  | nil => rfl
  | cons c cs ih =>
    obtain ⟨⟨goesOn, noEscape, isAllowed⟩, hcs⟩ := List.forall_mem_cons.1 h
    rw [List.cons_append, skip.eq_def]
    simp only [goesOn, noEscape, isAllowed, if_true, if_false,
      Bool.false_eq_true]
    exact ih hcs

theorem skip_stop {c : Char} (h : ends c = true) (rest : List Char) :
    skip allowed ends (c :: rest) = .ok (c :: rest) := by
  rw [skip.eq_def]
  simp only [h, if_true]

/-- A run up to a mark, and the mark, is what a part is. -/
theorem skip_run {cs : List Char} {c : Char}
    (h : isRun allowed ends cs = true) (stop : ends c = true) (rest : List Char) :
    skip allowed ends (cs ++ c :: rest) = .ok (c :: rest) := by
  rw [skip_append h, skip_stop stop]

-- =========================================================== the standard base

/-- A host with a slash behind it. -/
theorem checkHost_run {c : Char} {cs : List Char}
    (host : isRun isPlain (fun c => c == ':' || endsAuthority c)
      (c :: cs) = true) (rest : List Char) :
    checkHost (c :: cs ++ '/' :: rest) = checkPath ('/' :: rest) := by
  have noBracket : c ≠ '[' := by
    intro h
    have plain := (isRun_iff.1 host c List.mem_cons_self).2.2
    rw [h] at plain
    exact absurd plain (by decide)
  have whole := skip_run host (c := '/') (by decide) rest
  rw [checkHost.eq_def]
  split
  · next h => exact absurd (List.cons.inj h).1 noBracket
  · rw [whole]
    rfl

/-- An authority that is a host alone, with a slash behind it. -/
theorem checkAuthority_run {c : Char} {cs : List Char}
    (user : isRun isUserChar
      (fun c => c == '@' || c == '[' || endsAuthority c) (c :: cs) = true)
    (host : isRun isPlain (fun c => c == ':' || endsAuthority c)
      (c :: cs) = true) (rest : List Char) :
    checkAuthority (c :: cs ++ '/' :: rest) = checkPath ('/' :: rest) := by
  unfold checkAuthority
  rw [skip_run user (c := '/') (by decide) rest]
  exact checkHost_run host rest

/-- Letters and digits may stand in a fragment. -/
theorem checkFragment_of_isAlphanum {name : List Char}
    (h : name.all Char.isAlphanum = true) : checkFragment name = .ok () := by
  have run : isRun isFragmentChar (fun _ => false) name = true := by
    rw [isRun_iff]
    intro c hc
    have alphanum := List.all_eq_true.1 h c hc
    refine ⟨rfl, ?_, ?_⟩
    · intro escape
      rw [escape] at alphanum
      exact absurd alphanum (by decide)
    · simp [isFragmentChar, isPathChar, isPlain, isUriChar, alphanum]
  have whole := skip_append run []
  rw [List.append_nil] at whole
  unfold checkFragment
  rw [whole]
  rfl

end Iri

theorem Reader.isSpace_standard : Iri.IsSpace standard.base.toList := by
  have last : standard.base.toList.getLast? = some '#' := rfl
  intro c hc
  rw [last] at hc
  cases hc
  decide

/-- Behind the base of the standard reader every name makes an IRI. -/
theorem Reader.namesValid_standard : standard.NamesValid := by
  intro name _ alphanum
  have parts : (standard.named name).chars =
      "http:".toList ++ '/' :: '/' :: ('o' :: "xigraph.org".toList ++
        '/' :: ("context/default".toList ++ '#' :: name)) := by
    simp [Iri.chars, named, standard]
  have scheme (rest : List Char) :
      Iri.afterScheme ("http:".toList ++ rest) = some rest := by
    simp [Iri.afterScheme, Iri.isSchemeChar]
  have path : Iri.isRun Iri.isPathChar Iri.endsPath
      ('/' :: "context/default".toList) = true := rfl
  unfold Iri.IsValid Iri.check
  rw [parts, scheme]
  dsimp only
  rw [Iri.checkHierarchy, Iri.checkAuthority_run rfl rfl, ← List.cons_append,
    Iri.checkPath, Iri.skip_run path (by decide)]
  exact Iri.checkFragment_of_isAlphanum alphanum

end ContextDL
