/-
IRIs and their local names.

An IRI is kept as its text. It splits after its last `#` or `/` into a
namespace and a local name; without such a mark the whole text is the local
name. Classes, properties and individuals are all named by IRIs, and one IRI
may name several of them.
-/

namespace ContextDL

/-- An IRI, as text. -/
structure Iri where
  text : String
deriving DecidableEq

namespace Iri

-- =================================================================== splitting

/-- The marks that end a namespace. -/
def isBreak (c : Char) : Bool :=
  c == '#' || c == '/'

/-- All other characters are no breaks. -/
theorem isBreak_eq_false_iff {c : Char} :
    isBreak c = false ↔ c ≠ '#' ∧ c ≠ '/' := by
  rw [isBreak, Bool.or_eq_false_iff, beq_eq_false_iff_ne, beq_eq_false_iff_ne]

/-- A character is no break if it is in a class that leaves both breaks out. -/
theorem isBreak_eq_false {p : Char → Bool} {c : Char} (h : p c = true)
    (hash : p '#' = false) (slash : p '/' = false) : isBreak c = false := by
  apply isBreak_eq_false_iff.2
  constructor
  · rintro rfl
    rw [hash] at h
    cases h
  · rintro rfl
    rw [slash] at h
    cases h

/-- The namespace and the local name of a text: what stands before and after
the end of its last break. -/
def split (text : List Char) : List Char × List Char :=
  ((text.reverse.dropWhile fun c => !isBreak c).reverse,
    (text.reverse.takeWhile fun c => !isBreak c).reverse)

/-- Splitting loses nothing. -/
theorem split_append (text : List Char) :
    (split text).1 ++ (split text).2 = text := by
  rw [split, ← List.reverse_append, List.takeWhile_append_dropWhile,
    List.reverse_reverse]

/-- A namespace is empty or ends in a break. -/
def IsSpace (space : List Char) : Prop :=
  ∀ c ∈ space.getLast?, isBreak c = true

/-- The namespace of a text is one. -/
theorem isSpace_split (text : List Char) : IsSpace (split text).1 := by
  intro c hc
  rw [split, List.getLast?_reverse] at hc
  have := List.head?_dropWhile_not (fun c => !isBreak c) text.reverse
  rw [hc] at this
  simpa using this

/-- No break stands in a local name. -/
theorem isBreak_eq_false_of_mem_split {text : List Char} {c : Char}
    (h : c ∈ (split text).2) : isBreak c = false := by
  rw [split, List.mem_reverse] at h
  have all := List.all_eq_true.1 List.all_takeWhile c h
  simpa using all

/-- A namespace and a name without breaks are told apart by splitting. -/
theorem split_eq {space name : List Char} (hs : IsSpace space)
    (hn : ∀ c ∈ name, isBreak c = false) :
    split (space ++ name) = (space, name) := by
  have all : ∀ c ∈ name.reverse, (!isBreak c) = true := by
    intro c hc
    simp [hn c (List.mem_reverse.1 hc)]
  have stop : space.reverse.takeWhile (fun c => !isBreak c) = [] ∧
      space.reverse.dropWhile (fun c => !isBreak c) = space.reverse := by
    rcases h : space.reverse with _ | ⟨c, cs⟩
    · simp
    · have : isBreak c = true := hs c (by
        rw [← List.head?_reverse, h, List.head?_cons]; rfl)
      simp [this]
  rw [split, List.reverse_append, List.dropWhile_append_of_pos all,
    List.takeWhile_append_of_pos all, stop.1, stop.2]
  simp

/-- No other two parts make up a text, with a namespace in front and no break
behind. -/
theorem split_eq_iff {text space name : List Char} :
    split text = (space, name) ↔
      space ++ name = text ∧ IsSpace space ∧ ∀ c ∈ name, isBreak c = false := by
  constructor
  · intro parts
    have whole := split_append text
    have front := isSpace_split text
    have behind (c : Char) (hc : c ∈ (split text).2) :=
      isBreak_eq_false_of_mem_split hc
    rw [parts] at whole front behind
    exact ⟨whole, front, behind⟩
  · intro h
    obtain ⟨rfl, front, behind⟩ := h
    exact split_eq front behind

/-- The characters of an IRI. -/
def chars (iri : Iri) : List Char :=
  iri.text.toList

/-- An IRI is told by its characters. -/
theorem chars_injective {iri other : Iri} (same : iri.chars = other.chars) :
    iri = other := by
  cases iri
  cases other
  rw [Iri.mk.injEq]
  exact String.toList_injective same

/-- The part of an IRI up to its last break. -/
def space (iri : Iri) : List Char :=
  (split iri.chars).1

/-- The part of an IRI after its last break. -/
def localName (iri : Iri) : List Char :=
  (split iri.chars).2

/-- The two parts of an IRI make up its characters. -/
theorem space_append_localName (iri : Iri) :
    iri.space ++ iri.localName = iri.chars :=
  split_append iri.chars

/-- An IRI in angle brackets. -/
def quoted (iri : Iri) : String :=
  "<" ++ iri.text ++ ">"

-- ======================================================================= order

/-- IRIs are ordered by their characters, code point by code point, which is
also the order of their UTF-8 bytes. -/
def precedes (a b : Iri) : Bool :=
  !decide (b.text < a.text)

/-- A list of IRIs in rising order. -/
def sorted (iris : List Iri) : List Iri :=
  iris.mergeSort precedes

-- ============================================================ reserved classes

/-- The class of everything. -/
def thing : Iri :=
  ⟨"http://www.w3.org/2002/07/owl#Thing"⟩

/-- The class of nothing. -/
def nothing : Iri :=
  ⟨"http://www.w3.org/2002/07/owl#Nothing"⟩

/-- The two classes that a signature leaves out. -/
def isReserved (iri : Iri) : Bool :=
  iri = thing || iri = nothing

end Iri

end ContextDL
