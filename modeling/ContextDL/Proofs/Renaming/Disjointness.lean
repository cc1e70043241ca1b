/-
Which copies are kept apart.

A copy is checked against the names that the ontology had before the renaming,
and never against the other copies. So whether two copies can share a name
depends on nothing but how a name, the separator and a number are put together.

# Two names

Let copy `i` of one name and copy `j` of another be the same. Then one of the
names is the other with some text behind it, and this text is what the ending
of the one copy has in front of the ending of the other. If the text happens to
be such an ending itself, then the longer name is a copy of the shorter one
already, and the check has found that. In all other cases there is an ontology
in which both copies are made: the one that puts the shorter name under the
longer one. So the endings decide (`copiesDisjoint_iff`, `Separates`).

# Separators

A mark in the separator, which is a character that is no digit, keeps any
number of copies apart: a copy tells its number (`Text.decimal_append_inj`).
Without a mark the digits of the separator and of the number run together. For
a separator `s`, copy `2` of `Xs1` is `Xs1s2`, and that is also the copy of `X`
with the number that is written `1s2`. With the empty separator this happens
at copy `12`.
-/
import ContextDL.Proofs.Iri.Checking
import ContextDL.Proofs.Renaming.Effect

namespace ContextDL

-- ===================================================================== endings

/-- What a copy has behind the name. -/
def copyEnding (separator : String) (copy : Nat) : List Char :=
  separator.toList ++ Text.decimal copy

/-- The endings of copies up to a number are told apart. Where one of them is
some text with another one behind it, the text is this other one itself. -/
def Separates (separator : String) (copies : Nat) : Prop :=
  ∀ i j, (1 ≤ i ∧ i ≤ copies) → (1 ≤ j ∧ j ≤ copies) → i ≠ j →
    ∀ text, copyEnding separator j = text ++ copyEnding separator i →
      text = copyEnding separator i

variable {separator : String} {copy copies : Nat}

theorem copyEnding_ne_nil : copyEnding separator copy ≠ [] :=
  List.append_ne_nil_of_right_ne_nil _ (Text.decimal_ne_nil copy)

/-- A copy is the name and the ending. -/
theorem Iri.chars_numbered_ending {name : Iri} :
    (name.numbered separator copy).chars =
      name.chars ++ copyEnding separator copy := by
  rw [Iri.chars_numbered, copyEnding, List.append_assoc]

/-- Without a mark, a separator is made of digits. -/
theorem not_hasMark_iff :
    ¬HasMark separator ↔ separator.toList.all Char.isDigit = true := by
  unfold HasMark
  simp

/-- Behind a separator of digits, the endings are digits. -/
theorem all_isDigit_copyEnding
    (digits : separator.toList.all Char.isDigit = true) (copy : Nat) :
    (copyEnding separator copy).all Char.isDigit = true := by
  rw [copyEnding, List.all_append, digits, Text.all_isDigit_decimal]
  rfl

/-- Behind a mark, no ending stands at the end of another one. -/
theorem separates_of_hasMark (mark : HasMark separator) :
    Separates separator copies := by
  intro i j _ _ different text same
  have aligned : [] ++ separator.toList ++ Text.decimal j =
      text ++ separator.toList ++ Text.decimal i := by
    rw [List.nil_append, List.append_assoc]
    exact same
  exact absurd (Text.decimal_append_inj mark aligned).2.symm different

/-- Without a mark, the ending of copy `2` stands at the end of a later one,
behind the ending of the first copy. -/
theorem not_separates_of_digits
    (digits : separator.toList.all Char.isDigit = true) :
    ∃ copies, ¬Separates separator copies := by
  obtain ⟨k, written⟩ := Text.exists_decimal_append Nat.one_pos
    (all_isDigit_copyEnding digits 2)
  have same : copyEnding separator k =
      copyEnding separator 1 ++ copyEnding separator 2 := by
    rw [copyEnding, written, ← List.append_assoc]
    rfl
  have late : 2 < k := by
    have short : ∀ m ≤ 2, (Text.decimal m).length = 1 := by decide
    by_contra early
    have length := congrArg List.length written
    rw [short k (by omega), List.length_append, short 1 (by omega),
      copyEnding, List.length_append, short 2 (by omega)] at length
    omega
  refine ⟨k, fun separates => ?_⟩
  have first : copyEnding separator 1 = copyEnding separator 2 :=
    separates 2 k ⟨by omega, by omega⟩ ⟨by omega, by omega⟩ (by omega) _ same
  have numbers := Text.decimal_injective (List.append_cancel_left first)
  exact absurd numbers (by decide)

namespace Ontology

variable {o : Ontology} {names : List Iri}

-- ================================================================ shared names

/-- A name is renamed in some statement that is copied. -/
def Renames (o : Ontology) (names : List Iri) (name : Iri) : Prop :=
  name ∈ names ∧ ∃ s ∈ o.copied names, s.signature.contains name = true

/-- A name that a copy gives to a name that is renamed. -/
def Gives (o : Ontology) (names : List Iri) (separator : String) (copy : Nat)
    (given : Iri) : Prop :=
  ∃ name, o.Renames names name ∧
    (o.copyPlan names separator copy).iri name = .ok given

/-- No name is given by two of the copies that are merged. These are the
possible ones (`rename_eq`). -/
def CopiesDisjoint (o : Ontology) (names : List Iri) (separator : String)
    (copies : Nat) : Prop :=
  ∀ i ∈ o.possibleCopies names separator copies,
    ∀ j ∈ o.possibleCopies names separator copies, i ≠ j →
      ∀ given, o.Gives names separator i given →
        ¬o.Gives names separator j given

/-- A name that is renamed is one of the ontology. -/
theorem Renames.used {name : Iri} (renamed : o.Renames names name) :
    o.signature.contains name = true := by
  obtain ⟨-, s, hs, mentioned⟩ := renamed
  exact contains_signature (List.mem_filter.1 hs).1 mentioned

/-- A possible copy admits what is renamed. -/
theorem Renames.admits {name : Iri} (renamed : o.Renames names name)
    (possible : o.isPossible names separator copy = true) :
    (o.copyPlan names separator copy).Admits name := by
  obtain ⟨-, s, hs, mentioned⟩ := renamed
  obtain ⟨stated, isCopied⟩ := List.mem_filter.1 hs
  exact isPossible_iff.1 possible s stated isCopied name mentioned

/-- A possible copy gives the numbered names of what is renamed. -/
theorem gives_iff (possible : o.isPossible names separator copy = true)
    {given : Iri} :
    o.Gives names separator copy given ↔
      ∃ name, o.Renames names name ∧
        name.numbered separator copy = given := by
  refine exists_congr fun name => and_congr_right fun renamed => ?_
  have target : (o.copyPlan names separator copy).target name =
      name.numbered separator copy := if_pos renamed.1
  rw [CopyPlan.iri_eq_ok, and_iff_right (renamed.admits possible), target]

/-- Two names, of which one is the other with a text behind it, have no copy in
common, if the endings are told apart. -/
theorem numbered_ne_numbered (separates : Separates separator copies)
    {i j : Nat} (hi : i ∈ o.possibleCopies names separator copies)
    (hj : j ∈ o.possibleCopies names separator copies) (different : i ≠ j)
    {name other : Iri} (renamed : o.Renames names name)
    (others : o.Renames names other) {text : List Char}
    (longer : name.chars = other.chars ++ text) :
    name.numbered separator i ≠ other.numbered separator j := by
  intro same
  obtain ⟨first, possible⟩ := mem_possibleCopies.1 hi
  obtain ⟨second, -⟩ := mem_possibleCopies.1 hj
  have chars := congrArg Iri.chars same
  rw [Iri.chars_numbered_ending, Iri.chars_numbered_ending, longer,
    List.append_assoc] at chars
  have isEnding := separates i j first second different text
    (List.append_cancel_left chars).symm
  -- so the longer name is copy `i` of the other, which finds it in use
  have isCopy : name = other.numbered separator i := by
    apply Iri.chars_injective
    rw [Iri.chars_numbered_ending, longer, isEnding]
  have unused : o.signature.contains (other.numbered separator i) = false :=
    (others.admits possible others.1).2
  rw [← isCopy, renamed.used] at unused
  cases unused

/-- Copies are apart if their endings are. -/
theorem copiesDisjoint_of_separates (separates : Separates separator copies) :
    o.CopiesDisjoint names separator copies := by
  intro i hi j hj different given byFirst bySecond
  obtain ⟨name, renamed, rfl⟩ :=
    (gives_iff (mem_possibleCopies.1 hi).2).1 byFirst
  obtain ⟨other, others, same⟩ :=
    (gives_iff (mem_possibleCopies.1 hj).2).1 bySecond
  have chars := congrArg Iri.chars same
  rw [Iri.chars_numbered_ending, Iri.chars_numbered_ending] at chars
  rcases List.append_eq_append_iff.1 chars with
    ⟨text, longer, -⟩ | ⟨text, longer, -⟩
  · exact numbered_ne_numbered separates hi hj different renamed others longer
      same.symm
  · exact numbered_ne_numbered separates hj hi different.symm others renamed
      longer same

-- ==================================================================== siblings

section Siblings

open Reader

/-- Two names, one with some text behind the other. -/
def siblings (text : List Char) : List Iri :=
  [standard.named ['X'], standard.named ('X' :: text)]

/-- An ontology that puts a class under its sibling. -/
def siblingInclusion (text : List Char) : Ontology :=
  .ofAxioms [.subClassOf (.atom (standard.named ['X']))
    (.atom (standard.named ('X' :: text)))]

variable {text : List Char}

/-- Names behind a base are the same if the texts are. -/
theorem named_inj {reader : Reader} {cs ds : List Char} :
    reader.named cs = reader.named ds ↔ cs = ds := by
  refine ⟨fun same => ?_, fun same => same ▸ rfl⟩
  have chars := congrArg Iri.chars same
  simp only [Reader.named, Iri.chars, String.toList_append,
    String.toList_ofList] at chars
  exact List.append_cancel_left chars

/-- The copy of a name behind a base stands behind the base. -/
theorem numbered_named {reader : Reader} {cs : List Char} :
    (reader.named cs).numbered separator copy =
      reader.named (cs ++ copyEnding separator copy) := by
  simp [Iri.numbered, Reader.named, copyEnding, String.append_assoc]

/-- No name behind the standard base is reserved. -/
theorem isReserved_standard {cs : List Char} :
    (standard.named cs).isReserved = false := by
  have start : (standard.named cs).chars.take 9 = "http://ox".toList := by
    simp only [Reader.named, Iri.chars, String.toList_append]
    rw [List.take_append_of_le_length (by decide)]
    rfl
  unfold Iri.isReserved
  rw [Bool.or_eq_false_iff, decide_eq_false_iff_not, decide_eq_false_iff_not]
  constructor
  · intro same
    rw [same] at start
    exact absurd start (by decide)
  · intro same
    rw [same] at start
    exact absurd start (by decide)

/-- The siblings are the names of the ontology. -/
theorem contains_siblings {s : Statement}
    (hs : s ∈ (siblingInclusion text).statements) {n : Iri} :
    s.signature.contains n = true ↔ n ∈ siblings text := by
  obtain rfl := List.mem_singleton.1 hs
  simp [siblings, Statement.signature, Statement.plain, Axiom.signature,
    Concept.signature, Signature.ofClass, isReserved_standard,
    Signature.contains_iff]

/-- Both siblings are renamed. -/
theorem renames_siblings {n : Iri} (hn : n ∈ siblings text) :
    (siblingInclusion text).Renames (siblings text) n := by
  obtain ⟨s, hs, plain⟩ : ∃ s ∈ (siblingInclusion text).statements,
      s.definedBy = [] := ⟨_, List.mem_cons_self, rfl⟩
  have mentioned := (contains_siblings hs).2 hn
  refine ⟨hn, s, List.mem_filter.2 ⟨hs, ?_⟩, mentioned⟩
  rw [isCopied, plain, Signature.mentions, Bool.and_eq_true, List.any_eq_true]
  exact ⟨⟨n, hn, mentioned⟩, rfl⟩

/-- The copy of a sibling is none, unless the text is the ending of the
copy. -/
theorem numbered_notMem_siblings (other : text ≠ copyEnding separator copy)
    {n : Iri} (hn : n ∈ siblings text) :
    n.numbered separator copy ∉ siblings text := by
  simp only [siblings, List.mem_cons, List.not_mem_nil, or_false] at hn ⊢
  rcases hn with rfl | rfl
  · simp [numbered_named, named_inj, copyEnding_ne_nil, other.symm]
  · simp [numbered_named, named_inj, copyEnding_ne_nil]

/-- Behind digits, a copy of the siblings is possible, unless the text is the
ending of the copy. -/
theorem isPossible_siblings
    (digits : separator.toList.all Char.isDigit = true)
    (textDigits : text.all Char.isDigit = true)
    (other : text ≠ copyEnding separator copy) :
    (siblingInclusion text).isPossible (siblings text) separator copy =
      true := by
  have letters {ds : List Char} (h : ds.all Char.isDigit = true) :
      ds.all Char.isAlphanum = true := by
    rw [List.all_eq_true] at h ⊢
    intro c hc
    rw [Char.isAlphanum, h c hc, Bool.or_true]
  have valid {cs : List Char} (h : cs.all Char.isAlphanum = true) :
      ((standard.named cs).numbered separator copy).IsValid := by
    rw [numbered_named]
    refine namesValid_standard _
      (List.append_ne_nil_of_right_ne_nil _ copyEnding_ne_nil) ?_
    rw [List.all_append, h, letters (all_isDigit_copyEnding digits _)]
    rfl
  refine isPossible_iff.2 fun s hs _ n hn renamed => ⟨?_, ?_⟩
  · rcases List.mem_cons.1 renamed with rfl | longer
    · exact valid (by decide)
    · obtain rfl := List.mem_singleton.1 longer
      refine valid ?_
      rw [List.all_cons, letters textDigits]
      rfl
  · rw [← Bool.not_eq_true]
    intro used
    obtain ⟨a, ha, mentioned⟩ := Signature.contains_unionAll.1 used
    obtain ⟨t, ht, rfl⟩ := List.mem_map.1 ha
    exact numbered_notMem_siblings other renamed
      ((contains_siblings ht).1 mentioned)

/-- Behind digits, two copies of the siblings share a name, if the text stands
between their endings and is not one of these. -/
theorem not_copiesDisjoint_siblings
    (digits : separator.toList.all Char.isDigit = true) {i j : Nat}
    (hi : 1 ≤ i ∧ i ≤ copies) (hj : 1 ≤ j ∧ j ≤ copies) (different : i ≠ j)
    (same : copyEnding separator j = text ++ copyEnding separator i)
    (other : text ≠ copyEnding separator i) :
    ¬(siblingInclusion text).CopiesDisjoint (siblings text) separator
      copies := by
  have textDigits : text.all Char.isDigit = true := by
    have all := all_isDigit_copyEnding digits j
    rw [same, List.all_append, Bool.and_eq_true] at all
    exact all.1
  have other' : text ≠ copyEnding separator j := by
    rw [same]
    exact fun whole => copyEnding_ne_nil (List.self_eq_append_right.1 whole)
  have possible := isPossible_siblings digits textDigits other
  have possible' := isPossible_siblings digits textDigits other'
  have shared : (standard.named ('X' :: text)).numbered separator i =
      (standard.named ['X']).numbered separator j := by
    rw [numbered_named, numbered_named, same]
    rfl
  intro disjoint
  refine disjoint i (mem_possibleCopies.2 ⟨hi, possible⟩) j
    (mem_possibleCopies.2 ⟨hj, possible'⟩) different _
    ((gives_iff possible).2 ⟨_, renames_siblings ?_, shared⟩)
    ((gives_iff possible').2 ⟨_, renames_siblings ?_, rfl⟩)
  · exact List.mem_cons_of_mem _ List.mem_cons_self
  · exact List.mem_cons_self

end Siblings

-- ============================================================== all separators

/-- A number of copies of all ontologies is apart exactly if the separator
separates their endings, and the separators that do so for every number are
those with a character that is no digit. -/
theorem copiesDisjoint_iff (separator : String) :
    (∀ copies, (∀ (o : Ontology) (names : List Iri),
      o.CopiesDisjoint names separator copies) ↔
        Separates separator copies) ∧
    ((∀ copies, Separates separator copies) ↔ HasMark separator) := by
  constructor
  · intro copies
    refine ⟨fun disjoint => ?_, fun separates o names => ?_⟩
    · by_cases mark : HasMark separator
      · exact separates_of_hasMark mark
      · intro i j hi hj different text same
        by_contra other
        exact not_copiesDisjoint_siblings (not_hasMark_iff.1 mark) hi hj
          different same other (disjoint _ _)
    · exact copiesDisjoint_of_separates separates
  · refine ⟨fun separates => ?_, fun mark _ => separates_of_hasMark mark⟩
    by_contra unmarked
    obtain ⟨copies, confused⟩ :=
      not_separates_of_digits (not_hasMark_iff.1 unmarked)
    exact confused (separates copies)

/-- With an empty separator, copy `2` of `X1` and copy `12` of `X` are one
name, and both copies are merged. -/
theorem not_copiesDisjoint_empty :
    ¬(siblingInclusion ['1']).CopiesDisjoint (siblings ['1']) "" 12 := by
  have same : copyEnding "" 12 = ['1'] ++ copyEnding "" 2 := by decide
  have other : ['1'] ≠ copyEnding "" 2 := by decide
  exact not_copiesDisjoint_siblings (by decide) (by decide) (by decide)
    (by decide) same other

end Ontology

end ContextDL
