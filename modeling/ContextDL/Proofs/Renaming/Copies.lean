/-
Copies of names, of axioms and of ontologies, and when they succeed.

# Names

Copy `n` of a name is the name with the separator and the number behind it
(`Iri.numbered`). If the separator has a character that is no digit, the
digits at the end of a copy are those of its number and a known rest, so a
copy tells its name and its number (`Iri.numbered_inj`). No copy is a reserved
class, since none of these ends in a digit.

# Axioms

A copy of an axiom looks every name in it up, one after the other, and fails
at the first that is no IRI or used already. `CopyPlan.body_eq_ok` says this
without an order: the copy succeeds exactly if the plan fits the signature of
the axiom, and the result is then the axiom under the map that takes every
name to its target. The map is total, so it can be reasoned about like any
other map of names.

# Ontologies

`Ontology.rename_cases` says what a renaming can do: nothing, or put the copies
that could be made in the place of what is copied. So `mem_statements_rename`
tells the statements that a successful renaming leaves.
-/
import ContextDL.Proofs.Meaning.Renaming
import ContextDL.Proofs.Renaming.Merging
import ContextDL.Proofs.Success
import Mathlib.Data.List.TakeWhile

namespace ContextDL

-- ======================================================================= names

namespace Iri

/-- The name of a copy, whether or not it is a valid IRI. -/
def numbered (separator : String) (name : Iri) (copy : Nat) : Iri :=
  ⟨name.text ++ separator ++ String.ofList (Text.decimal copy)⟩

/-- The name of a copy is the numbered name, if that is valid. -/
theorem copyName_eq_ok {separator : String} {name renamed : Iri}
    {copy : Nat} :
    name.copyName separator copy = .ok renamed ↔
      (name.numbered separator copy).IsValid ∧
        renamed = name.numbered separator copy := by
  rw [copyName, ofText_eq_ok]
  constructor
  · intro h
    obtain ⟨valid, rfl⟩ := h
    exact ⟨valid, rfl⟩
  · intro h
    obtain ⟨valid, rfl⟩ := h
    exact ⟨valid, rfl⟩

/-- The characters of a numbered name. -/
theorem chars_numbered {separator : String} {name : Iri} {copy : Nat} :
    (name.numbered separator copy).chars =
      name.chars ++ separator.toList ++ Text.decimal copy := by
  simp [numbered, chars]

end Iri

/-- A separator with a character that is no digit. -/
def HasMark (separator : String) : Prop :=
  ∃ c ∈ separator.toList, c.isDigit = false

/-- A separator that ends in a character that is no digit. -/
def EndsPlain (separator : String) : Prop :=
  ∃ c, separator.toList.getLast? = some c ∧ c.isDigit = false

/-- The last character is a mark if it is no digit. -/
theorem EndsPlain.hasMark {separator : String} (plain : EndsPlain separator) :
    HasMark separator := by
  obtain ⟨c, last, digit⟩ := plain
  exact ⟨c, List.mem_of_getLast? last, digit⟩

/-- Behind a text with a mark, a number can be read off the end. -/
theorem Text.decimal_append_inj {mark : List Char}
    (plain : ∃ c ∈ mark, c.isDigit = false) {xs ys : List Char} {m n : Nat}
    (same : xs ++ mark ++ decimal m = ys ++ mark ++ decimal n) :
    xs = ys ∧ m = n := by
  -- the digits at the end are those of the number and some of the mark
  have run (zs : List Char) (k : Nat) :
      (zs ++ mark ++ decimal k).reverse.takeWhile Char.isDigit =
        (decimal k).reverse ++ mark.reverse.takeWhile Char.isDigit := by
    have digits : ∀ b ∈ (decimal k).reverse, b.isDigit = true := fun b hb =>
      List.all_eq_true.1 (all_isDigit_decimal k) b (List.mem_reverse.1 hb)
    have stops : (mark.reverse.takeWhile Char.isDigit).length ≠
        mark.reverse.length := by
      intro whole
      obtain ⟨c, hc, digit⟩ := plain
      have every := (List.takeWhile_prefix (p := Char.isDigit)
        (l := mark.reverse)).eq_of_length whole
      have := List.takeWhile_eq_self_iff.1 every c (List.mem_reverse.2 hc)
      rw [digit] at this
      cases this
    rw [List.reverse_append, List.takeWhile_append_of_pos digits,
      List.reverse_append, List.takeWhile_append, if_neg stops]
  have digits := run xs m
  rw [same, run ys n, List.append_left_inj, List.reverse_inj] at digits
  obtain rfl := decimal_injective digits
  exact ⟨List.append_cancel_right (List.append_cancel_right same), rfl⟩

namespace Iri

/-- Copies with one number tell their names, behind any separator. -/
theorem numbered_left_inj {separator : String} {copy : Nat} {n k : Iri} :
    n.numbered separator copy = k.numbered separator copy ↔ n = k := by
  refine ⟨fun same => chars_injective ?_, fun same => same ▸ rfl⟩
  have chars := congrArg Iri.chars same
  rw [chars_numbered, chars_numbered] at chars
  exact List.append_cancel_right (List.append_cancel_right chars)

/-- Behind a mark, copies tell their names and their numbers. -/
theorem numbered_inj {separator : String} (mark : HasMark separator)
    {name other : Iri} {m n : Nat}
    (same : name.numbered separator m = other.numbered separator n) :
    name = other ∧ m = n := by
  have chars := congrArg Iri.chars same
  rw [chars_numbered, chars_numbered] at chars
  obtain ⟨text, number⟩ := Text.decimal_append_inj mark chars
  exact ⟨chars_injective text, number⟩

/-- Copies tell their names and their numbers. -/
theorem numbered_injective {separator : String} (plain : EndsPlain separator)
    {name other : Iri} {m n : Nat}
    (same : name.numbered separator m = other.numbered separator n) :
    name = other ∧ m = n :=
  numbered_inj plain.hasMark same

/-- A copy is no reserved class: it ends in a digit. -/
theorem isReserved_numbered (separator : String) (name : Iri) (copy : Nat) :
    (name.numbered separator copy).isReserved = false := by
  have digit : ∀ c ∈ (name.numbered separator copy).chars.getLast?,
      c.isDigit = true := by
    intro c hc
    rw [chars_numbered, List.getLast?_append] at hc
    have last := List.getLast?_eq_some_getLast (Text.decimal_ne_nil copy)
    rw [last, Option.some_or] at hc
    rw [← last] at hc
    exact List.all_eq_true.1 (Text.all_isDigit_decimal copy) c
      (List.mem_of_getLast? hc)
  have reserved (n : Iri) (h : n.isReserved = true) :
      ∃ c ∈ n.chars.getLast?, c.isDigit = false := by
    rw [isReserved, Bool.or_eq_true, decide_eq_true_eq,
      decide_eq_true_eq] at h
    rcases h with rfl | rfl
    · exact ⟨'g', rfl, by decide⟩
    · exact ⟨'g', rfl, by decide⟩
  cases h : (name.numbered separator copy).isReserved with
  | false => rfl
  | true =>
    obtain ⟨c, hc, plain⟩ := reserved _ h
    rw [digit c hc] at plain
    cases plain

end Iri

-- ======================================================================= plans

namespace CopyPlan

variable (plan : CopyPlan)

/-- What a plan puts for a name. -/
def target (name : Iri) : Iri :=
  if name ∈ plan.names then name.numbered plan.separator plan.copy else name

/-- A plan can put its target for a name: a copy must be a valid IRI that is
not used already. -/
def Admits (name : Iri) : Prop :=
  name ∈ plan.names →
    (name.numbered plan.separator plan.copy).IsValid ∧
      plan.existing.contains
        (name.numbered plan.separator plan.copy) = false

/-- A plan can put targets for all names of a signature. -/
def Fits (s : Signature) : Prop :=
  ∀ name, s.contains name = true → plan.Admits name

variable {plan}

@[simp]
theorem fits_empty : plan.Fits .empty := by
  intro name h
  cases h

@[simp]
theorem fits_union {s t : Signature} :
    plan.Fits (s ∪ t) ↔ plan.Fits s ∧ plan.Fits t := by
  unfold Fits
  simp only [Signature.contains_union, or_imp, forall_and]

@[simp]
theorem fits_unionAll {β : Type} {signature : β → Signature} {xs : List β} :
    plan.Fits (.unionAll signature xs) ↔ ∀ x ∈ xs, plan.Fits (signature x) := by
  unfold Fits
  simp only [Signature.contains_unionAll]
  constructor
  · intro h x hx name hn
    exact h name ⟨x, hx, hn⟩
  · intro h name hn
    obtain ⟨x, hx, hn⟩ := hn
    exact h x hx name hn

theorem fits_ofProperty {p : Iri} :
    plan.Fits (.ofProperty p) ↔ plan.Admits p := by
  unfold Fits
  simp [Signature.contains_iff, Signature.ofProperty]

/-- The signature of a reserved class is empty, and no plan fails on it. -/
theorem fits_ofClass {n : Iri} :
    plan.Fits (.ofClass n) ↔ (n.isReserved = false → plan.Admits n) := by
  unfold Fits
  cases h : n.isReserved <;>
    simp [Signature.contains_iff, Signature.ofClass, Signature.empty, h]

theorem fits_ofIndividual {a : Individual} :
    plan.Fits (.ofIndividual a) ↔
      match a with
      | .named n => plan.Admits n
      | .anonymous _ => True := by
  cases a with
  | named n =>
    unfold Fits
    simp [Signature.contains_iff, Signature.ofIndividual]
  | anonymous b => exact iff_of_true fits_empty trivial

-- =========================================================== success of copies

/-- A name is copied exactly if the plan admits it, and to its target. -/
theorem iri_eq_ok {n r : Iri} :
    plan.iri n = .ok r ↔ plan.Admits n ∧ plan.target n = r := by
  unfold iri Admits target
  by_cases known : n ∈ plan.names
  · rw [if_pos (List.contains_iff_mem.2 known), if_pos known]
    simp only [known, true_implies]
    cases h : n.copyName plan.separator plan.copy with
    | error fault =>
      simp only [reduceCtorEq, false_iff]
      intro valid
      have := Iri.copyName_eq_ok.2 ⟨valid.1.1, rfl⟩
      rw [h] at this
      cases this
    | ok renamed =>
      obtain ⟨valid, rfl⟩ := Iri.copyName_eq_ok.1 h
      dsimp only
      split
      case isTrue used => simp [used]
      case isFalse free =>
        rw [Bool.not_eq_true] at free
        simp [valid, free]
  · rw [if_neg fun h => known (List.contains_iff_mem.1 h), if_neg known]
    simp [known]

/-- A class is copied exactly if it is reserved or admitted. -/
theorem className_eq_ok {n r : Iri} :
    plan.className n = .ok r ↔
      plan.Fits (.ofClass n) ∧ n.mapClass plan.target = r := by
  rw [fits_ofClass]
  unfold className Iri.mapClass
  cases n.isReserved with
  | true => simp
  | false => simp [iri_eq_ok]

theorem role_eq_ok {r s : Role} :
    plan.role r = .ok s ↔
      plan.Fits r.signature ∧ r.mapNames plan.target = s := by
  cases r <;> simp [role, Role.signature, Role.property, fits_ofProperty,
    iri_eq_ok, Role.mapNames, and_assoc]

theorem individual_eq_ok {a b : Individual} :
    plan.individual a = .ok b ↔
      plan.Fits (.ofIndividual a) ∧ a.mapNames plan.target = b := by
  rw [fits_ofIndividual]
  cases a <;> simp [individual, iri_eq_ok, Individual.mapNames, and_assoc]

/-- Concepts are copied one by one. -/
theorem concepts_eq_mapM (cs : List Concept) :
    plan.concepts cs = cs.mapM plan.concept := by
  induction cs with
  | nil => rfl
  | cons c cs ih => rw [concepts, ih, List.mapM_cons]

/-- A concept is copied exactly if the plan fits its signature, and to its
image under the targets. -/
theorem concept_eq_ok {c d : Concept} :
    plan.concept c = .ok d ↔
      plan.Fits c.signature ∧ c.mapNames plan.target = d := by
  induction c generalizing d with
  | atom n =>
    simp [concept, className_eq_ok, Concept.signature, Concept.mapNames,
      and_assoc]
  | inter cs ih =>
    simp [concept, concepts_eq_mapM, mapM_eq_ok fun c hc d => ih c hc,
      Concept.signature, Concept.signatureAll_eq, Concept.mapNames,
      Concept.mapNamesAll_eq, and_assoc]
  | union cs ih =>
    simp [concept, concepts_eq_mapM, mapM_eq_ok fun c hc d => ih c hc,
      Concept.signature, Concept.signatureAll_eq, Concept.mapNames,
      Concept.mapNamesAll_eq, and_assoc]
  | compl c ih =>
    simp [concept, ih, Concept.signature, Concept.mapNames, and_assoc]
  | oneOf members =>
    simp [concept, mapM_eq_ok fun a _ b => individual_eq_ok,
      Concept.signature, Concept.mapNames, and_assoc]
  | restrict n r c ih =>
    simp [concept, role_eq_ok, ih, Concept.signature, Concept.mapNames,
      and_assoc]

/-- An axiom is copied exactly if the plan fits its signature, and to its
image under the targets. -/
theorem body_eq_ok {a b : Axiom} :
    plan.body a = .ok b ↔
      plan.Fits a.signature ∧ a.mapNames plan.target = b := by
  have concepts (cs ds : List Concept) :
      plan.concepts cs = .ok ds ↔
        (∀ c ∈ cs, plan.Fits c.signature) ∧
          cs.map (Concept.mapNames plan.target) = ds := by
    rw [concepts_eq_mapM]
    exact mapM_eq_ok fun c _ d => concept_eq_ok
  have individuals (as bs : List Individual) :
      as.mapM plan.individual = .ok bs ↔
        (∀ a ∈ as, plan.Fits (.ofIndividual a)) ∧
          as.map (Individual.mapNames plan.target) = bs :=
    mapM_eq_ok fun a _ b => individual_eq_ok
  have roles (rs ss : List Role) :
      rs.mapM plan.role = .ok ss ↔
        (∀ r ∈ rs, plan.Fits r.signature) ∧
          rs.map (Role.mapNames plan.target) = ss :=
    mapM_eq_ok fun r _ s => role_eq_ok
  cases a <;> simp [body, triple, Axiom.signature, Axiom.mapNames,
    concept_eq_ok, role_eq_ok, individual_eq_ok, className_eq_ok, iri_eq_ok,
    concepts, individuals, roles, fits_ofProperty, and_assoc]

end CopyPlan

-- ================================================================== ontologies

/-- A statement under a map of names, with the same notes. -/
def Statement.mapNames (f : Iri → Iri) (s : Statement) : Statement :=
  { s with body := s.body.mapNames f }

/-- A statement is copied exactly if the plan fits its signature, and to its
image under the targets. -/
theorem CopyPlan.statement_eq_ok {plan : CopyPlan} {s t : Statement} :
    plan.statement s = .ok t ↔
      plan.Fits s.signature ∧ s.mapNames plan.target = t := by
  simp [CopyPlan.statement, CopyPlan.body_eq_ok, Statement.signature,
    Statement.mapNames, and_assoc]

namespace Ontology

variable {o : Ontology} {names : List Iri} {separator : String}
  {copy copies : Nat}

/-- A name in an axiom is a name in the ontology. -/
theorem contains_signature_of_mem {a : Axiom} (ha : a ∈ o.axioms) {n : Iri}
    (hn : a.signature.contains n = true) : o.signature.contains n = true :=
  Signature.contains_unionAll.2 ⟨a, ha, hn⟩

/-- A name in a statement is a name in the ontology. -/
theorem contains_signature {s : Statement} (hs : s ∈ o.statements) {n : Iri}
    (hn : s.signature.contains n = true) :
    o.signature.contains n = true :=
  contains_signature_of_mem (List.mem_map_of_mem hs) hn

/-- A statement that is not addressed is copied exactly if it mentions a name
that is renamed. -/
theorem isCopied_iff {s : Statement} (plain : s.definedBy = []) :
    isCopied names s = true ↔
      ∃ n ∈ names, s.signature.contains n = true := by
  simp [isCopied, Signature.mentions, plain]

/-- What is copied is not addressed. -/
theorem definedBy_of_isCopied {s : Statement}
    (copied : isCopied names s = true) : s.definedBy = [] := by
  rw [isCopied, Bool.and_eq_true] at copied
  exact List.isEmpty_iff.1 copied.2

/-- What a copy of an ontology is made with. -/
def copyPlan (o : Ontology) (names : List Iri) (separator : String)
    (copy : Nat) : CopyPlan :=
  ⟨names, separator, o.signature, copy⟩

/-- A copy can be made of all statements that a renaming copies. -/
def HasCopy (o : Ontology) (names : List Iri) (separator : String)
    (copy : Nat) : Prop :=
  ∀ s ∈ o.statements, isCopied names s = true →
    (o.copyPlan names separator copy).Fits s.signature

/-- A copy of an ontology is made exactly if it can be made of every
statement that it copies, and is then the image of these statements. -/
theorem copyOf_eq_ok {ss : List Statement} :
    o.copyOf names separator copy = .ok ss ↔
      o.HasCopy names separator copy ∧
        (o.statements.filter (isCopied names)).map
          (Statement.mapNames (o.copyPlan names separator copy).target) =
            ss := by
  unfold HasCopy
  rw [show o.copyOf names separator copy =
    (o.statements.filter (isCopied names)).mapM
      (o.copyPlan names separator copy).statement from rfl,
    mapM_eq_ok fun s _ t => CopyPlan.statement_eq_ok]
  simp only [List.mem_filter, and_imp]

/-- The copies that could be made, in order. -/
def copiesMade (o : Ontology) (names : List Iri) (separator : String)
    (copies : Nat) : List (List Statement) :=
  (List.range' 1 copies).filterMap fun copy =>
    (o.copyOf names separator copy).toOption

/-- The copies that a run merges are those that could be made. -/
theorem made_copyResults :
    Renaming.made (o.copyResults names separator copies) =
      o.copiesMade names separator copies :=
  List.filterMap_map

/-- A renaming reports no copy and leaves the ontology as it was, or it
reports those that could be made, and they stand in the place of what is
copied. -/
theorem rename_cases (o : Ontology) (names : List Iri) (separator : String)
    (copies : Nat) :
    let r := o.rename names separator copies
    let made := o.copiesMade names separator copies
    (r.tally.mergedCopies = 0 ∧ r.ontology = o) ∨
      (r.tally.mergedCopies = made.length ∧
        r.ontology = o.withCopies names made) := by
  intro r made
  by_cases nothing : copies = 0 ∨ names = []
  · left
    rw [show r = .start o 0 from rename_of_nothing nothing]
    exact ⟨rfl, rfl⟩
  rw [not_or] at nothing
  obtain ⟨asked, named⟩ := nothing
  by_cases failed : Renaming.made (o.copyResults names separator copies) = []
  · obtain ⟨ontology, tally⟩ := rename_of_made_eq_nil asked named failed
    left
    exact ⟨congrArg Renaming.Tally.mergedCopies tally, ontology⟩
  · obtain ⟨ontology, tally⟩ := rename_of_made asked named failed
    rw [made_copyResults] at ontology tally
    right
    exact ⟨congrArg Renaming.Tally.mergedCopies tally, ontology⟩

/-- If some copy is made, the statements that are not copied are followed by
the copies that could be made. -/
theorem rename_of_merged
    (merged : 0 < (o.rename names separator copies).tally.mergedCopies) :
    (o.rename names separator copies).tally.mergedCopies =
        (o.copiesMade names separator copies).length ∧
      (o.rename names separator copies).ontology =
        o.withCopies names (o.copiesMade names separator copies) := by
  rcases rename_cases o names separator copies with ⟨none, -⟩ | some
  · rw [none] at merged
    exact absurd merged (Nat.lt_irrefl 0)
  · exact some

/-- A renaming leaves the labels of entities as they are. -/
theorem rigid_rename (o : Ontology) (names : List Iri) (separator : String)
    (copies : Nat) :
    (o.rename names separator copies).ontology.rigid = o.rigid := by
  obtain ⟨-, ontology⟩ | ⟨-, ontology⟩ := rename_cases o names separator copies
  · rw [ontology]
  · rw [ontology]
    rfl

/-- Made are the copies, from the first to the last, that can be made. -/
theorem mem_copiesMade {ss : List Statement} :
    ss ∈ o.copiesMade names separator copies ↔
      ∃ copy, 1 ≤ copy ∧ copy ≤ copies ∧
        o.copyOf names separator copy = .ok ss := by
  unfold copiesMade
  rw [List.mem_filterMap]
  refine exists_congr fun copy => ?_
  rw [List.mem_range'_1, ← and_assoc]
  refine and_congr ⟨fun h => ⟨h.1, by omega⟩, fun h => ⟨h.1, by omega⟩⟩ ?_
  exact toOption_eq_some

/-- Where a copy is merged, one could be made. -/
theorem exists_hasCopy
    (merged : 0 < (o.rename names separator copies).tally.mergedCopies) :
    ∃ copy, 1 ≤ copy ∧ copy ≤ copies ∧ o.HasCopy names separator copy := by
  rw [(rename_of_merged merged).1] at merged
  obtain ⟨ss, hss⟩ := List.exists_mem_of_length_pos merged
  obtain ⟨copy, first, last, made⟩ := mem_copiesMade.1 hss
  exact ⟨copy, first, last, (copyOf_eq_ok.1 made).1⟩

/-- The statements after a renaming: those that are not copied, and the images
of those that are, for each copy that could be made. -/
theorem mem_statements_rename {s : Statement}
    (merged : 0 < (o.rename names separator copies).tally.mergedCopies) :
    s ∈ (o.rename names separator copies).ontology.statements ↔
      (s ∈ o.statements ∧ isCopied names s = false) ∨
        ∃ copy, 1 ≤ copy ∧ copy ≤ copies ∧ o.HasCopy names separator copy ∧
          ∃ t ∈ o.statements, isCopied names t = true ∧
            t.mapNames (o.copyPlan names separator copy).target = s := by
  rw [(rename_of_merged merged).2, withCopies, List.mem_append,
    List.mem_filter, Bool.not_eq_true', List.mem_flatten]
  refine or_congr_right ⟨?_, ?_⟩
  · rintro ⟨ss, hss, hs⟩
    obtain ⟨copy, first, last, made⟩ := mem_copiesMade.1 hss
    obtain ⟨possible, rfl⟩ := copyOf_eq_ok.1 made
    obtain ⟨t, ht, rfl⟩ := List.mem_map.1 hs
    obtain ⟨ht, copied⟩ := List.mem_filter.1 ht
    exact ⟨copy, first, last, possible, t, ht, copied, rfl⟩
  · rintro ⟨copy, first, last, possible, t, ht, copied, rfl⟩
    have made := copyOf_eq_ok.2 ⟨possible, rfl⟩
    exact ⟨_, mem_copiesMade.2 ⟨copy, first, last, made⟩,
      List.mem_map_of_mem (List.mem_filter.2 ⟨ht, copied⟩)⟩

/-- The axioms after a renaming: those that were not copied, and the images of
those that were, for each copy that could be made. -/
theorem mem_axioms_rename {a : Axiom}
    (merged : 0 < (o.rename names separator copies).tally.mergedCopies) :
    a ∈ (o.rename names separator copies).ontology.axioms ↔
      (∃ s ∈ o.statements, isCopied names s = false ∧ s.body = a) ∨
        ∃ copy, 1 ≤ copy ∧ copy ≤ copies ∧ o.HasCopy names separator copy ∧
          ∃ s ∈ o.statements, isCopied names s = true ∧
            s.body.mapNames (o.copyPlan names separator copy).target = a := by
  unfold axioms
  simp only [List.mem_map, mem_statements_rename merged]
  constructor
  · rintro ⟨s, ⟨hs, kept⟩ |
      ⟨copy, first, last, possible, t, ht, copied, rfl⟩, rfl⟩
    · exact .inl ⟨s, hs, kept, rfl⟩
    · exact .inr ⟨copy, first, last, possible, t, ht, copied, rfl⟩
  · rintro (⟨s, hs, kept, rfl⟩ |
      ⟨copy, first, last, possible, t, ht, copied, rfl⟩)
    · exact ⟨s, .inl ⟨hs, kept⟩, rfl⟩
    · exact ⟨_, .inr ⟨copy, first, last, possible, t, ht, copied, rfl⟩, rfl⟩

end Ontology

end ContextDL
