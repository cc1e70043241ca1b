/-
Which documents have no context model, and why.

`Statement.HasFault` says what is wrong with a statement that stands behind
some others. It is told by the notes of the statement, by its axiom, and by the
concepts that address the statements before it (`Statement.Defines`); it does
not know of the model that has been built of them so far. Every fault excludes
those that are tested before it.

# One step

A model of some statements names exactly the concepts that define one of them
(`ContextBase.mem_namingConcepts_iff`). So adding a statement to the model
fails exactly if the statement has a fault behind them
(`ContextBase.addStatement_eq_error`).

# A document

The first statement with a fault ends the work, and nothing that stands before
or behind it has a say in the error (`ContextBase.addStatements_eq_error`). The
induction takes the last statement off: what stands before it either fails
itself, or has a model that the last statement is added to.
-/
import ContextDL.Context.BranchOntology
import ContextDL.Proofs.Context.Partition

namespace ContextDL

-- ====================================================================== values

/-- One value is left of a list without repetition exactly if it is the only
one in the list. -/
theorem eraseDups_eq_singleton {xs : List NoteValue} {x : NoteValue} :
    xs.eraseDups = [x] ↔ x ∈ xs ∧ ∀ y ∈ xs, y = x := by
  constructor
  · intro single
    have mem (y : NoteValue) : y ∈ xs ↔ y = x := by
      rw [← List.mem_eraseDups, single, List.mem_singleton]
    exact ⟨(mem x).2 rfl, fun y hy => (mem y).1 hy⟩
  · rintro ⟨known, only⟩
    cases xs with
    | nil => cases known
    | cons y ys =>
      obtain rfl := only y List.mem_cons_self
      have none : ys.filter (fun z => !z == y) = [] := by
        rw [List.filter_eq_nil_iff]
        intro z hz
        simp [only z (List.mem_cons_of_mem _ hz)]
      rw [List.eraseDups_cons, none, List.eraseDups_nil]

namespace Statement

/-- A value is the only one that addresses a logical statement, which is not
global. Notes may repeat it. -/
structure AddressedBy (s : Statement) (value : NoteValue) : Prop where
  logical : s.isLogical = true
  apart : s.isGlobal = false
  mem : value ∈ s.definedBy
  only : ∀ other ∈ s.definedBy, other = value

/-- A statement belongs to a concept exactly if the concept alone addresses
it. -/
theorem part_eq_addressed {s : Statement} {concept : Iri} :
    s.part = .ok (.addressed concept) ↔ s.AddressedBy (.iri concept) := by
  constructor
  · intro part
    obtain ⟨⟨⟩, -⟩ | ⟨⟨⟩, -⟩ | ⟨⟨⟩, -⟩ | ⟨_, ⟨⟩, logical, values, apart⟩ :=
      part_cases part
    obtain ⟨mem, only⟩ := eraseDups_eq_singleton.1 values
    exact ⟨logical, apart, mem, only⟩
  · rintro ⟨logical, apart, mem, only⟩
    have values := eraseDups_eq_singleton.2 ⟨mem, only⟩
    unfold part
    rw [show s.body.isLogical = true from logical, values, apart]
    rfl

-- ====================================================================== faults

/-- A concept that may not address an axiom: one of the two reserved classes,
or a name that is marked as the dual of another. -/
def IsSetAside (concept : Iri) : Prop :=
  concept = .thing ∨ concept = .nothing ∨ dualMark <+: concept.localName

/-- The concepts that address a logical statement among some. -/
def Defines (ss : List Statement) (concept : Iri) : Prop :=
  ∃ s ∈ ss, s.isLogical = true ∧ .iri concept ∈ s.definedBy

end Statement

/-- An axiom that has a negation: an inclusion, or what is said of the members
of a concept or of a role. -/
def Axiom.hasNegation : Axiom → Bool
  | .subClassOf .. | .classAssertion .. | .roleAssertion ..
  | .noRoleAssertion .. => true
  | _ => false

/-- An axiom of another kind is reported as it is. -/
theorem Axiom.negation_eq_error {a : Axiom} {supply : Supply}
    {reason : NoNegation} :
    a.negation supply = .error reason ↔
      a.hasNegation = false ∧ reason = ⟨a⟩ := by
  cases a <;> simp [negation, hasNegation, eq_comm]

namespace Statement

/-- What is wrong with a statement that stands behind some others. -/
inductive HasFault (earlier : List Statement) (s : Statement) :
    ContextError → Prop where
  | addressedGlobal (logical : s.isLogical = true)
      (addressed : s.definedBy ≠ []) (global : s.isGlobal = true) :
      HasFault earlier s (.addressedGlobal s.body)
  | multipleDefinitions (logical : s.isLogical = true)
      (apart : s.isGlobal = false) {value other : NoteValue}
      (first : value ∈ s.definedBy) (second : other ∈ s.definedBy)
      (distinct : value ≠ other) :
      HasFault earlier s (.multipleDefinitions s.body)
  | literalDefinition {content : Literal}
      (address : s.AddressedBy (.literal content)) :
      HasFault earlier s (.literalDefinition s.body content)
  | reserved {concept : Iri} (address : s.AddressedBy (.iri concept))
      (unfit : IsSetAside concept) :
      HasFault earlier s (.reserved concept)
  | duplicate {concept : Iri} (address : s.AddressedBy (.iri concept))
      (fit : ¬ IsSetAside concept) (defined : Defines earlier concept) :
      HasFault earlier s (.duplicate concept)
  | noNegation {concept : Iri} (address : s.AddressedBy (.iri concept))
      (fit : ¬ IsSetAside concept) (new : ¬ Defines earlier concept)
      (none : s.body.hasNegation = false) :
      HasFault earlier s (.noNegation concept ⟨s.body⟩)

variable {s : Statement} {ss earlier : List Statement} {e : ContextError}

/-- Only a logical statement has a fault. -/
theorem HasFault.isLogical (fault : s.HasFault earlier e) :
    s.isLogical = true := by
  cases fault with
  | addressedGlobal logical | multipleDefinitions logical => exact logical
  | literalDefinition address | reserved address | duplicate address
  | noNegation address => exact address.logical

/-- Only a statement that is addressed has a fault. -/
theorem HasFault.definedBy_ne_nil (fault : s.HasFault earlier e) :
    s.definedBy ≠ [] := by
  cases fault with
  | addressedGlobal logical addressed => exact addressed
  | multipleDefinitions logical apart first =>
    exact List.ne_nil_of_mem first
  | literalDefinition address | reserved address | duplicate address
  | noNegation address => exact List.ne_nil_of_mem address.mem

/-- A statement without a part has a fault, whatever stands before it. -/
theorem HasFault.of_part (failed : s.part = .error e) :
    s.HasFault earlier e := by
  unfold part at failed
  split at failed
  case isTrue => cases failed
  case isFalse inside =>
    have logical : s.body.isLogical = true := by simpa using inside
    split at failed
    case h_1 => cases failed
    case h_2 value others values =>
      have mem (v : NoteValue) : v ∈ s.definedBy ↔ v = value ∨ v ∈ others := by
        rw [← List.mem_eraseDups, values, List.mem_cons]
      split at failed
      case isTrue global =>
        cases failed
        exact .addressedGlobal logical
          (List.ne_nil_of_mem ((mem value).2 (.inl rfl))) global
      case isFalse apart =>
        rw [Bool.not_eq_true] at apart
        split at failed
        case h_1 => cases failed
        case h_2 content =>
          cases failed
          obtain ⟨known, only⟩ := eraseDups_eq_singleton.1 values
          exact .literalDefinition ⟨logical, apart, known, only⟩
        case h_3 other rest =>
          cases failed
          have nodup := nodup_eraseDups s.definedBy
          rw [values, List.nodup_cons] at nodup
          refine .multipleDefinitions logical apart ((mem value).2 (.inl rfl))
            ((mem other).2 (.inr List.mem_cons_self)) ?_
          rintro rfl
          exact nodup.1 List.mem_cons_self

-- A statement with one of the first three faults has no part.

theorem part_of_addressedGlobal (logical : s.isLogical = true)
    (addressed : s.definedBy ≠ []) (global : s.isGlobal = true) :
    s.part = .error (.addressedGlobal s.body) := by
  obtain ⟨v, hv⟩ := List.exists_mem_of_ne_nil _ addressed
  unfold part
  rw [show s.body.isLogical = true from logical, global]
  cases values : s.definedBy.eraseDups with
  | nil =>
    rw [← List.mem_eraseDups, values] at hv
    cases hv
  | cons => rfl

theorem part_of_multipleDefinitions (logical : s.isLogical = true)
    (apart : s.isGlobal = false) {value other : NoteValue}
    (first : value ∈ s.definedBy) (second : other ∈ s.definedBy)
    (distinct : value ≠ other) :
    s.part = .error (.multipleDefinitions s.body) := by
  rw [← List.mem_eraseDups] at first second
  unfold part
  rw [show s.body.isLogical = true from logical, apart]
  match values : s.definedBy.eraseDups with
  | [] =>
    rw [values] at first
    cases first
  | [v] =>
    rw [values, List.mem_singleton] at first second
    exact absurd (first.trans second.symm) distinct
  | .iri _ :: _ :: _ | .literal _ :: _ :: _ => rfl

theorem part_of_literalDefinition {content : Literal}
    (address : s.AddressedBy (.literal content)) :
    s.part = .error (.literalDefinition s.body content) := by
  have values := eraseDups_eq_singleton.2 ⟨address.mem, address.only⟩
  unfold part
  rw [show s.body.isLogical = true from address.logical, values,
    address.apart]
  rfl

end Statement

namespace ContextBase

-- ==================================================================== one step

open Statement

variable {m m' : ContextBase} {supply left : Supply} {o : Ontology}
  {s : Statement} {ss : List Statement} {concept : Iri} {e : ContextError}

/-- A concept is unfit for addressing if it is set aside. -/
theorem isUnfit_iff : isUnfit concept = true ↔ IsSetAside concept := by
  simp [isUnfit, IsSetAside, Iri.isReserved, Iri.isDual, or_assoc]

/-- A model has exactly the naming concepts that define a statement of it. -/
theorem mem_namingConcepts_iff (sorted : IsSorted ss m) :
    concept ∈ m.namingConcepts ↔ Defines ss concept := by
  constructor
  · intro naming
    obtain ⟨d, hd, rfl⟩ := List.mem_map.1 naming
    have address : (.iri d.concept, d.body) ∈ addresses ss := by
      rw [← sorted.definitions]
      exact List.mem_map_of_mem hd
    obtain ⟨s, hs, address⟩ := List.mem_flatMap.1 address
    obtain ⟨stated, logical⟩ := List.mem_filter.1 hs
    obtain ⟨value, hvalue, same⟩ := List.mem_map.1 address
    obtain ⟨rfl, -⟩ := Prod.mk.inj same
    exact ⟨s, stated, logical, List.mem_eraseDups.1 hvalue⟩
  · rintro ⟨s, stated, logical, addressed⟩
    obtain ⟨d, hd, rfl, -⟩ := sorted.exists_definition stated logical addressed
    exact List.mem_map_of_mem hd

/-- A concept is naming exactly if it defines a statement of the model. -/
theorem isNaming_iff (sorted : IsSorted ss m) :
    m.isNaming concept = true ↔ Defines ss concept := by
  rw [isNaming, List.contains_iff_mem, mem_namingConcepts_iff sorted]

/-- A definition that cannot be added is at fault. -/
theorem hasFault_of_define (sorted : IsSorted ss m)
    (address : s.AddressedBy (.iri concept))
    (failed : m.define supply concept s.body = .error e) :
    s.HasFault ss e := by
  unfold define at failed
  split at failed
  case isTrue unfit =>
    cases failed
    exact .reserved address (isUnfit_iff.1 unfit)
  case isFalse fit =>
    rw [isUnfit_iff] at fit
    split at failed
    case isTrue naming =>
      cases failed
      exact .duplicate address fit ((isNaming_iff sorted).1 naming)
    case isFalse new =>
      rw [isNaming_iff sorted] at new
      split at failed
      case h_1 reason made =>
        obtain ⟨none, rfl⟩ := Axiom.negation_eq_error.1 made
        cases failed
        exact .noNegation address fit new none
      case h_2 => cases failed

/-- Adding a statement fails exactly if it has a fault behind the statements
that the model was made of. -/
theorem addStatement_eq_error (sorted : IsSorted ss m) (supply : Supply) :
    m.addStatement supply s = .error e ↔ s.HasFault ss e := by
  unfold addStatement
  constructor
  · intro failed
    rcases bind_eq_error.1 failed with failed | ⟨part, hpart, failed⟩
    · exact .of_part failed
    · cases part with
      | outside | metaLevel => cases failed
      | everywhere =>
        dsimp only at failed
        split at failed <;> cases failed
      | addressed concept =>
        exact hasFault_of_define sorted (part_eq_addressed.1 hpart) failed
  · intro fault
    cases fault with
    | addressedGlobal logical addressed global =>
      rw [part_of_addressedGlobal logical addressed global]
      rfl
    | multipleDefinitions logical apart first second distinct =>
      rw [part_of_multipleDefinitions logical apart first second distinct]
      rfl
    | literalDefinition address =>
      rw [part_of_literalDefinition address]
      rfl
    | reserved address unfit =>
      rw [part_eq_addressed.2 address]
      show m.define supply _ s.body = _
      unfold define
      rw [if_pos (isUnfit_iff.2 unfit)]
    | duplicate address fit defined =>
      rw [part_eq_addressed.2 address]
      show m.define supply _ s.body = _
      unfold define
      rw [if_neg (mt isUnfit_iff.1 fit),
        if_pos ((isNaming_iff sorted).2 defined)]
    | noNegation address fit new none =>
      rw [part_eq_addressed.2 address]
      show m.define supply _ s.body = _
      unfold define
      rw [if_neg (mt isUnfit_iff.1 fit),
        if_neg (mt (isNaming_iff sorted).1 new),
        Axiom.negation_eq_error.2 ⟨none, rfl⟩]

end ContextBase

namespace Statement

-- ================================================================= a document

variable {s : Statement} {ss : List Statement} {e : ContextError}

/-- The statements of a list have no fault behind each other. -/
def IsFaultless (ss : List Statement) : Prop :=
  ∀ before s after, ss = before ++ s :: after → ∀ e, ¬ s.HasFault before e

/-- The first fault of a list, before which there is none. -/
def FirstFault (ss : List Statement) (e : ContextError) : Prop :=
  ∃ before s after, ss = before ++ s :: after ∧ IsFaultless before ∧
    s.HasFault before e

/-- A statement of a list with one more member is this member, or stood in the
list before. -/
theorem concat_eq_append_cons {before after : List Statement}
    {t : Statement} :
    ss ++ [s] = before ++ t :: after ↔
      (before = ss ∧ t = s ∧ after = []) ∨
        ∃ rest, after = rest ++ [s] ∧ ss = before ++ t :: rest := by
  constructor
  · intro same
    rcases List.eq_nil_or_concat after with rfl | ⟨rest, u, rfl⟩
    · obtain ⟨rfl, last⟩ := List.append_inj' same rfl
      exact .inl ⟨rfl, (List.singleton_inj.1 last).symm, rfl⟩
    · rw [List.concat_eq_append, ← List.cons_append,
        ← List.append_assoc] at same
      obtain ⟨rfl, last⟩ := List.append_inj' same rfl
      refine .inr ⟨rest, ?_, rfl⟩
      rw [List.concat_eq_append, last]
  · rintro (⟨rfl, rfl, rfl⟩ | ⟨rest, rfl, rfl⟩)
    · rfl
    · rw [List.append_assoc, List.cons_append]

/-- One more statement keeps a list faultless if it has no fault behind it. -/
theorem isFaultless_concat :
    IsFaultless (ss ++ [s]) ↔ IsFaultless ss ∧ ∀ e, ¬ s.HasFault ss e := by
  simp only [IsFaultless, concat_eq_append_cons]
  constructor
  · intro none
    refine ⟨fun before t rest same => ?_, ?_⟩
    · exact none before t (rest ++ [s]) (.inr ⟨rest, rfl, same⟩)
    · exact none ss s [] (.inl ⟨rfl, rfl, rfl⟩)
  · rintro ⟨none, last⟩ before t after (⟨rfl, rfl, -⟩ | ⟨rest, -, same⟩)
    · exact last
    · exact none before t rest same

/-- With one more statement, the first fault is the one that there was, or the
new one if there was none. -/
theorem firstFault_concat :
    FirstFault (ss ++ [s]) e ↔
      FirstFault ss e ∨ IsFaultless ss ∧ s.HasFault ss e := by
  simp only [FirstFault, concat_eq_append_cons]
  constructor
  · rintro ⟨before, t, after, ⟨rfl, rfl, -⟩ | ⟨rest, -, same⟩, none, fault⟩
    · exact .inr ⟨none, fault⟩
    · exact .inl ⟨before, t, rest, same, none, fault⟩
  · rintro (⟨before, t, rest, same, none, fault⟩ | ⟨none, fault⟩)
    · exact ⟨before, t, _, .inr ⟨rest, rfl, same⟩, none, fault⟩
    · exact ⟨ss, s, [], .inl ⟨rfl, rfl, rfl⟩, none, fault⟩

end Statement

namespace ContextBase

open Statement

variable {m : ContextBase} {supply left : Supply} {o : Ontology}
  {s : Statement} {ss : List Statement} {e : ContextError}

/-- The last statement is added to the model of those before it. -/
theorem addStatements_concat :
    m.addStatements supply (ss ++ [s]) =
      m.addStatements supply ss >>= fun r => r.1.addStatement r.2 s := by
  unfold addStatements
  rw [List.foldlM_append]
  simp

/-- The model of some statements is theirs whatever they are a part of. -/
theorem isSorted_of_addStatements
    (run : (start o).addStatements supply ss = .ok (m, left)) :
    IsSorted ss m :=
  isSorted_of_ofOntology (o := { o with statements := ss }) run

/-- Some statements have a model exactly if they are faultless. -/
theorem exists_addStatements_iff (supply : Supply) (o : Ontology)
    (ss : List Statement) :
    (∃ r, (start o).addStatements supply ss = .ok r) ↔ IsFaultless ss := by
  induction ss using List.reverseRecOn with
  | nil =>
    refine iff_of_true ⟨_, rfl⟩ ?_
    intro before s after same
    simp at same
  | append_singleton ss s ih =>
    rw [addStatements_concat, isFaultless_concat, ← ih]
    simp only [bind_eq_ok]
    constructor
    · rintro ⟨r, ⟨m, left⟩, run, last⟩
      refine ⟨⟨_, run⟩, fun e fault => ?_⟩
      have sorted := isSorted_of_addStatements run
      rw [(addStatement_eq_error sorted _).2 fault] at last
      cases last
    · rintro ⟨⟨⟨m, left⟩, run⟩, none⟩
      have sorted := isSorted_of_addStatements run
      obtain ⟨r, last⟩ := exists_eq_ok_iff.2 fun e failed =>
        none e ((addStatement_eq_error sorted left).1 failed)
      exact ⟨r, _, run, last⟩

/-- Adding statements fails with their first fault. -/
theorem addStatements_eq_error :
    (start o).addStatements supply ss = .error e ↔ FirstFault ss e := by
  induction ss using List.reverseRecOn with
  | nil =>
    refine iff_of_false (fun failed => by cases failed) ?_
    rintro ⟨before, s, after, same, -⟩
    simp at same
  | append_singleton ss s ih =>
    rw [addStatements_concat, firstFault_concat, bind_eq_error, ih,
      ← exists_addStatements_iff supply o]
    refine or_congr Iff.rfl ⟨?_, ?_⟩
    · rintro ⟨⟨m, left⟩, run, failed⟩
      have sorted := isSorted_of_addStatements run
      exact ⟨⟨_, run⟩, (addStatement_eq_error sorted _).1 failed⟩
    · rintro ⟨⟨⟨m, left⟩, run⟩, fault⟩
      have sorted := isSorted_of_addStatements run
      exact ⟨_, run, (addStatement_eq_error sorted _).2 fault⟩

/-- A document has no model exactly if some logical statement of it is at
fault, and the error is that of the first one which is. Declarations are never
at fault. -/
theorem ofOntology_eq_error_iff (supply : Supply) (o : Ontology) :
    ((∃ e, ofOntology supply o = .error e) ↔
      ∃ before s after, o.statements = before ++ s :: after ∧
        ∃ e, s.HasFault before e) ∧
    (∀ e, ofOntology supply o = .error e ↔
      ∃ before s after, o.statements = before ++ s :: after ∧
        IsFaultless before ∧ s.HasFault before e) ∧
    ∀ (s : Statement) before e, s.isLogical = false →
      ¬ s.HasFault before e := by
  have first (e : ContextError) :
      ofOntology supply o = .error e ↔ FirstFault o.statements e :=
    addStatements_eq_error
  have built := exists_addStatements_iff supply o o.statements
  refine ⟨⟨?_, ?_⟩, first, ?_⟩
  · rintro ⟨e, failed⟩
    obtain ⟨before, s, after, same, -, fault⟩ := (first e).1 failed
    exact ⟨before, s, after, same, e, fault⟩
  · rintro ⟨before, s, after, same, e, fault⟩
    by_contra none
    have faultless := built.1 (exists_eq_ok_iff.2 (not_exists.1 none))
    exact faultless before s after same e fault
  · intro s before e declared fault
    rw [fault.isLogical] at declared
    cases declared

/-- A declaration that two concepts address and that is global, a definition
whose note is repeated, an inclusion that the same concept addresses, and an
equivalence, which has no negation. -/
def faultyDocument : Ontology :=
  let a : Concept := .atom ⟨"e:A"⟩
  let address : Note := .definedBy ⟨"e:N"⟩
  { iri := none
    statements :=
      [⟨.declareClass ⟨"e:A"⟩, [address, .definedBy ⟨"e:M"⟩, .objectGlobal]⟩,
        ⟨.subClassOf a .bottom, [address, address]⟩,
        ⟨.subClassOf .top a, [address]⟩,
        ⟨.equivalentClasses [a, .top], [.definedBy ⟨"e:M"⟩]⟩]
    notes := .empty }

/-- The inclusion is the first that is at fault. -/
example : ofOntology .full faultyDocument = .error (.duplicate ⟨"e:N"⟩) := by
  decide +kernel

end ContextBase

end ContextDL
