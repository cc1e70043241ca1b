/-
Ontologies: statements in order, and notes on entities.

A book of notes holds, for each entity, the notes on it in the order in which
they came, none of them twice. Entities are known by their IRI, whatever they
are used for. The lookup `notesOf` is the view of a book: two books that
answer all lookups alike are the same.
-/
import ContextDL.Statement

namespace ContextDL

-- =========================================================== notes on entities

/-- The notes on entities. -/
structure EntityNotes where
  entries : List (Iri × List Note)
deriving DecidableEq

namespace EntityNotes

-- =================================================================== additions

/-- The book without notes. -/
def empty : EntityNotes :=
  ⟨[]⟩

/-- Adds a note to those of an entity, at the end, unless it is there. -/
def addEntry (entity : Iri) (note : Note) :
    List (Iri × List Note) → List (Iri × List Note)
  | [] => [(entity, [note])]
  | (e, notes) :: entries =>
    if e = entity then
      (e, if note ∈ notes then notes else notes ++ [note]) :: entries
    else (e, notes) :: addEntry entity note entries

/-- Puts a note on an entity. -/
def add (book : EntityNotes) (entity : Iri) (note : Note) : EntityNotes :=
  ⟨addEntry entity note book.entries⟩

/-- Puts the notes of another book into this one, entry by entry. -/
def merge (book other : EntityNotes) : EntityNotes :=
  other.entries.foldl
    (fun book entry => entry.2.foldl (fun book note => book.add entry.1 note)
      book) book

-- ===================================================================== lookups

/-- The notes on an entity. -/
def notesOf (book : EntityNotes) (entity : Iri) : List Note :=
  (book.entries.lookup entity).getD []

/-- The entities with notes. -/
def entities (book : EntityNotes) : List Iri :=
  book.entries.map (·.1)

/-- An entity that is labelled rigid. -/
def isRigid (book : EntityNotes) (entity : Iri) : Bool :=
  (book.notesOf entity).any (·.isLabel "rigid")

/-- The entities that are labelled rigid. -/
def rigid (book : EntityNotes) : List Iri :=
  book.entities.filter book.isRigid

/-- Two books answer all lookups alike. -/
def agrees (book other : EntityNotes) : Bool :=
  (book.entities ++ other.entities).all fun e =>
    book.notesOf e = other.notesOf e

/-- An entity that is not in a book has no notes there. -/
theorem notesOf_eq_nil {book : EntityNotes} {e : Iri}
    (absent : e ∉ book.entities) : book.notesOf e = [] := by
  have none : book.entries.lookup e = none := by
    rw [List.lookup_eq_none_iff]
    intro p hp
    have apart : e ≠ p.1 := fun h => absent (List.mem_map.2 ⟨p, hp, h.symm⟩)
    simpa using apart
  simp [notesOf, none]

/-- Books that agree give equal answers, also for entities without notes. -/
theorem agrees_iff {book other : EntityNotes} :
    book.agrees other = true ↔ ∀ e, book.notesOf e = other.notesOf e := by
  simp only [agrees, List.all_eq_true, decide_eq_true_eq, List.mem_append]
  refine ⟨fun h e => ?_, fun h e _ => h e⟩
  by_cases known : e ∈ book.entities ∨ e ∈ other.entities
  · exact h e known
  · rw [not_or] at known
    rw [notesOf_eq_nil known.1, notesOf_eq_nil known.2]

-- ========================================================== notes after a note

variable {book : EntityNotes} {entity e : Iri} {note : Note}

/-- The first entry of an entity holds its notes. -/
theorem notesOf_cons (key : Iri) (notes : List Note)
    (entries : List (Iri × List Note)) :
    notesOf ⟨(key, notes) :: entries⟩ e =
      if e = key then notes else notesOf ⟨entries⟩ e := by
  unfold notesOf
  rw [List.lookup_cons]
  by_cases h : e = key
  · rw [if_pos h, beq_iff_eq.2 h]
    rfl
  · rw [if_neg h, beq_eq_false_iff_ne.2 h]

/-- A note that is added is found at its entity, and nowhere else. -/
theorem notesOf_add :
    (book.add entity note).notesOf e =
      if e = entity ∧ note ∉ book.notesOf e then book.notesOf e ++ [note]
      else book.notesOf e := by
  obtain ⟨entries⟩ := book
  unfold add
  induction entries with
  | nil =>
    rw [addEntry, notesOf_cons]
    by_cases h : e = entity <;> simp [notesOf, h]
  | cons entry entries ih =>
    obtain ⟨key, notes⟩ := entry
    dsimp only at ih ⊢
    rw [addEntry, notesOf_cons]
    by_cases hkey : key = entity
    · subst hkey
      rw [if_pos rfl, notesOf_cons]
      by_cases h : e = key
      · by_cases known : note ∈ notes <;> simp [h, known]
      · simp [h]
    · rw [if_neg hkey, notesOf_cons, ih]
      by_cases h : e = key
      · simp [h, hkey]
      · simp [h]

/-- An entity is rigid after a note is added if it was, or if the note labels
it so. -/
theorem isRigid_add :
    (book.add entity note).isRigid e = true ↔
      book.isRigid e = true ∨ e = entity ∧ note.isLabel "rigid" = true := by
  unfold isRigid
  rw [notesOf_add]
  split
  case isTrue h => simp [h.1]
  case isFalse h =>
    rw [not_and, Classical.not_not] at h
    constructor
    · exact .inl
    · intro rigid
      rcases rigid with rigid | ⟨he, label⟩
      · exact rigid
      · exact List.any_eq_true.2 ⟨note, h he, label⟩

/-- The rigid entities are those that are labelled rigid. -/
theorem mem_rigid : e ∈ book.rigid ↔ book.isRigid e = true := by
  unfold rigid
  rw [List.mem_filter, and_iff_right_iff_imp]
  intro rigid
  obtain ⟨note, known, -⟩ := List.any_eq_true.1 rigid
  obtain ⟨entries⟩ := book
  clear rigid
  induction entries with
  | nil => cases known
  | cons entry entries ih =>
    obtain ⟨key, notes⟩ := entry
    rw [notesOf_cons] at known
    split at known
    case isTrue h => exact h ▸ List.mem_cons_self
    case isFalse h => exact List.mem_cons_of_mem _ (ih known)

-- ================================================================ rigid labels

/-- A book with labels on some more rigid entities. -/
def markAll (book : EntityNotes) (entities : List Iri) : EntityNotes :=
  entities.foldl (fun book entity => book.add entity .rigid) book

/-- Labels make entities rigid, and none is taken away. -/
theorem isRigid_markAll {book : EntityNotes} {entities : List Iri} {e : Iri} :
    (book.markAll entities).isRigid e = true ↔
      book.isRigid e = true ∨ e ∈ entities := by
  unfold markAll
  induction entities generalizing book with
  | nil => simp
  | cons entity entities ih =>
    have label : Note.rigid.isLabel "rigid" = true := by decide
    rw [List.foldl_cons, ih, isRigid_add, label, List.mem_cons]
    simp [or_assoc]

end EntityNotes

-- ================================================================== ontologies

/-- A document of statements. -/
structure Ontology where
  iri : Option Iri
  statements : List Statement
  notes : EntityNotes
deriving DecidableEq

namespace Ontology

-- ================================================================ construction

/-- The ontology without statements and notes. -/
def empty (iri : Option Iri) : Ontology :=
  ⟨iri, [], .empty⟩

/-- The unnamed ontology of some axioms, without notes. -/
def ofAxioms (bodies : List Axiom) : Ontology :=
  ⟨none, bodies.map Statement.plain, .empty⟩

/-- Names an ontology, or takes its name away. -/
def setIri (o : Ontology) (iri : Option Iri) : Ontology :=
  { o with iri }

/-- Adds statements at the end. -/
def extend (o : Ontology) (statements : List Statement) : Ontology :=
  { o with statements := o.statements ++ statements }

/-- Adds a statement at the end. -/
def add (o : Ontology) (statement : Statement) : Ontology :=
  o.extend [statement]

/-- Puts a note on an entity. -/
def annotate (o : Ontology) (entity : Iri) (note : Note) : Ontology :=
  { o with notes := o.notes.add entity note }

/-- Labels an entity as rigid. -/
def markRigid (o : Ontology) (entity : Iri) : Ontology :=
  o.annotate entity Note.rigid

/-- Labels leave the rest of an ontology alone. -/
theorem foldl_markRigid (entities : List Iri) (o : Ontology) :
    entities.foldl markRigid o =
      { o with notes := o.notes.markAll entities } := by
  unfold EntityNotes.markAll
  induction entities generalizing o with
  | nil => rfl
  | cons entity entities ih => exact ih (o.markRigid entity)

/-- Keeps the statements that satisfy a condition. -/
def retain (o : Ontology) (keep : Statement → Bool) : Ontology :=
  { o with statements := o.statements.filter keep }

/-- Adds the statements and the notes of another ontology. The name stays. -/
def merge (o other : Ontology) : Ontology :=
  { o with
    statements := o.statements ++ other.statements
    notes := o.notes.merge other.notes }

-- ===================================================================== queries

/-- The axioms of an ontology, without notes. -/
def axioms (o : Ontology) : List Axiom :=
  o.statements.map Statement.body

/-- An axiom is stated, with whatever notes. -/
def states (o : Ontology) (body : Axiom) : Bool :=
  o.axioms.contains body

/-- The names in the axioms of an ontology. -/
def signature (o : Ontology) : Signature :=
  .unionAll Axiom.signature o.axioms

/-- An entity that is labelled rigid. -/
def isRigid (o : Ontology) (entity : Iri) : Bool :=
  o.notes.isRigid entity

/-- The entities that are labelled rigid. -/
def rigid (o : Ontology) : List Iri :=
  o.notes.rigid

/-- Two ontologies have one name, the same statements in the same order, and
the same notes on every entity. -/
def agrees (o other : Ontology) : Bool :=
  o.iri = other.iri && o.statements = other.statements &&
    o.notes.agrees other.notes

-- ===================================================================== writing

/-- The first line of a written ontology. -/
def heading (o : Ontology) : String :=
  match o.iri with
  | some iri => "Ontology(" ++ iri.quoted ++ ")"
  | none => "Ontology(anonymous)"

/-- The text of an ontology: its heading and its statements, a line each. -/
def text (o : Ontology) : String :=
  o.statements.foldl (fun text s => text ++ "  " ++ s.text ++ "\n")
    (o.heading ++ "\n")

end Ontology

end ContextDL
