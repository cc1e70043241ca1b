/-
Merging books of notes.

`EntityNotes.merge` goes through the other book entry by entry, so it adds the
notes in another order than the one in which that book was written. The order
does not matter: `EntityNotes.merge_add` says that a note on the other book
may as well be put on the merged one afterwards. So a book that was written
note by note is merged by writing it once more (`EntityNotes.merge_markAll`).

# Why the order does not matter

An entity keeps its place in a book, and its notes keep theirs in its entry.
A note on an entity that is in the book already can change places with a note
on any other entity (`EntityNotes.add_add_comm`). If the entity is not yet in
the book it cannot, as the first of the two is put in front. In a book without
empty entries (`EntityNotes.IsKept`) an entity is known once its entry has
been gone through, and its later notes can wait until the end.
-/
import ContextDL.Ontology
import Mathlib.Data.List.Induction

namespace ContextDL.EntityNotes

variable {book other : EntityNotes} {entity e : Iri} {note n : Note}

-- ==================================================================== one note

/-- A note that is there already changes nothing. -/
theorem add_of_mem (known : note ∈ book.notesOf entity) :
    book.add entity note = book := by
  obtain ⟨entries⟩ := book
  suffices same : addEntry entity note entries = entries from
    congrArg EntityNotes.mk same
  induction entries with
  | nil => cases known
  | cons entry entries ih =>
    obtain ⟨key, notes⟩ := entry
    rw [notesOf_cons] at known
    rw [addEntry]
    by_cases here : key = entity
    · rw [if_pos here.symm] at known
      rw [if_pos here, if_pos known, here]
    · rw [if_neg (Ne.symm here)] at known
      rw [if_neg here, ih known]

/-- The entities of a book with one more note. -/
theorem mem_entities_add :
    e ∈ (book.add entity note).entities ↔ e = entity ∨ e ∈ book.entities := by
  obtain ⟨entries⟩ := book
  show e ∈ (addEntry entity note entries).map (·.1) ↔
    e = entity ∨ e ∈ entries.map (·.1)
  induction entries with
  | nil => simp [addEntry]
  | cons entry entries ih =>
    obtain ⟨key, notes⟩ := entry
    rw [addEntry]
    split
    case isTrue here => simp [here]
    case isFalse => simp [ih, or_left_comm]

/-- A note is not taken away by another one. -/
theorem mem_notesOf_add (known : n ∈ book.notesOf e) :
    n ∈ (book.add entity note).notesOf e := by
  rw [notesOf_add]
  split
  · exact List.mem_append_left _ known
  · exact known

/-- A note that was added is there. -/
theorem mem_notesOf_add_self :
    note ∈ (book.add entity note).notesOf entity := by
  rw [notesOf_add]
  split
  case isTrue => exact List.mem_append_right _ List.mem_cons_self
  case isFalse known => simpa using known

/-- A note on an entity of the book can change places with a note on another
entity. -/
theorem add_add_comm (known : e ∈ book.entities) (apart : e ≠ entity) :
    (book.add e n).add entity note = (book.add entity note).add e n := by
  obtain ⟨entries⟩ := book
  suffices same : addEntry entity note (addEntry e n entries) =
      addEntry e n (addEntry entity note entries) from
    congrArg EntityNotes.mk same
  induction entries with
  | nil => cases known
  | cons entry entries ih =>
    obtain ⟨key, notes⟩ := entry
    by_cases first : key = e
    · have other : key ≠ entity := fun h => apart (first.symm.trans h)
      simp [addEntry, first, apart]
    · by_cases second : key = entity
      · simp [addEntry, second, Ne.symm apart]
      · have later : e ∈ entities ⟨entries⟩ :=
          (List.mem_cons.1 known).resolve_left (Ne.symm first)
        simp [addEntry, first, second, ih later]

-- =================================================================== one entry

/-- Puts some notes on an entity, one after the other. -/
def addAll (book : EntityNotes) (entity : Iri) (notes : List Note) :
    EntityNotes :=
  notes.foldl (fun book note => book.add entity note) book

/-- Merging adds the entries one after the other. -/
theorem merge_cons (entity : Iri) (notes : List Note)
    (entries : List (Iri × List Note)) :
    book.merge ⟨(entity, notes) :: entries⟩ =
      (book.addAll entity notes).merge ⟨entries⟩ :=
  rfl

/-- What holds of a book and is kept by every note on an entity holds when all
of its notes are put there. -/
theorem addAll_induction {motive : EntityNotes → Prop} {notes : List Note}
    (start : motive book)
    (step : ∀ b note, motive b → motive (b.add entity note)) :
    motive (book.addAll entity notes) := by
  induction notes generalizing book with
  | nil => exact start
  | cons note notes ih => exact ih (step book note start)

/-- An entity is known once it has a note. -/
theorem mem_entities_addAll {notes : List Note} (some : notes ≠ []) :
    entity ∈ (book.addAll entity notes).entities := by
  obtain ⟨note, notes, rfl⟩ := List.exists_cons_of_ne_nil some
  show entity ∈ ((book.add entity note).addAll entity notes).entities
  apply addAll_induction (motive := fun b => entity ∈ b.entities)
  · exact mem_entities_add.2 (.inl rfl)
  · intro b note known
    exact mem_entities_add.2 (.inr known)

/-- All notes that are put on an entity are there. -/
theorem mem_notesOf_addAll {notes : List Note} (known : n ∈ notes) :
    n ∈ (book.addAll entity notes).notesOf entity := by
  obtain ⟨before, after, rfl⟩ := List.append_of_mem known
  have later : (book.addAll entity (before ++ n :: after)) =
      ((book.addAll entity before).add entity n).addAll entity after := by
    unfold addAll
    rw [List.foldl_append, List.foldl_cons]
  rw [later]
  apply addAll_induction (motive := fun b => n ∈ b.notesOf entity)
  · exact mem_notesOf_add_self
  · intro b note known
    exact mem_notesOf_add known

/-- A note on an entity of the book can wait until another entity has got its
notes. -/
theorem addAll_add (known : e ∈ book.entities) (apart : e ≠ entity)
    (notes : List Note) :
    (book.add e n).addAll entity notes =
      (book.addAll entity notes).add e n := by
  induction notes generalizing book with
  | nil => rfl
  | cons note notes ih =>
    show ((book.add e n).add entity note).addAll entity notes =
      ((book.add entity note).addAll entity notes).add e n
    rw [add_add_comm known apart, ih (mem_entities_add.2 (.inr known))]

-- ================================================================= whole books

/-- No entity has two entries or an empty one. -/
structure IsKept (book : EntityNotes) : Prop where
  nodup : book.entities.Nodup
  nonempty : ∀ entry ∈ book.entries, entry.2 ≠ []

theorem isKept_empty : empty.IsKept :=
  ⟨List.nodup_nil, by simp [empty]⟩

/-- A kept book has a kept rest. -/
theorem IsKept.tail {entry : Iri × List Note}
    {entries : List (Iri × List Note)} (h : IsKept ⟨entry :: entries⟩) :
    IsKept ⟨entries⟩ :=
  ⟨(List.nodup_cons.1 h.nodup).2,
    fun other ho => h.nonempty other (List.mem_cons_of_mem _ ho)⟩

/-- Adding a note keeps a book. -/
theorem IsKept.add (h : book.IsKept) : (book.add entity note).IsKept := by
  obtain ⟨entries⟩ := book
  show IsKept ⟨addEntry entity note entries⟩
  induction entries with
  | nil => exact ⟨by simp [addEntry, entities], by simp [addEntry]⟩
  | cons entry entries ih =>
    obtain ⟨key, notes⟩ := entry
    obtain ⟨new, -⟩ := List.nodup_cons.1 h.nodup
    obtain ⟨filled, others⟩ := List.forall_mem_cons.1 h.nonempty
    rw [addEntry]
    split
    case isTrue here =>
      refine ⟨h.nodup, List.forall_mem_cons.2 ⟨?_, others⟩⟩
      dsimp only
      split
      · exact filled
      · simp
    case isFalse there =>
      have rest := ih h.tail
      refine ⟨List.nodup_cons.2 ⟨?_, rest.nodup⟩,
        List.forall_mem_cons.2 ⟨filled, rest.nonempty⟩⟩
      intro again
      have known := @mem_entities_add ⟨entries⟩ entity key note
      rcases known.1 again with same | old
      · exact there same
      · exact new old

/-- A note is not taken away by merging. -/
theorem mem_notesOf_merge (known : n ∈ book.notesOf e) :
    n ∈ (book.merge other).notesOf e := by
  obtain ⟨entries⟩ := other
  induction entries generalizing book with
  | nil => exact known
  | cons entry entries ih =>
    apply ih
    apply addAll_induction (motive := fun b => n ∈ b.notesOf e) known
    intro b note before
    exact mem_notesOf_add before

/-- A note on an entity of the book can wait until a book without the entity
has been merged. -/
theorem merge_of_add (known : e ∈ book.entities)
    (absent : e ∉ other.entities) :
    (book.add e n).merge other = (book.merge other).add e n := by
  obtain ⟨entries⟩ := other
  induction entries generalizing book with
  | nil => rfl
  | cons entry entries ih =>
    obtain ⟨key, notes⟩ := entry
    obtain ⟨apart, rest⟩ := List.ne_and_not_mem_of_not_mem_cons absent
    rw [merge_cons, merge_cons, addAll_add known apart]
    refine ih ?_ rest
    apply addAll_induction (motive := fun b => e ∈ b.entities) known
    intro b note before
    exact mem_entities_add.2 (.inr before)

/-- To merge a book after a note was put on it is to put the note on the merged
book. -/
theorem merge_add (kept : other.IsKept) :
    book.merge (other.add e n) = (book.merge other).add e n := by
  obtain ⟨entries⟩ := other
  show book.merge ⟨addEntry e n entries⟩ = _
  induction entries generalizing book with
  | nil => rfl
  | cons entry entries ih =>
    obtain ⟨key, notes⟩ := entry
    rw [addEntry, merge_cons]
    by_cases here : key = e
    · subst here
      rw [if_pos rfl, merge_cons]
      by_cases known : n ∈ notes
      · -- the note is in both books
        rw [if_pos known]
        exact (add_of_mem (mem_notesOf_merge (mem_notesOf_addAll known))).symm
      · have last : book.addAll key (notes ++ [n]) =
            (book.addAll key notes).add key n := by
          unfold addAll
          rw [List.foldl_append, List.foldl_cons, List.foldl_nil]
        have filled : notes ≠ [] := kept.nonempty _ List.mem_cons_self
        rw [if_neg known, last]
        exact merge_of_add (mem_entities_addAll filled)
          (List.nodup_cons.1 kept.nodup).1
    · rw [if_neg here, merge_cons, ih kept.tail]

-- ================================================================ rigid labels

/-- One more entity is labelled after the others. -/
theorem markAll_concat (book : EntityNotes) (entities : List Iri)
    (entity : Iri) :
    book.markAll (entities ++ [entity]) =
      (book.markAll entities).add entity .rigid := by
  unfold markAll
  rw [List.foldl_append, List.foldl_cons, List.foldl_nil]

/-- Labels keep a book. -/
theorem IsKept.markAll (h : book.IsKept) (entities : List Iri) :
    (book.markAll entities).IsKept := by
  induction entities using List.reverseRecOn with
  | nil => exact h
  | append_singleton entities entity ih =>
    rw [markAll_concat]
    exact ih.add

/-- A book of labels is merged by labelling its entities. -/
theorem merge_markAll (book : EntityNotes) (entities : List Iri) :
    book.merge (empty.markAll entities) = book.markAll entities := by
  induction entities using List.reverseRecOn with
  | nil => rfl
  | append_singleton entities entity ih =>
    rw [markAll_concat, markAll_concat, merge_add (isKept_empty.markAll _), ih]

end ContextDL.EntityNotes
