/-
The ontologies that there are.

An ontology begins empty and is built up by naming it, by adding statements and
taking some away, by putting notes on entities and by merging others into it
(`Ontology.Reachable`). Whatever is done, its book of notes stays proper: no
entity has two entries, no entry is empty and none holds a note twice
(`Ontology.Reachable.isProper`). Only one step has to be looked at for this, as
all that is ever done to a book is to add one note and then the next.

# Order

Merging goes through the entries of the other book. They have no order of their
own, so nothing is said of the order in which they come: a merge may lead to any
of the ontologies that come about in this way (`Ontology.MergesTo`), and
`Ontology.merge` leads to one of them.
-/
import ContextDL.Distinct
import ContextDL.Proofs.Ontology.Merging

namespace ContextDL

-- ================================================================ proper books

namespace EntityNotes

variable {book other : EntityNotes} {entity e : Iri} {note : Note}

/-- Where no entity has two entries, these may stand in any order. -/
theorem notesOf_perm {order : List (Iri × List Note)}
    (reordered : order.Perm book.entries) (nodup : book.entities.Nodup) :
    notesOf ⟨order⟩ e = book.notesOf e := by
  have nodup' := (reordered.map Prod.fst).nodup_iff.2 nodup
  have same : order.lookup e = book.entries.lookup e := by
    ext notes
    rw [lookup_eq_some_iff_mem nodup', lookup_eq_some_iff_mem nodup,
      reordered.mem_iff]
  rw [notesOf, notesOf, same]

/-- A kept book in which no entity has the same note twice. -/
structure IsProper (book : EntityNotes) : Prop extends book.IsKept where
  distinct : ∀ e, (book.notesOf e).Nodup

theorem isProper_empty : empty.IsProper :=
  ⟨isKept_empty, fun _ => List.nodup_nil⟩

/-- A proper book has a proper rest. -/
theorem IsProper.tail {entry : Iri × List Note}
    {entries : List (Iri × List Note)} (h : IsProper ⟨entry :: entries⟩) :
    IsProper ⟨entries⟩ := by
  refine ⟨h.toIsKept.tail, fun e => ?_⟩
  by_cases later : e ∈ entities ⟨entries⟩
  · have apart : e ≠ entry.1 :=
      ne_of_mem_of_not_mem later (List.nodup_cons.1 h.nodup).1
    have whole := h.distinct e
    rwa [notesOf_cons, if_neg apart] at whole
  · rw [notesOf_eq_nil later]
    exact List.nodup_nil

/-- The order of the entries does not matter to a proper book. -/
theorem IsProper.perm {order : List (Iri × List Note)} (h : book.IsProper)
    (reordered : order.Perm book.entries) : IsProper ⟨order⟩ where
  nodup := (reordered.map _).nodup_iff.2 h.nodup
  nonempty entry there := h.nonempty entry (reordered.mem_iff.1 there)
  distinct e := notesOf_perm reordered h.nodup ▸ h.distinct e

/-- There are notes on every entity of a proper book. -/
theorem IsProper.notesOf_ne_nil (h : book.IsProper)
    (known : e ∈ book.entities) : book.notesOf e ≠ [] := by
  obtain ⟨⟨key, notes⟩, entry, rfl⟩ := List.mem_map.1 known
  rw [notesOf, (lookup_eq_some_iff_mem h.nodup).2 entry]
  exact h.nonempty _ entry

/-- A note leaves a book proper. -/
theorem IsProper.add (h : book.IsProper) :
    (book.add entity note).IsProper := by
  refine ⟨h.toIsKept.add, fun e => ?_⟩
  rw [notesOf_add]
  split
  case isFalse => exact h.distinct e
  case isTrue new =>
    refine List.nodup_append.2 ⟨h.distinct e, by simp, fun n hn m hm same => ?_⟩
    rw [List.mem_singleton.1 hm] at same
    exact new.2 (same ▸ hn)

/-- Whatever is merged into a proper book, it stays proper. -/
theorem IsProper.merge (h : book.IsProper) : (book.merge other).IsProper := by
  obtain ⟨entries⟩ := other
  induction entries generalizing book with
  | nil => exact h
  | cons entry entries ih =>
    exact ih (addAll_induction h fun b note before => before.add)

end EntityNotes

-- ========================================================= reachable ontologies

namespace Ontology

/-- What merging another ontology may lead to: its notes are added entity by
entity, in some order. -/
def MergesTo (o other result : Ontology) : Prop :=
  ∃ order : List (Iri × List Note), order.Perm other.notes.entries ∧
    result = o.merge { other with notes := ⟨order⟩ }

/-- The ontologies that can be built. -/
inductive Reachable : Ontology → Prop where
  | new (iri : Option Iri) : Reachable (empty iri)
  | setIri {o : Ontology} (iri : Option Iri) (h : o.Reachable) :
      Reachable (o.setIri iri)
  | addAxiom {o : Ontology} (body : Axiom) (h : o.Reachable) :
      Reachable (o.add (.plain body))
  | add {o : Ontology} (s : Statement) (h : o.Reachable) : Reachable (o.add s)
  | extend {o : Ontology} (ss : List Statement) (h : o.Reachable) :
      Reachable (o.extend ss)
  | annotate {o : Ontology} (entity : Iri) (note : Note) (h : o.Reachable) :
      Reachable (o.annotate entity note)
  | markRigid {o : Ontology} (entity : Iri) (h : o.Reachable) :
      Reachable (o.markRigid entity)
  /-- Any statements may be kept, also by a condition that changes its mind. -/
  | retain {o : Ontology} {kept : List Statement}
      (part : kept.Sublist o.statements) (h : o.Reachable) :
      Reachable { o with statements := kept }
  | merge {o other result : Ontology} (merged : o.MergesTo other result)
      (h : o.Reachable) (h' : other.Reachable) : Reachable result

/-- A reachable ontology has a proper book. -/
theorem Reachable.isProper {o : Ontology} (h : o.Reachable) :
    o.notes.IsProper := by
  induction h with
  | new => exact EntityNotes.isProper_empty
  | setIri _ _ ih | addAxiom _ _ ih | add _ _ ih | extend _ _ ih
  | retain _ _ ih => exact ih
  | annotate _ _ _ ih | markRigid _ _ ih => exact ih.add
  | merge merged _ _ ih _ =>
    obtain ⟨order, -, rfl⟩ := merged
    exact ih.merge

end Ontology

end ContextDL
