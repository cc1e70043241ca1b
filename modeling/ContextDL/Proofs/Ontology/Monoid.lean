/-
The monoid of ontologies.

Merging puts the statements of another ontology behind those that are there, and
on every entity the notes of the other one that are new behind the old ones
(`EntityNotes.notesOf_merge`). This is said entity by entity, so it does not
matter in which order the entities came. The other book has to be proper: a note
that comes twice is new only once.

The laws of merging are read off this (`Ontology.MergesTo.spec`). Associativity
comes down to one equation between lists of notes (`append_filter_assoc`), as
what is new to the first two parts is what is new to the second and then to the
first. Where all entries come in the order of the books, the two sides do not
only agree but are one ontology (`Ontology.merge_assoc`): the notes of the third
book are added one by one, and each may wait until the second is merged.
-/
import ContextDL.Proofs.Ontology.Reachability

namespace ContextDL

-- ================================================================ merged notes

namespace EntityNotes

variable {book other : EntityNotes} {entity e : Iri}

/-- After distinct notes are put on an entity, those that are new stand behind
those that it had. Other entities are left alone. -/
theorem notesOf_addAll {notes : List Note} (distinct : notes.Nodup) :
    (book.addAll entity notes).notesOf e =
      if e = entity then
        book.notesOf e ++ notes.filter (· ∉ book.notesOf e)
      else book.notesOf e := by
  induction notes generalizing book with
  | nil => simp [addAll]
  | cons note notes ih =>
    obtain ⟨new, rest⟩ := List.nodup_cons.1 distinct
    show ((book.add entity note).addAll entity notes).notesOf e = _
    rw [ih rest, notesOf_add]
    by_cases here : e = entity
    · subst here
      by_cases known : note ∈ book.notesOf e
      · simp [known]
      · -- the note is none of the later ones, so these are as new as before
        have later : notes.filter (· ∉ book.notesOf e ++ [note]) =
            notes.filter (· ∉ book.notesOf e) := by
          refine List.filter_congr fun n hn => ?_
          have apart : n ≠ note := fun same => new (same ▸ hn)
          simp [apart]
        simp only [known, not_false_eq_true, and_self, if_true, later]
        simp [known]
    · simp [here]

/-- In a merged book the new notes of an entity stand behind those that it had,
in whatever order the entities came. -/
theorem notesOf_merge (proper : other.IsProper) :
    (book.merge other).notesOf e =
      book.notesOf e ++ (other.notesOf e).filter (· ∉ book.notesOf e) := by
  obtain ⟨entries⟩ := other
  induction entries generalizing book with
  | nil => simp [merge, notesOf]
  | cons entry entries ih =>
    obtain ⟨key, notes⟩ := entry
    have distinct : notes.Nodup := by
      simpa [notesOf_cons] using proper.distinct key
    rw [merge_cons, ih proper.tail, notesOf_addAll distinct, notesOf_cons]
    by_cases here : e = key
    · subst here
      have last : notesOf ⟨entries⟩ e = [] :=
        notesOf_eq_nil (List.nodup_cons.1 proper.nodup).1
      simp [last]
    · simp [here]

/-- The notes on one more entity may be put on the merged book. -/
theorem merge_addAll (kept : other.IsKept) (notes : List Note) :
    book.merge (other.addAll entity notes) =
      (book.merge other).addAll entity notes := by
  induction notes generalizing other with
  | nil => rfl
  | cons note notes ih =>
    show book.merge ((other.add entity note).addAll entity notes) =
      ((book.merge other).add entity note).addAll entity notes
    rw [ih kept.add, merge_add kept]

/-- Of three books the last two may be merged first. -/
theorem merge_assoc (kept : other.IsKept) (third : EntityNotes) :
    (book.merge other).merge third = book.merge (other.merge third) := by
  obtain ⟨entries⟩ := third
  induction entries generalizing other with
  | nil => rfl
  | cons entry entries ih =>
    rw [merge_cons, merge_cons, ← merge_addAll kept]
    exact ih (addAll_induction kept fun b note before => before.add)

end EntityNotes

-- ==================================================================== the laws

namespace Ontology

variable {o p q r : Ontology}

/-- Ontologies agree if they have one name, the same statements and the same
notes on every entity. -/
theorem agrees_iff :
    o.agrees p = true ↔ o.iri = p.iri ∧ o.statements = p.statements ∧
      ∀ e, o.notes.notesOf e = p.notes.notesOf e := by
  simp only [agrees, Bool.and_eq_true, decide_eq_true_eq, and_assoc,
    EntityNotes.agrees_iff]

/-- Merging is done in the order of the book, if no other is given. -/
theorem mergesTo_merge (o p : Ontology) : o.MergesTo p (o.merge p) :=
  ⟨_, List.Perm.refl _, rfl⟩

/-- What merging leads to. The order in which the entities came is nowhere to
be seen. -/
theorem MergesTo.spec (merged : o.MergesTo p r) (proper : p.notes.IsProper) :
    r.iri = o.iri ∧ r.statements = o.statements ++ p.statements ∧
      ∀ e, r.notes.notesOf e = o.notes.notesOf e ++
        (p.notes.notesOf e).filter (· ∉ o.notes.notesOf e) := by
  obtain ⟨order, reordered, rfl⟩ := merged
  refine ⟨rfl, rfl, fun e => ?_⟩
  show (o.notes.merge ⟨order⟩).notesOf e = _
  rw [EntityNotes.notesOf_merge (proper.perm reordered),
    EntityNotes.notesOf_perm reordered proper.nodup]

/-- Of three ontologies the last two may be merged first. -/
theorem merge_assoc (proper : p.notes.IsProper) :
    (o.merge p).merge q = o.merge (p.merge q) := by
  simp only [merge, List.append_assoc,
    EntityNotes.merge_assoc proper.toIsKept q.notes]

/-- The new notes of three entries are the same if the first two or the last two
are put together first. -/
theorem append_filter_assoc (xs ys zs : List Note) :
    xs ++ ys.filter (· ∉ xs) ++ zs.filter (· ∉ xs ++ ys.filter (· ∉ xs)) =
      xs ++ (ys ++ zs.filter (· ∉ ys)).filter (· ∉ xs) := by
  rw [List.filter_append, List.filter_filter, List.append_assoc]
  congr 2
  refine List.filter_congr fun n _ => ?_
  by_cases known : n ∈ xs <;> simp [known]

/-- Merging is associative, whatever the orders are. -/
theorem MergesTo.assoc {op pq left right : Ontology}
    (step : o.MergesTo p op) (step' : op.MergesTo q left)
    (later : p.MergesTo q pq) (atOnce : o.MergesTo pq right)
    (hp : p.notes.IsProper) (hq : q.notes.IsProper)
    (hpq : pq.notes.IsProper) : left.agrees right = true := by
  obtain ⟨named, stated, notes⟩ := step.spec hp
  obtain ⟨named', stated', notes'⟩ := step'.spec hq
  obtain ⟨-, behind, others⟩ := later.spec hq
  obtain ⟨whole, together, all⟩ := atOnce.spec hpq
  refine agrees_iff.2 ⟨?_, ?_, fun e => ?_⟩
  · rw [named', named, whole]
  · rw [stated', stated, together, behind, List.append_assoc]
  · rw [notes', notes, all, others, append_filter_assoc]

/-- The names of a merged ontology are those of its parts. -/
theorem MergesTo.signature (merged : o.MergesTo p r) :
    r.signature = o.signature ∪ p.signature := by
  obtain ⟨order, -, rfl⟩ := merged
  show Signature.unionAll _ ((o.statements ++ p.statements).map _) = _
  rw [List.map_append, Signature.unionAll_append]
  rfl

/-- An entity is rigid in a merged ontology if it is so in one of the parts. -/
theorem MergesTo.isRigid_iff (merged : o.MergesTo p r)
    (proper : p.notes.IsProper) (e : Iri) :
    r.isRigid e = true ↔ o.isRigid e = true ∨ p.isRigid e = true := by
  obtain ⟨-, -, notes⟩ := merged.spec proper
  unfold isRigid EntityNotes.isRigid
  rw [notes, List.any_append, List.any_filter, Bool.or_eq_true]
  refine or_congr_right' fun plain => ?_
  simp only [List.any_eq_true, Bool.and_eq_true, decide_eq_true_eq]
  constructor
  · intro added
    obtain ⟨note, there, -, label⟩ := added
    exact ⟨note, there, label⟩
  · intro rigid
    obtain ⟨note, there, label⟩ := rigid
    -- a label that was there before would have made the entity rigid
    have new : note ∉ o.notes.notesOf e := fun known =>
      plain (List.any_eq_true.2 ⟨note, known, label⟩)
    exact ⟨note, there, new, label⟩

/-- What is empty adds nothing. -/
theorem MergesTo.eq_of_empty {iri : Option Iri}
    (merged : o.MergesTo (empty iri) r) : r = o := by
  obtain ⟨order, reordered, rfl⟩ := merged
  obtain rfl : order = [] := reordered.eq_nil
  show { o with statements := o.statements ++ [] } = o
  rw [List.append_nil]

/-- What is merged into an empty ontology only gets its name. -/
theorem MergesTo.agrees_of_empty {iri : Option Iri}
    (merged : (empty iri).MergesTo o r) (proper : o.notes.IsProper) :
    r.agrees (o.setIri iri) = true := by
  obtain ⟨named, stated, notes⟩ := merged.spec proper
  refine agrees_iff.2 ⟨named, stated, fun e => ?_⟩
  rw [notes]
  exact List.filter_eq_self.2 fun n _ => rfl

/-- An ontology knows its own notes. -/
theorem MergesTo.notesOf_self (merged : o.MergesTo o r)
    (proper : o.notes.IsProper) (e : Iri) :
    r.notes.notesOf e = o.notes.notesOf e := by
  obtain ⟨-, -, notes⟩ := merged.spec proper
  have none : (o.notes.notesOf e).filter (· ∉ o.notes.notesOf e) = [] :=
    List.filter_eq_nil_iff.2 fun n hn => by simpa using hn
  rw [notes, none, List.append_nil]

/-- Ontologies form a monoid under merging. In one that was built by the
operations, the notes on an entity are distinct, and there are some if it has an
entry. Merging three such ontologies in two steps leads to the same, whichever
step is the first: to the very same if the notes come in the order of the books,
and to ontologies that agree if they come in any orders. An ontology without
statements and notes adds nothing, and what is merged into it keeps everything
but its own name. A merged ontology has the names of both parts and the rigid
entities of both. Merging an ontology into itself leaves its notes alone. -/
theorem merge_monoid (ho : o.Reachable) (hp : p.Reachable)
    (hq : q.Reachable) :
    (∀ e, (o.notes.notesOf e).Nodup ∧
      (e ∈ o.notes.entities → o.notes.notesOf e ≠ [])) ∧
    ((o.merge p).merge q = o.merge (p.merge q) ∧
      ∀ op pq left right, o.MergesTo p op → op.MergesTo q left →
        p.MergesTo q pq → o.MergesTo pq right → left.agrees right = true) ∧
    (∀ iri r, (o.MergesTo (empty iri) r → r = o) ∧
      ((empty iri).MergesTo o r → r.agrees (o.setIri iri) = true)) ∧
    (∀ r, o.MergesTo p r → r.signature = o.signature ∪ p.signature ∧
      ∀ e, r.isRigid e = true ↔ o.isRigid e = true ∨ p.isRigid e = true) ∧
    ∀ r, o.MergesTo o r → ∀ e, r.notes.notesOf e = o.notes.notesOf e := by
  have first := ho.isProper
  have second := hp.isProper
  refine ⟨fun e => ⟨first.distinct e, first.notesOf_ne_nil⟩,
    ⟨merge_assoc second, ?orders⟩,
    fun iri r => ⟨MergesTo.eq_of_empty, fun h => h.agrees_of_empty first⟩,
    fun r h => ⟨h.signature, h.isRigid_iff second⟩,
    fun r h => h.notesOf_self first⟩
  intro op pq left right step step' later atOnce
  exact step.assoc step' later atOnce second hq.isProper
    (Reachable.merge later hp hq).isProper

/-- Three small ontologies. The first knows of one entity, which is rigid in the
second and labelled there as in the first. Merged in two ways, once in reverse,
they list the entities in different orders and agree. -/
theorem merge_monoid_reversed :
    let entity (name : String) : Iri := ⟨"e:" ++ name⟩
    let o := (empty (some (entity "O"))).annotate (entity "C") (.label "c")
    let p := (((empty none).add (.plain (.declareClass (entity "C")))).markRigid
      (entity "C")).annotate (entity "A") (.label "a")
        |>.annotate (entity "C") (.label "c")
    let q := (empty none).annotate (entity "B") (.label "b")
    let pq := p.merge q
    let left := (o.merge p).merge q
    let right := o.merge { pq with notes := ⟨pq.notes.entries.reverse⟩ }
    (o.Reachable ∧ p.Reachable ∧ q.Reachable) ∧
      ((o.notes.notesOf (entity "C")).Nodup ∧
        o.notes.notesOf (entity "C") ≠ []) ∧
      (left = o.merge pq ∧ left.agrees right = true ∧ left ≠ right) ∧
      o.merge (empty none) = o ∧
      ((empty none).merge o).agrees (o.setIri none) = true ∧
      (o.merge p).signature = o.signature ∪ p.signature ∧
      (o.merge p).isRigid (entity "C") = true ∧
      ∀ e, (o.merge o).notes.notesOf e = o.notes.notesOf e := by
  intro entity o p q pq left right
  have ho : o.Reachable := .annotate _ _ (.new _)
  have hp : p.Reachable :=
    .annotate _ _ (.annotate _ _ (.markRigid _ (.addAxiom _ (.new _))))
  have hq : q.Reachable := .annotate _ _ (.new _)
  obtain ⟨notes, ⟨same, assoc⟩, neutral, parts, self⟩ :=
    merge_monoid ho hp hq
  obtain ⟨names, rigid⟩ := parts _ (o.mergesTo_merge p)
  have backwards : o.MergesTo pq right := ⟨_, List.reverse_perm _, rfl⟩
  refine ⟨⟨ho, hp, hq⟩, ⟨(notes _).1, (notes _).2 (by decide)⟩,
    ⟨same, ?_, by decide⟩, (neutral none _).1 (o.mergesTo_merge _),
    (neutral none _).2 (mergesTo_merge _ o), names,
    (rigid _).2 (.inr (by decide)), self _ (o.mergesTo_merge o)⟩
  exact assoc _ _ _ _ (o.mergesTo_merge p) (mergesTo_merge _ q)
    (p.mergesTo_merge q) backwards

end Ontology

end ContextDL
