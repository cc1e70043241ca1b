/-
What a branch selects.

A branch has an object ontology exactly if its positive concepts are
registered, as naming concepts or as dual names, and its negative ones are
naming concepts (`ContextBase.branchOntology_eq_ok_iff`). Otherwise the error
names a concept that is not, a positive one if there is any
(`ContextBase.branchOntology_eq_error`).

# Names that are asked for

A positive concept is looked up by itself and a negative one by its dual name;
`ContextBase.AsksFor` holds of the names that a branch looks up. What it selects
depends on these names alone (`ContextBase.mem_selection`). So a branch selects
what its concepts select one by one, and a positive dual name selects what its
concept selects as a negative one (`ContextBase.asksFor_moved`).

`ContextBase.Selects` collects what holds of an object ontology: its axioms,
its size, and the ontology that is made of it.
-/
import ContextDL.Context.BranchOntology
import ContextDL.Proofs.Context.Partition
import Mathlib.Data.Finset.Card

namespace ContextDL

-- ==================================================================== branches

namespace Branch

/-- Two lists are the polarities of a branch if no concept is in both. -/
theorem ofLists_eq_ok {ps ns : List Iri} {b : Branch} :
    ofLists ps ns = .ok b ↔ (∀ c ∈ ps, c ∉ ns) ∧
      b.positive = ps.eraseDups ∧ b.negative = ns.eraseDups := by
  unfold ofLists
  split
  case h_1 c conflict =>
    constructor
    · intro h
      cases h
    · intro h
      have apart := h.1
      have negative := List.find?_some conflict
      exact absurd (List.contains_iff_mem.1 negative)
        (apart c (List.mem_of_find?_eq_some conflict))
  case h_2 conflict =>
    have apart : ∀ c ∈ ps, c ∉ ns := by
      intro c hp hn
      have := List.find?_eq_none.1 conflict c hp
      simp [hn] at this
    constructor
    · intro h
      cases h
      exact ⟨apart, rfl, rfl⟩
    · intro h
      obtain ⟨-, positive, negative⟩ := h
      obtain ⟨_, _, _, _, _⟩ := b
      cases positive
      cases negative
      rfl

/-- Lists without a common concept make a branch. -/
theorem exists_ofLists {ps ns : List Iri} (apart : ∀ c ∈ ps, c ∉ ns) :
    ∃ b, ofLists ps ns = .ok b := by
  have disjoint : ∀ c ∈ ps.eraseDups, c ∉ ns.eraseDups := by
    simpa only [List.mem_eraseDups] using apart
  refine ⟨⟨ps.eraseDups, ns.eraseDups, nodup_eraseDups _, nodup_eraseDups _,
    disjoint⟩, ofLists_eq_ok.2 ⟨apart, rfl, rfl⟩⟩

/-- The concepts of a branch are those of its lists. -/
theorem mem_ofLists {ps ns : List Iri} {b : Branch}
    (h : ofLists ps ns = .ok b) (c : Iri) :
    (c ∈ b.positive ↔ c ∈ ps) ∧ (c ∈ b.negative ↔ c ∈ ns) := by
  obtain ⟨-, positive, negative⟩ := ofLists_eq_ok.1 h
  rw [positive, negative, List.mem_eraseDups, List.mem_eraseDups]
  exact ⟨Iff.rfl, Iff.rfl⟩

end Branch

namespace ContextBase

variable {m : ContextBase} {supply left : Supply} {o : Ontology} {b : Branch}

-- ================================================================ registration

/-- A name that an axiom is kept under: a naming concept or the dual name of
one. -/
def IsRegistered (m : ContextBase) (c : Iri) : Prop :=
  c ∈ m.namingConcepts ∨ ∃ n ∈ m.namingConcepts, c = n.dual

/-- Under a name that is not registered nothing is found, and only there. -/
theorem isNone_definition?_iff {c : Iri} :
    (m.definition? c).isNone = true ↔ ¬ m.IsRegistered c := by
  rw [Option.isNone_iff_eq_none, definition?_eq_none_iff, IsRegistered, not_or]
  simp

/-- A dual name is found for naming concepts. -/
theorem dualName_eq_ok {c n : Iri} :
    m.dualName c = .ok n ↔ c ∈ m.namingConcepts ∧ n = c.dual := by
  unfold dualName isNaming
  by_cases h : c ∈ m.namingConcepts <;> simp [h, eq_comm]

/-- All concepts of a branch select something. -/
def Admits (m : ContextBase) (b : Branch) : Prop :=
  (∀ c ∈ b.positive, m.IsRegistered c) ∧ ∀ c ∈ b.negative, c ∈ m.namingConcepts

-- ==================================================================== one lookup

theorem demand_eq_ok {c n : Iri} {entry : Iri × Axiom} :
    m.demand c n = .ok entry ↔
      n = entry.1 ∧ m.definition? n = some entry.2 := by
  unfold demand
  cases m.definition? n with
  | none => simp
  | some a => simp [Prod.ext_iff]

/-- Nothing is demanded in vain but under a name that is not registered. -/
theorem demand_eq_error {c n : Iri} {e : ContextError} :
    m.demand c n = .error e ↔ ¬ m.IsRegistered n ∧ e = .unregistered c := by
  rw [← isNone_definition?_iff]
  unfold demand
  cases m.definition? n with
  | none => simp [eq_comm]
  | some a => simp

/-- A negative concept selects nothing if it is no naming concept: the dual
name of a naming concept is registered. -/
theorem deny_eq_error {c : Iri} {e : ContextError} :
    m.deny c = .error e ↔ c ∉ m.namingConcepts ∧ e = .unregistered c := by
  rw [deny, dualName, isNaming]
  by_cases naming : c ∈ m.namingConcepts
  · have registered : m.IsRegistered c.dual := .inr ⟨c, naming, rfl⟩
    rw [List.contains_iff_mem.2 naming]
    show m.demand c c.dual = .error e ↔ _
    simp [demand_eq_error, registered, naming]
  · simp [bind, Except.bind, naming, eq_comm]

theorem exists_affirm_iff {c : Iri} :
    (∃ entry, m.affirm c = .ok entry) ↔ m.IsRegistered c := by
  rw [exists_eq_ok_iff]
  simp [affirm, demand_eq_error]

theorem exists_deny_iff {c : Iri} :
    (∃ entry, m.deny c = .ok entry) ↔ c ∈ m.namingConcepts := by
  rw [exists_eq_ok_iff]
  simp [deny_eq_error]

-- ======================================================== names that are asked for

/-- A branch looks a name up: a positive concept by itself, a negative one by
its dual name. -/
def AsksFor (m : ContextBase) (b : Branch) (name : Iri) : Prop :=
  name ∈ b.positive ∨ ∃ c ∈ b.negative, m.dualName c = .ok name

/-- What is found under the names that a branch asks for, concept by
concept. -/
theorem exists_asksFor_iff {a : Axiom} :
    (∃ name, m.AsksFor b name ∧ m.definition? name = some a) ↔
      (∃ c ∈ b.positive, m.definition? c = some a) ∨
        ∃ c ∈ b.negative, ∃ n, m.dualName c = .ok n ∧
          m.definition? n = some a := by
  constructor
  · intro h
    obtain ⟨name, positive | ⟨c, hc, dual⟩, found⟩ := h
    · exact .inl ⟨name, positive, found⟩
    · exact .inr ⟨c, hc, name, dual, found⟩
  · intro h
    rcases h with ⟨c, hc, found⟩ | ⟨c, hc, name, dual, found⟩
    · exact ⟨c, .inl hc, found⟩
    · exact ⟨name, .inr ⟨c, hc, dual⟩, found⟩

/-- A naming concept is asked for only where it is positive: it is no dual
name. -/
theorem asksFor_iff {ss : List Statement} {n : Iri}
    (split : IsSplit supply ss m left) (naming : n ∈ m.namingConcepts) :
    m.AsksFor b n ↔ n ∈ b.positive := by
  constructor
  · intro h
    rcases h with positive | ⟨c, -, dual⟩
    · exact positive
    · exact absurd (dualName_eq_ok.1 dual).2 (split.ne_dual naming c)
  · exact .inl

/-- The dual name of a naming concept is asked for where it is positive or the
concept negative. -/
theorem asksFor_dual_iff {n : Iri} (naming : n ∈ m.namingConcepts) :
    m.AsksFor b n.dual ↔ n.dual ∈ b.positive ∨ n ∈ b.negative := by
  refine or_congr_right ⟨?_, fun hn => ⟨n, hn, dualName_eq_ok.2 ⟨naming, rfl⟩⟩⟩
  intro h
  obtain ⟨c, hc, dual⟩ := h
  rw [Iri.dual_inj.1 (dualName_eq_ok.1 dual).2]
  exact hc

/-- A concept that is negative asks for what its dual name asks for as a
positive one. -/
theorem asksFor_moved {n : Iri} (naming : n ∈ m.namingConcepts)
    {ps ns : List Iri} {b₁ b₂ : Branch}
    (positive : Branch.ofLists (n.dual :: ps) ns = .ok b₁)
    (negative : Branch.ofLists ps (n :: ns) = .ok b₂) (name : Iri) :
    m.AsksFor b₁ name ↔ m.AsksFor b₂ name := by
  have mem₁ := Branch.mem_ofLists positive
  have mem₂ := Branch.mem_ofLists negative
  have dual : m.dualName n = .ok name ↔ name = n.dual := by
    rw [dualName_eq_ok, and_iff_right naming]
  simp only [AsksFor, (mem₁ _).1, (mem₁ _).2, (mem₂ _).1, (mem₂ _).2]
  rw [List.mem_cons, List.exists_mem_cons_iff, dual, or_assoc]
  exact or_left_comm

/-- It is admitted there if it is admitted here. -/
theorem admits_moved {n : Iri} (naming : n ∈ m.namingConcepts)
    {ps ns : List Iri} {b₁ b₂ : Branch}
    (positive : Branch.ofLists (n.dual :: ps) ns = .ok b₁)
    (negative : Branch.ofLists ps (n :: ns) = .ok b₂) :
    m.Admits b₁ ↔ m.Admits b₂ := by
  have registered : m.IsRegistered n.dual := .inr ⟨n, naming, rfl⟩
  have mem₁ := Branch.mem_ofLists positive
  have mem₂ := Branch.mem_ofLists negative
  simp only [Admits, (mem₁ _).1, (mem₁ _).2, (mem₂ _).1, (mem₂ _).2,
    List.forall_mem_cons, registered, naming, true_and]

-- =================================================================== all lookups

/-- The entries that a branch finds, concept by concept. -/
def entries (m : ContextBase) (b : Branch) : List (Iri × Axiom) :=
  b.positive.filterMap (fun c => (m.affirm c).toOption) ++
    b.negative.filterMap fun c => (m.deny c).toOption

/-- All lookups of a branch succeed if it is admitted. -/
theorem lookUp_eq_ok {found : List (Iri × Axiom)} :
    m.lookUp b = .ok found ↔ m.Admits b ∧ found = m.entries b := by
  unfold lookUp
  simp only [bind_eq_ok, pure_eq_ok, mapM_eq_ok_filterMap, exists_affirm_iff,
    exists_deny_iff, Admits]
  constructor
  · intro h
    obtain ⟨_, ⟨positive, rfl⟩, _, ⟨negative, rfl⟩, rfl⟩ := h
    exact ⟨⟨positive, negative⟩, rfl⟩
  · intro h
    obtain ⟨⟨positive, negative⟩, rfl⟩ := h
    exact ⟨_, ⟨positive, rfl⟩, _, ⟨negative, rfl⟩, rfl⟩

/-- Found are the entries of the registry under the names that are asked
for. -/
theorem mem_entries {name : Iri} {a : Axiom} :
    (name, a) ∈ m.entries b ↔
      m.AsksFor b name ∧ m.definition? name = some a := by
  rw [entries, List.mem_append, List.mem_filterMap, List.mem_filterMap, AsksFor,
    or_and_right]
  simp only [toOption_eq_some, affirm, deny, bind_eq_ok, demand_eq_ok]
  refine or_congr ⟨?_, ?_⟩ ⟨?_, ?_⟩
  · intro h
    obtain ⟨_, positive, rfl, found⟩ := h
    exact ⟨positive, found⟩
  · intro h
    exact ⟨name, h.1, rfl, h.2⟩
  · intro h
    obtain ⟨c, negative, _, dual, rfl, found⟩ := h
    exact ⟨⟨c, negative, dual⟩, found⟩
  · intro h
    obtain ⟨⟨c, negative, dual⟩, found⟩ := h
    exact ⟨c, negative, name, dual, rfl, found⟩

/-- In the order of the registry they are the same axioms. -/
theorem mem_inOrder_entries {a : Axiom} :
    a ∈ m.inOrder (m.entries b) ↔
      ∃ name, m.AsksFor b name ∧ m.definition? name = some a := by
  have lookup (name : Iri) (c : Axiom) :
      (m.entries b).lookup name = some c ↔
        m.AsksFor b name ∧ m.definition? name = some c := by
    rw [← mem_entries]
    apply lookup_eq_some_iff_of_unique
    intro d e hd he
    have same := (mem_entries.1 hd).2.symm.trans (mem_entries.1 he).2
    exact Option.some.inj same
  rw [inOrder, List.mem_filterMap]
  simp only [lookup]
  constructor
  · intro h
    obtain ⟨entry, -, found⟩ := h
    exact ⟨entry.1, found⟩
  · intro h
    obtain ⟨name, asked, found⟩ := h
    exact ⟨(name, a), mem_of_lookup_eq_some found, asked, found⟩

-- =================================================================== selection

/-- What a branch selects, with the global axioms. -/
def selection (m : ContextBase) (b : Branch) : BranchOntology where
  globals := m.globals
  selected :=
    (m.inOrder (m.entries b)).eraseDups.filter (!m.globals.contains ·)
  rigid := m.rigid

/-- A branch has the object ontology that it selects, if it is admitted. -/
theorem branchOntology_eq_ok_iff {v : BranchOntology} :
    m.branchOntology b = .ok v ↔ m.Admits b ∧ v = m.selection b := by
  unfold branchOntology
  simp only [bind_eq_ok, pure_eq_ok, lookUp_eq_ok]
  constructor
  · intro h
    obtain ⟨_, ⟨admits, rfl⟩, rfl⟩ := h
    exact ⟨admits, rfl⟩
  · intro h
    obtain ⟨admits, rfl⟩ := h
    exact ⟨_, ⟨admits, rfl⟩, rfl⟩

/-- Where there is no object ontology, some concept selects nothing, and no
positive concept is passed over. -/
theorem branchOntology_eq_error {e : ContextError}
    (h : m.branchOntology b = .error e) :
    ∃ c, e = .unregistered c ∧
      (c ∈ b.positive ∧ ¬ m.IsRegistered c ∨
        (∀ p ∈ b.positive, m.IsRegistered p) ∧
          c ∈ b.negative ∧ c ∉ m.namingConcepts) := by
  have failed : m.lookUp b = .error e := by
    rcases bind_eq_error.1 h with failed | ⟨_, -, listed⟩
    · exact failed
    · cases listed
  rcases bind_eq_error.1 failed with positive | ⟨_, positive, rest⟩
  · obtain ⟨c, hc, failed⟩ := exists_of_mapM_eq_error positive
    obtain ⟨unregistered, rfl⟩ := demand_eq_error.1 failed
    exact ⟨c, rfl, .inl ⟨hc, unregistered⟩⟩
  · have registered : ∀ p ∈ b.positive, m.IsRegistered p := by
      intro p hp
      exact exists_affirm_iff.1 ((mapM_eq_ok_filterMap.1 positive).1 p hp)
    rcases bind_eq_error.1 rest with negative | ⟨_, -, joined⟩
    · obtain ⟨c, hc, failed⟩ := exists_of_mapM_eq_error negative
      obtain ⟨unnamed, rfl⟩ := deny_eq_error.1 failed
      exact ⟨c, rfl, .inr ⟨registered, hc, unnamed⟩⟩
    · cases joined

/-- Selected are the axioms outside the globals that are found under some name
that the branch asks for. -/
theorem mem_selected {a : Axiom} :
    a ∈ (m.selection b).selected ↔ a ∉ m.globals ∧
      ∃ name, m.AsksFor b name ∧ m.definition? name = some a := by
  rw [selection, List.mem_filter, List.mem_eraseDups, mem_inOrder_entries,
    and_comm]
  exact and_congr_left fun _ => by simp

/-- The axioms of a branch are the global ones and those that it asks for. -/
theorem mem_selection {a : Axiom} :
    a ∈ (m.selection b).axioms ↔ a ∈ m.globals ∨
      ∃ name, m.AsksFor b name ∧ m.definition? name = some a := by
  rw [BranchOntology.axioms, List.mem_append, mem_selected]
  show a ∈ m.globals ∨ _ ↔ _
  by_cases global : a ∈ m.globals
  · simp [global]
  · simp [global]

/-- A branch takes its axioms from the globals and from the registry. -/
theorem mem_of_mem_selection {a : Axiom} (h : a ∈ (m.selection b).axioms) :
    a ∈ m.globals ++ m.registry.map (·.2) := by
  rcases mem_selection.1 h with global | ⟨name, -, found⟩
  · exact List.mem_append_left _ global
  · have entry := mem_of_lookup_eq_some found
    exact List.mem_append_right _ (List.mem_map_of_mem entry)

/-- No axiom of a branch is listed twice. -/
theorem nodup_selection {ss : List Statement} (sorted : IsSorted ss m)
    (b : Branch) : (m.selection b).axioms.Nodup := by
  rw [BranchOntology.axioms, List.nodup_append]
  refine ⟨?_, (nodup_eraseDups _).filter _, ?_⟩
  · show m.globals.Nodup
    rw [sorted.globals]
    exact nodup_eraseDups _
  · intro a global a' selected same
    subst same
    have new := (List.mem_filter.1 selected).2
    simp [show a ∈ m.globals from global] at new

end ContextBase

-- =========================================================== object ontologies

namespace BranchOntology

variable (v : BranchOntology)

theorem size_eq_length : v.size = v.axioms.length := by
  rw [axioms, List.length_append, size]

theorem contains_iff_mem {a : Axiom} : v.contains a = true ↔ a ∈ v.axioms := by
  simp [contains, axioms]

theorem statements_toOntology :
    v.toOntology.statements = v.axioms.map Statement.plain := by
  rw [toOntology, Ontology.foldl_markRigid]
  rfl

/-- An ontology mentions the names of its branch. -/
theorem signature_toOntology : v.toOntology.signature = v.signature := by
  have bodies : v.toOntology.axioms = v.axioms := by
    rw [Ontology.axioms, statements_toOntology, List.map_map]
    exact List.map_id _
  rw [Ontology.signature, bodies, signature]

/-- Labelled are the rigid entities among the names of the branch. -/
theorem mem_rigid_toOntology {e : Iri} :
    e ∈ v.toOntology.rigid ↔ e ∈ v.rigid ∧ v.signature.contains e = true := by
  have unlabelled : (Ontology.ofAxioms v.axioms).notes.isRigid e = false := rfl
  rw [toOntology, Ontology.foldl_markRigid, Ontology.rigid,
    EntityNotes.mem_rigid, EntityNotes.isRigid_markAll, unlabelled,
    List.mem_filter]
  simp

end BranchOntology

-- ================================================================== conclusion

namespace ContextBase

variable {m : ContextBase} {supply left : Supply} {o : Ontology} {b : Branch}

/-- The object ontology of a branch over a document: what it lists, and what is
made of it. -/
structure Selects (m : ContextBase) (o : Ontology) (b : Branch)
    (v : BranchOntology) : Prop where
  axioms : v.axioms = m.globals ++ v.selected
  nodup : v.axioms.Nodup
  selected : ∀ a, a ∈ v.selected ↔ a ∉ m.globals ∧
    ((∃ c ∈ b.positive, m.definition? c = some a) ∨
      ∃ c ∈ b.negative, ∃ n, m.dualName c = .ok n ∧ m.definition? n = some a)
  size : v.size = v.axioms.toFinset.card
  contains : ∀ a, v.contains a = true ↔ a ∈ v.axioms
  statements : v.toOntology.statements = v.axioms.map Statement.plain
  rigid : ∀ e, e ∈ v.toOntology.rigid ↔
    e ∈ o.rigid ∧ v.toOntology.signature.contains e = true
  /-- The union over the branches of one concept each. -/
  union : ∀ a, a ∈ v.axioms ↔ a ∈ m.globals ∨
    (∃ c ∈ b.positive, ∃ single w, Branch.ofLists [c] [] = .ok single ∧
      m.branchOntology single = .ok w ∧ a ∈ w.axioms) ∨
    ∃ c ∈ b.negative, ∃ single w, Branch.ofLists [] [c] = .ok single ∧
      m.branchOntology single = .ok w ∧ a ∈ w.axioms

/-- The axioms in the object ontology of lists that are admitted. -/
theorem exists_mem_iff {ps ns : List Iri} (apart : ∀ c ∈ ps, c ∉ ns)
    (registered : ∀ c ∈ ps, m.IsRegistered c)
    (naming : ∀ c ∈ ns, c ∈ m.namingConcepts) {a : Axiom} :
    (∃ b w, Branch.ofLists ps ns = .ok b ∧ m.branchOntology b = .ok w ∧
      a ∈ w.axioms) ↔
    a ∈ m.globals ∨ (∃ c ∈ ps, m.definition? c = some a) ∨
      ∃ c ∈ ns, ∃ n, m.dualName c = .ok n ∧ m.definition? n = some a := by
  obtain ⟨b, made⟩ := Branch.exists_ofLists apart
  have mem := Branch.mem_ofLists made
  have admits : m.Admits b :=
    ⟨fun c hc => registered c ((mem c).1.1 hc),
      fun c hc => naming c ((mem c).2.1 hc)⟩
  have listed := mem_selection (m := m) (b := b) (a := a)
  rw [exists_asksFor_iff] at listed
  simp only [(mem _).1, (mem _).2] at listed
  rw [← listed]
  constructor
  · intro h
    obtain ⟨b', w, made', found, ha⟩ := h
    rw [made, Except.ok.injEq] at made'
    subst made'
    exact (branchOntology_eq_ok_iff.1 found).2 ▸ ha
  · intro ha
    exact ⟨b, _, made, branchOntology_eq_ok_iff.2 ⟨admits, rfl⟩, ha⟩

/-- A branch lists what its concepts list one by one. -/
theorem mem_selection_iff_single (admits : m.Admits b) {a : Axiom} :
    a ∈ (m.selection b).axioms ↔ a ∈ m.globals ∨
      (∃ c ∈ b.positive, ∃ single w, Branch.ofLists [c] [] = .ok single ∧
        m.branchOntology single = .ok w ∧ a ∈ w.axioms) ∨
      ∃ c ∈ b.negative, ∃ single w, Branch.ofLists [] [c] = .ok single ∧
        m.branchOntology single = .ok w ∧ a ∈ w.axioms := by
  have positive (c : Iri) (hc : c ∈ b.positive) :=
    @exists_mem_iff m [c] [] (by simp) (by simpa using admits.1 c hc) (by simp) a
  have negative (c : Iri) (hc : c ∈ b.negative) :=
    @exists_mem_iff m [] [c] (by simp) (by simp) (by simpa using admits.2 c hc) a
  rw [mem_selection, exists_asksFor_iff]
  by_cases global : a ∈ m.globals
  · simp [global]
  · refine or_congr Iff.rfl (or_congr ?_ ?_)
    · refine exists_congr fun c => and_congr_right fun hc => ?_
      rw [positive c hc]
      simp [global]
    · refine exists_congr fun c => and_congr_right fun hc => ?_
      rw [negative c hc]
      simp [global]

/-- What a branch selects over a document is selected exactly. -/
theorem selects_selection (built : ofOntology supply o = .ok (m, left))
    (admits : m.Admits b) : m.Selects o b (m.selection b) := by
  have nodup := nodup_selection (isSorted_of_ofOntology built) b
  constructor
  case axioms => rfl
  case nodup => exact nodup
  case selected =>
    intro a
    rw [mem_selected, exists_asksFor_iff]
  case size =>
    rw [List.toFinset_card_of_nodup nodup, BranchOntology.size_eq_length]
  case contains => exact fun a => BranchOntology.contains_iff_mem _
  case statements => exact BranchOntology.statements_toOntology _
  case rigid =>
    intro e
    rw [BranchOntology.mem_rigid_toOntology,
      BranchOntology.signature_toOntology, ← (head_of_ofOntology built).2]
    rfl
  case union => exact fun a => mem_selection_iff_single admits

/-- The object ontologies of a model, exactly. There is one for a branch if
and only if its concepts are registered, and else the error names one that is
not. It lists what the branch selects. With a concept negative there is one if
and only if there is one with its dual name positive, and both have the same
axioms. -/
theorem branchOntology_exact (built : ofOntology supply o = .ok (m, left)) :
    (∀ b : Branch,
      ((∃ v, m.branchOntology b = .ok v) ↔
        (∀ c ∈ b.positive, m.IsRegistered c) ∧
          ∀ c ∈ b.negative, c ∈ m.namingConcepts) ∧
      (∀ e, m.branchOntology b = .error e → ∃ c, e = .unregistered c ∧
        (c ∈ b.positive ∧ ¬ m.IsRegistered c ∨
          (∀ p ∈ b.positive, m.IsRegistered p) ∧
            c ∈ b.negative ∧ c ∉ m.namingConcepts)) ∧
      ∀ v, m.branchOntology b = .ok v → m.Selects o b v) ∧
    ∀ n ∈ m.namingConcepts, ∀ ps ns b₁ b₂,
      Branch.ofLists (n.dual :: ps) ns = .ok b₁ →
      Branch.ofLists ps (n :: ns) = .ok b₂ →
      ((∃ v, m.branchOntology b₁ = .ok v) ↔
        ∃ v, m.branchOntology b₂ = .ok v) ∧
      ∀ v₁ v₂, m.branchOntology b₁ = .ok v₁ → m.branchOntology b₂ = .ok v₂ →
        v₁.axioms.Perm v₂.axioms := by
  have exists_iff (b : Branch) :
      (∃ v, m.branchOntology b = .ok v) ↔ m.Admits b := by
    simp only [branchOntology_eq_ok_iff, exists_and_left, exists_eq, and_true]
  refine ⟨fun b => ⟨?_, fun e failed => ?_, fun v found => ?_⟩, ?_⟩
  · exact exists_iff b
  · exact branchOntology_eq_error failed
  · obtain ⟨admits, rfl⟩ := branchOntology_eq_ok_iff.1 found
    exact selects_selection built admits
  · intro n naming ps ns b₁ b₂ positive negative
    rw [exists_iff, exists_iff]
    refine ⟨admits_moved naming positive negative, fun v₁ v₂ found₁ found₂ => ?_⟩
    obtain ⟨-, rfl⟩ := branchOntology_eq_ok_iff.1 found₁
    obtain ⟨-, rfl⟩ := branchOntology_eq_ok_iff.1 found₂
    have sorted := isSorted_of_ofOntology built
    apply (List.perm_ext_iff_of_nodup (nodup_selection sorted b₁)
      (nodup_selection sorted b₂)).2
    intro a
    simp only [mem_selection, asksFor_moved naming positive negative]

/-- The second concept of the mixed document is positive, and so is the dual
name of the first. -/
def positiveDual : Branch where
  positive := [⟨"e#DUAL.M"⟩, ⟨"e:N"⟩]
  negative := []
  positive_nodup := by decide
  negative_nodup := by decide
  disjoint := by decide

/-- The second concept of the mixed document is positive and the first is
negative. -/
def negativeFirst : Branch where
  positive := [⟨"e:N"⟩]
  negative := [⟨"e#M"⟩]
  positive_nodup := by decide
  negative_nodup := by decide
  disjoint := by decide

/-- What the first of them selects: the axiom of the positive concept is
global, so one negation is added to it. -/
def mixedSelection : BranchOntology where
  globals := [.classAssertion (.atom ⟨"e:A"⟩) (.named ⟨"e:a"⟩)]
  selected := [.classAssertion (.atom ⟨"e:A"⟩) (.anonymous (.fresh 0))]
  rigid := [⟨"e:A"⟩]

/-- A dual name that is positive selects the negation, and its concept selects
the same where it is negative instead. -/
theorem mixedModel_selects :
    ofOntology .full mixedDocument = .ok (mixedModel, ⟨1⟩) ∧
      mixedModel.branchOntology positiveDual = .ok mixedSelection ∧
      mixedModel.Selects mixedDocument positiveDual mixedSelection ∧
      ∃ v, mixedModel.branchOntology negativeFirst = .ok v ∧
        mixedSelection.axioms.Perm v.axioms := by
  have built : ofOntology .full mixedDocument = .ok (mixedModel, ⟨1⟩) := by
    decide +kernel
  obtain ⟨branches, dual⟩ := branchOntology_exact built
  have found : mixedModel.branchOntology positiveDual = .ok mixedSelection := by
    decide +kernel
  have positive : Branch.ofLists [⟨"e#DUAL.M"⟩, ⟨"e:N"⟩] [] =
      .ok positiveDual :=
    Branch.ofLists_eq_ok.2 ⟨by decide, by decide +kernel, by decide +kernel⟩
  have negative : Branch.ofLists [⟨"e:N"⟩] [⟨"e#M"⟩] = .ok negativeFirst :=
    Branch.ofLists_eq_ok.2 ⟨by decide, by decide +kernel, by decide +kernel⟩
  have name : (⟨"e#DUAL.M"⟩ : Iri) = Iri.dual ⟨"e#M"⟩ := by decide +kernel
  rw [name] at positive
  obtain ⟨both, same⟩ := dual ⟨"e#M"⟩ (by decide) _ _ _ _ positive negative
  obtain ⟨v, found'⟩ := both.1 ⟨_, found⟩
  exact ⟨built, found, (branches positiveDual).2.2 _ found, v, found',
    same _ _ found found'⟩

end ContextBase

end ContextDL
