/-
The originals can be read off a copy.

A copy moves some names and leaves the others where they are. Two names could
fall together in three ways.

- Two names that are moved: both get the same ending behind them, so they differ
  after it if they differ before.
- A moved name and one that stays: the name that stays is one of the ontology,
  and a copy that was made uses none of these.
- A class that stays because it is reserved: no copy is a reserved class.

No property of the separator enters, since one copy has one ending. So there is
a way back, for the names of the ontology (`CopyPlan.source`), and with it for
everything that is made of them: to map the names of a copy to their sources is
to take the copy back (`CopyPlan.mapNames_source`).

That a map of names can be taken back along another is told by two laws, as for
blank nodes: two maps are one after the other (`Axiom.mapNames_mapNames`), and
a map that leaves all names of an axiom alone leaves the axiom alone
(`Axiom.mapNames_eq_self`). The first asks that no name becomes a reserved
class, for such a class would be passed over by the second map.
-/
import ContextDL.Proofs.Meaning.Relabelling
import ContextDL.Proofs.Renaming.Names

namespace ContextDL

variable {f g : Iri → Iri}

-- ================================================================= fixed names

/-- A class stays if it is reserved or fixed. -/
theorem Iri.mapClass_eq_self {n : Iri}
    (fixed : ∀ k, (Signature.ofClass n).contains k = true → f k = k) :
    n.mapClass f = n := by
  unfold mapClass
  split
  · rfl
  · next plain =>
    exact fixed n (by simp [Signature.ofClass, plain, Signature.contains_iff])

theorem Role.mapNames_eq_self {r : Role}
    (fixed : ∀ n, r.signature.contains n = true → f n = n) :
    r.mapNames f = r := by
  have property : f r.property = r.property :=
    fixed _ (by simp [signature, Signature.ofProperty, Signature.contains_iff])
  cases r with
  | named p => exact congrArg named property
  | inverse p => exact congrArg inverse property

theorem Individual.mapNames_eq_self {a : Individual}
    (fixed : ∀ n, (Signature.ofIndividual a).contains n = true → f n = n) :
    a.mapNames f = a := by
  cases a with
  | named n =>
    refine congrArg named (fixed n ?_)
    simp [Signature.ofIndividual, Signature.contains_iff]
  | anonymous node => rfl

/-- The members of a list stay if the map leaves all their names alone. -/
theorem map_eq_self_of_unionAll {α : Type} {signature : α → Signature}
    {h : α → α} {xs : List α}
    (each : ∀ x, (∀ n, (signature x).contains n = true → f n = n) → h x = x)
    (fixed : ∀ n, (Signature.unionAll signature xs).contains n = true →
      f n = n) : xs.map h = xs :=
  map_eq_self fun x hx => each x fun n hn =>
    fixed n (Signature.contains_unionAll.2 ⟨x, hx, hn⟩)

/-- A concept stays whose names are fixed. -/
theorem Concept.mapNames_eq_self {c : Concept}
    (fixed : ∀ n, c.signature.contains n = true → f n = n) :
    c.mapNames f = c := by
  induction c with
  | atom n => exact congrArg atom (Iri.mapClass_eq_self fixed)
  | inter cs ih | union cs ih =>
    rw [signature, signatureAll_eq] at fixed
    rw [mapNames, mapNamesAll_eq]
    exact congrArg _ (map_eq_self fun c hc => ih c hc fun n hn =>
      fixed n (Signature.contains_unionAll.2 ⟨c, hc, hn⟩))
  | compl c ih => rw [mapNames, ih fixed]
  | oneOf members =>
    exact congrArg oneOf
      (map_eq_self_of_unionAll (fun _ => Individual.mapNames_eq_self) fixed)
  | restrict q r c ih =>
    simp only [signature, Signature.contains_union, or_imp, forall_and] at fixed
    rw [mapNames, Role.mapNames_eq_self fixed.1, ih fixed.2]

/-- An axiom stays whose names are fixed. -/
theorem Axiom.mapNames_eq_self {a : Axiom}
    (fixed : ∀ n, a.signature.contains n = true → f n = n) :
    a.mapNames f = a := by
  have concepts {cs : List Concept} (fixed : ∀ n,
      (Signature.unionAll Concept.signature cs).contains n = true → f n = n) :
      cs.map (Concept.mapNames f) = cs :=
    map_eq_self_of_unionAll (fun _ => Concept.mapNames_eq_self) fixed
  have individuals {as : List Individual} (fixed : ∀ n,
      (Signature.unionAll .ofIndividual as).contains n = true → f n = n) :
      as.map (Individual.mapNames f) = as :=
    map_eq_self_of_unionAll (fun _ => Individual.mapNames_eq_self) fixed
  have roles {rs : List Role} (fixed : ∀ n,
      (Signature.unionAll Role.signature rs).contains n = true → f n = n) :
      rs.map (Role.mapNames f) = rs :=
    map_eq_self_of_unionAll (fun _ => Role.mapNames_eq_self) fixed
  have property {p : Iri}
      (fixed : ∀ n, (Signature.ofProperty p).contains n = true → f n = n) :
      f p = p :=
    fixed p (by simp [Signature.ofProperty, Signature.contains_iff])
  cases a <;> simp only [signature, Signature.contains_union, or_imp,
    forall_and] at fixed <;> rw [mapNames]
  case subClassOf c d =>
    rw [Concept.mapNames_eq_self fixed.1, Concept.mapNames_eq_self fixed.2]
  case equivalentClasses cs => rw [concepts fixed]
  case disjointClasses cs => rw [concepts fixed]
  case subPropertyOf r s =>
    rw [Role.mapNames_eq_self fixed.1, Role.mapNames_eq_self fixed.2]
  case domain r c =>
    rw [Role.mapNames_eq_self fixed.1, Concept.mapNames_eq_self fixed.2]
  case range r c =>
    rw [Role.mapNames_eq_self fixed.1, Concept.mapNames_eq_self fixed.2]
  case inverseProperties p q => rw [property fixed.1, property fixed.2]
  case transitive p => rw [property fixed]
  case classAssertion c a =>
    rw [Concept.mapNames_eq_self fixed.1, Individual.mapNames_eq_self fixed.2]
  case roleAssertion r a b =>
    rw [Role.mapNames_eq_self fixed.1.1, Individual.mapNames_eq_self fixed.1.2,
      Individual.mapNames_eq_self fixed.2]
  case noRoleAssertion r a b =>
    rw [Role.mapNames_eq_self fixed.1.1, Individual.mapNames_eq_self fixed.1.2,
      Individual.mapNames_eq_self fixed.2]
  case sameIndividual as => rw [individuals fixed]
  case differentIndividuals as => rw [individuals fixed]
  case hasKey c rs => rw [Concept.mapNames_eq_self fixed.1, roles fixed.2]
  case declareClass n => rw [Iri.mapClass_eq_self fixed]
  case declareProperty p => rw [property fixed]
  case declareIndividual a => rw [Individual.mapNames_eq_self fixed]

-- =================================================================== both maps

theorem Role.mapNames_mapNames (r : Role) :
    (r.mapNames f).mapNames g = r.mapNames (g ∘ f) := by
  cases r <;> rfl

theorem Individual.mapNames_mapNames (a : Individual) :
    (a.mapNames f).mapNames g = a.mapNames (g ∘ f) := by
  cases a <;> rfl

section BothMaps

variable (plain : ∀ n : Iri, n.isReserved = false → (f n).isReserved = false)

include plain

theorem Iri.mapClass_mapClass (n : Iri) :
    (n.mapClass f).mapClass g = n.mapClass (g ∘ f) := by
  cases reserved : n.isReserved with
  | true => simp [mapClass, reserved]
  | false => simp [mapClass, reserved, plain n reserved]

/-- A concept is renamed twice along both maps. -/
theorem Concept.mapNames_mapNames (c : Concept) :
    (c.mapNames f).mapNames g = c.mapNames (g ∘ f) := by
  induction c with
  | atom n => exact congrArg atom (n.mapClass_mapClass plain)
  | inter cs ih | union cs ih =>
    simp only [mapNames, mapNamesAll_eq, List.map_map]
    exact congrArg _ (List.map_congr_left ih)
  | compl c ih => simp only [mapNames, ih]
  | oneOf members =>
    simp only [mapNames, List.map_map]
    exact congrArg _ (List.map_congr_left fun a _ => a.mapNames_mapNames)
  | restrict q r c ih => simp only [mapNames, ih, Role.mapNames_mapNames]

/-- An axiom is renamed twice along both maps. -/
theorem Axiom.mapNames_mapNames (a : Axiom) :
    (a.mapNames f).mapNames g = a.mapNames (g ∘ f) := by
  have name := Iri.mapClass_mapClass (g := g) plain
  have concept := Concept.mapNames_mapNames (g := g) plain
  cases a <;> simp [mapNames, name, concept, Role.mapNames_mapNames,
    Individual.mapNames_mapNames]

/-- A renamed axiom is taken back by a map that takes its names back. -/
theorem Axiom.mapNames_leftInverse {a : Axiom}
    (back : ∀ n, a.signature.contains n = true → g (f n) = n) :
    (a.mapNames f).mapNames g = a := by
  rw [mapNames_mapNames plain]
  exact mapNames_eq_self back

end BothMaps

-- ===================================================================== sources

namespace CopyPlan

variable {plan : CopyPlan}

/-- The name that a name of the copy comes from: itself if it was used before,
and else the one that it is the copy of. -/
def source (plan : CopyPlan) (renamed : Iri) : Iri :=
  if plan.existing.contains renamed then renamed
  else (plan.names.find? fun n =>
    n.numbered plan.separator plan.copy = renamed).getD renamed

/-- The source of a target is the name that was copied, for names that were in
use before. -/
theorem source_target {n : Iri} (used : plan.existing.contains n = true)
    (admits : plan.Admits n) : plan.source (plan.target n) = n := by
  unfold target
  split
  case isFalse other => exact if_pos used
  case isTrue renamed =>
    unfold source
    -- the copy was not in use, so its source is looked for among the names
    rw [if_neg (Bool.eq_false_iff.1 (admits renamed).2)]
    simp only [Iri.numbered_left_inj]
    have found : plan.names.find? (fun k => decide (k = n)) = some n := by
      have some : (plan.names.find? fun k => decide (k = n)).isSome :=
        List.find?_isSome.2 ⟨n, renamed, by simp⟩
      obtain ⟨k, hk⟩ := Option.isSome_iff_exists.1 some
      have same : k = n := by simpa using List.find?_some hk
      rw [hk, same]
    rw [found, Option.getD_some]

/-- The source of a copied name is the name. -/
theorem source_of_iri {n r : Iri} (used : plan.existing.contains n = true)
    (made : plan.iri n = .ok r) : plan.source r = n := by
  obtain ⟨admits, rfl⟩ := iri_eq_ok.1 made
  exact source_target used admits

/-- An axiom over names that were in use before is read off its copy. -/
theorem mapNames_source {a b : Axiom}
    (used : ∀ n, a.signature.contains n = true →
      plan.existing.contains n = true)
    (made : plan.body a = .ok b) : b.mapNames plan.source = a := by
  obtain ⟨fits, rfl⟩ := body_eq_ok.1 made
  exact Axiom.mapNames_leftInverse isReserved_target fun n hn =>
    source_target (used n hn) (fits n hn)

end CopyPlan

namespace Ontology

variable {o : Ontology} {names : List Iri} {separator : String} {copy : Nat}

/-- A copy is taken back, statement by statement and notes included, by taking
its names back. -/
theorem map_source_copyOf {ss : List Statement}
    (made : o.copyOf names separator copy = .ok ss) :
    ss.map (Statement.mapNames (o.copyPlan names separator copy).source) =
      o.statements.filter (isCopied names) := by
  obtain ⟨possible, rfl⟩ := copyOf_eq_ok.1 made
  rw [List.map_map]
  refine map_eq_self fun s hs => ?_
  obtain ⟨stated, copied⟩ := List.mem_filter.1 hs
  have fits := possible s stated copied
  have copy := CopyPlan.body_eq_ok.2 ⟨fits, rfl⟩
  have back := CopyPlan.mapNames_source
    (fun n hn => contains_signature stated hn) copy
  exact congrArg (fun body => { s with body }) back

/-- With any separator, a copy with one number keeps the names and the axioms
of an ontology apart, and there is one map of names that takes all of them
back, and the copied statements as a whole. -/
theorem copies_injective (o : Ontology) (names : List Iri)
    (separator : String) (copy : Nat) :
    let plan := o.copyPlan names separator copy
    (∀ n k r, o.signature.contains n = true → o.signature.contains k = true →
      plan.iri n = .ok r → plan.iri k = .ok r → n = k) ∧
    (∀ a ∈ o.axioms, ∀ b ∈ o.axioms, ∀ c,
      plan.body a = .ok c → plan.body b = .ok c → a = b) ∧
    (∀ a ∈ o.axioms, ∀ c, plan.body a = .ok c →
      c.mapNames plan.source = a) ∧
    ∀ ss, o.copyOf names separator copy = .ok ss →
      ss.map (Statement.mapNames plan.source) =
        o.statements.filter (isCopied names) := by
  intro plan
  have back {a c : Axiom} (ha : a ∈ o.axioms) (made : plan.body a = .ok c) :
      c.mapNames plan.source = a :=
    CopyPlan.mapNames_source (fun _ => contains_signature_of_mem ha) made
  refine ⟨fun n k r hn hk first second => ?_,
    fun a ha b hb c first second => ?_, fun a ha c => back ha,
    fun ss => map_source_copyOf⟩
  · rw [← CopyPlan.source_of_iri hn first, CopyPlan.source_of_iri hk second]
  · rw [← back ha first, back hb second]

/-- A property with an inclusion over it that is stated twice, and a class
that has the name of the property with a digit behind it. -/
def doubledInclusion : Ontology :=
  let inclusion : Axiom := .subClassOf (.atom ⟨"e:#r1"⟩)
    (.restrict .universal (.inverse ⟨"e:#r"⟩) .bottom)
  { iri := none
    statements := [⟨inclusion, [.objectGlobal]⟩, .plain inclusion]
    notes := .empty }

/-- With the empty separator, copy `2` of the property is not the class, nor a
copy of it, and both inclusions are taken back. -/
theorem copies_injective_doubledInclusion :
    let plan := doubledInclusion.copyPlan [⟨"e:#r"⟩] "" 2
    let r : Iri := ⟨"e:#r"⟩
    let given : Iri := ⟨"e:#r2"⟩
    let a (p : Iri) : Axiom := .subClassOf (.atom ⟨"e:#r1"⟩)
      (.restrict .universal (.inverse p) .bottom)
    let ss : List Statement := [⟨a given, [.objectGlobal]⟩, .plain (a given)]
    (doubledInclusion.signature.contains r = true ∧ plan.iri r = .ok given ∧
      r = r) ∧
    (a r ∈ doubledInclusion.axioms ∧ plan.body (a r) = .ok (a given) ∧
      a r = a r ∧ (a given).mapNames plan.source = a r) ∧
    doubledInclusion.copyOf [⟨"e:#r"⟩] "" 2 = .ok ss ∧
    ss.map (Statement.mapNames plan.source) =
      doubledInclusion.statements.filter (isCopied [⟨"e:#r"⟩]) := by
  intro plan r given a ss
  have used : doubledInclusion.signature.contains r = true := by
    decide +kernel
  have name : plan.iri r = .ok given := toOption_eq_some.1 (by decide +kernel)
  have stated : a r ∈ doubledInclusion.axioms := by decide +kernel
  have body : plan.body (a r) = .ok (a given) :=
    toOption_eq_some.1 (by decide +kernel)
  have made : doubledInclusion.copyOf [⟨"e:#r"⟩] "" 2 = .ok ss :=
    toOption_eq_some.1 (by decide +kernel)
  obtain ⟨sameName, sameAxiom, back, backAll⟩ :=
    copies_injective doubledInclusion [⟨"e:#r"⟩] "" 2
  exact ⟨⟨used, name, sameName r r given used used name name⟩,
    ⟨stated, body, sameAxiom _ stated _ stated _ body body,
      back _ stated _ body⟩, made, backAll ss made⟩

end Ontology

end ContextDL
