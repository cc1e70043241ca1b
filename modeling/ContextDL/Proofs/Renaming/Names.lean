/-
The names of what a map of names leaves behind.

A map of names takes an axiom place by place (`Axiom.mentions_mapNames`). A
signature is the image of another if its classes, its properties and its
individuals are the images of theirs (`Signature.IsImage`). The names of an
image of an axiom are the image of its names (`Axiom.isImage_mapNames`), since
they are at each place, if the map leads to no reserved class: such a class
stands in a concept without being a name of it, so a class that became reserved
would be lost. The targets of a copy are never reserved
(`CopyPlan.isReserved_target`).
-/
import ContextDL.Signature
import ContextDL.Proofs.Renaming.Effect

namespace ContextDL

variable {f : Iri → Iri}

-- ============================================================ images of places

/-- What a map of names puts at a place. -/
def Mention.mapNames (f : Iri → Iri) : Mention → Mention
  | .className n => .className (n.mapClass f)
  | .property p => .property (f p)
  | .individual a => .individual (a.mapNames f)

theorem Role.mention_mapNames (r : Role) :
    (r.mapNames f).mention = r.mention.mapNames f := by
  cases r <;> rfl

/-- A map of names takes a concept place by place. -/
theorem Concept.mentions_mapNames (c : Concept) :
    (c.mapNames f).mentions = c.mentions.map (Mention.mapNames f) := by
  induction c with
  | atom n => rfl
  | inter cs ih | union cs ih =>
    rw [mapNames, mentions, mentions, mentionsAll_eq, mentionsAll_eq,
      mapNamesAll_eq, List.flatMap_map, List.map_flatMap]
    exact List.flatMap_congr ih
  | compl c ih => exact ih
  | oneOf members =>
    rw [mapNames, mentions, mentions, List.map_map, List.map_map]
    rfl
  | restrict quantifier r c ih =>
    rw [mapNames, mentions, mentions, List.map_cons, ih, r.mention_mapNames]

/-- A map of names takes an axiom place by place. -/
theorem Axiom.mentions_mapNames (a : Axiom) :
    (a.mapNames f).mentions = a.mentions.map (Mention.mapNames f) := by
  have concept := Concept.mentions_mapNames (f := f)
  have role := Role.mention_mapNames (f := f)
  cases a <;> simp [mapNames, mentions, concept, role, Mention.mapNames,
    List.map_flatMap, List.flatMap_map, Function.comp_def]

namespace Signature

-- ====================================================================== images

/-- The names of one signature are the images of the names of another, each as
what it is. -/
structure IsImage (f : Iri → Iri) (s t : Signature) : Prop where
  classes : ∀ n, n ∈ t.classes ↔ ∃ k ∈ s.classes, f k = n
  properties : ∀ n, n ∈ t.properties ↔ ∃ k ∈ s.properties, f k = n
  individuals : ∀ n, n ∈ t.individuals ↔ ∃ k ∈ s.individuals, f k = n

/-- A name of the image is the image of a name, whatever it is used for. -/
theorem IsImage.contains_iff {s t : Signature} (image : IsImage f s t)
    {n : Iri} :
    t.contains n = true ↔ ∃ k, s.contains k = true ∧ f k = n := by
  simp only [Signature.contains_iff, image.classes, image.properties,
    image.individuals, or_and_right, exists_or]

/-- A class or a property of a signature. Only these can be flexible, since
individuals are shared by all branches. -/
def IsPredicate (s : Signature) (n : Iri) : Prop :=
  n ∈ s.classes ∨ n ∈ s.properties

/-- The classes and properties of a list of signatures. -/
theorem isPredicate_unionAll {α : Type} {signature : α → Signature}
    {xs : List α} {n : Iri} :
    (unionAll signature xs).IsPredicate n ↔
      ∃ x ∈ xs, (signature x).IsPredicate n := by
  refine unionAll_iff_exists (p := fun s => s.IsPredicate n) (fun s t => ?_)
    (by simp [IsPredicate, empty])
  rw [IsPredicate, mem_classes_union, mem_properties_union, or_or_or_comm]
  rfl

/-- They are names of the signature. -/
theorem IsPredicate.contains {s : Signature} {n : Iri}
    (predicate : s.IsPredicate n) : s.contains n = true :=
  Signature.contains_iff.2 (predicate.imp_right .inl)

/-- The classes and properties of an image are the images of classes and
properties. -/
theorem IsImage.isPredicate_iff {s t : Signature} (image : IsImage f s t)
    {n : Iri} :
    t.IsPredicate n ↔ ∃ k, s.IsPredicate k ∧ f k = n := by
  simp only [IsPredicate, image.classes, image.properties, or_and_right,
    exists_or]

theorem IsImage.empty : IsImage f empty empty := by
  constructor <;> simp [Signature.empty]

theorem IsImage.union {s s' t t' : Signature} (first : IsImage f s t)
    (second : IsImage f s' t') : IsImage f (s ∪ s') (t ∪ t') := by
  constructor
  · intro n
    simp only [mem_classes_union, first.classes, second.classes,
      or_and_right, exists_or]
  · intro n
    simp only [mem_properties_union, first.properties, second.properties,
      or_and_right, exists_or]
  · intro n
    simp only [mem_individuals_union, first.individuals, second.individuals,
      or_and_right, exists_or]

/-- Where every member has its image, the list has. -/
theorem IsImage.unionAll {α : Type} {signature : α → Signature} {g : α → α}
    {xs : List α}
    (each : ∀ x ∈ xs, IsImage f (signature x) (signature (g x))) :
    IsImage f (.unionAll signature xs) (.unionAll signature (xs.map g)) := by
  induction xs with
  | nil => exact .empty
  | cons x xs ih =>
    have head := each x List.mem_cons_self
    have tail := ih fun y hy => each y (List.mem_cons_of_mem _ hy)
    exact head.union tail

end Signature

open Signature

section Images

variable (plain : ∀ n : Iri, n.isReserved = false → (f n).isReserved = false)

include plain

/-- The name at a place is taken along. A reserved class has none, before and
after. -/
theorem Mention.isImage_mapNames (m : Mention) :
    IsImage f m.signature (m.mapNames f).signature := by
  cases m with
  | className n =>
    rw [mapNames, signature, signature, Iri.mapClass]
    cases reserved : n.isReserved with
    | true =>
      rw [if_pos rfl, ofClass, if_pos reserved]
      exact .empty
    | false =>
      have other := plain n reserved
      rw [if_neg (by simp), ofClass, ofClass, if_neg (by simp [reserved]),
        if_neg (by simp [other])]
      constructor <;> simp [eq_comm]
  | property p =>
    constructor <;> simp [signature, mapNames, ofProperty, eq_comm]
  | individual a =>
    cases a with
    | named n =>
      constructor <;>
        simp [signature, mapNames, ofIndividual, Individual.mapNames, eq_comm]
    | anonymous node => exact .empty

/-- The names in an image of an axiom. -/
theorem Axiom.isImage_mapNames (a : Axiom) :
    IsImage f a.signature (a.mapNames f).signature := by
  rw [signature_eq_unionAll, signature_eq_unionAll, mentions_mapNames]
  exact .unionAll fun m _ => m.isImage_mapNames plain

end Images

-- ===================================================================== targets

/-- A plan puts no reserved class for a name that is none. -/
theorem CopyPlan.isReserved_target {plan : CopyPlan} (n : Iri)
    (plain : n.isReserved = false) : (plan.target n).isReserved = false := by
  unfold target
  split
  · exact Iri.isReserved_numbered ..
  · exact plain

namespace Ontology

variable {o : Ontology} {names : List Iri} {separator : String} {copy : Nat}
  {n : Iri}

/-- A name that is renamed gets a number. -/
theorem target_of_mem (renamed : n ∈ names) :
    (o.copyPlan names separator copy).target n = n.numbered separator copy :=
  if_pos renamed

/-- Any other name stays. -/
theorem target_of_notMem (other : n ∉ names) :
    (o.copyPlan names separator copy).target n = n :=
  if_neg other

/-- The names of a copy are the targets of the names of what is copied. -/
theorem isImage_target (s : Statement) :
    IsImage (o.copyPlan names separator copy).target s.signature
      (s.mapNames (o.copyPlan names separator copy).target).signature :=
  s.body.isImage_mapNames CopyPlan.isReserved_target

end Ontology

end ContextDL
