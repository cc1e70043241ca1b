/-
A copy goes through an axiom as the signature of the axiom does.

Two functions walk over an axiom: one collects its names, the other copies
them. If one of them passed a place by, a copy could fail for a name that no
signature shows, or leave a name that should be private. The mentions of an
axiom are the places that both should visit. `Axiom.signature_eq_unionAll`
says that the signature visits them, and `Axiom.mentions_mapNames` says that
the map of names does, in the same order.

What has no name is no business of either. A reserved class is not copied where
it stands for a class, even if its IRI is one of the names that are renamed; as
a property or an individual the same IRI is a name like any other. Nothing
turns into a reserved class, since copies end in digits, so such places are the
same before and after (`Mention.mapNames_eq_iff`).
-/
import ContextDL.Proofs.Renaming.Names

namespace ContextDL

-- =================================================================== constants

variable {f : Iri → Iri}

/-- A reserved class or an anonymous individual has no other source than
itself. -/
theorem Mention.mapNames_eq_iff
    (plain : ∀ n : Iri, n.isReserved = false → (f n).isReserved = false)
    {constant : Mention} (nameless : constant.signature = .empty) {m : Mention} :
    m.mapNames f = constant ↔ m = constant := by
  cases constant with
  | className k =>
    have reserved : k.isReserved = true := by
      simpa [signature, Signature.ofClass, Signature.empty] using nameless
    cases m with
    | className n =>
      rw [mapNames, className.injEq, className.injEq, Iri.mapClass]
      split
      case isTrue => rfl
      case isFalse other =>
        -- neither the class nor its image is reserved
        rw [Bool.not_eq_true] at other
        refine iff_of_false (fun same => ?_) fun same => ?_
        · have := plain n other
          rw [same, reserved] at this
          cases this
        · rw [same, reserved] at other
          cases other
    | property p | individual a => simp [mapNames]
  | property p => cases nameless
  | individual a =>
    cases a with
    | named n => cases nameless
    | anonymous node =>
      cases m with
      | className n | property p => simp [mapNames]
      | individual b => cases b <;> simp [mapNames, Individual.mapNames]

-- ====================================================================== copies

namespace CopyPlan

variable {plan : CopyPlan} {a b : Axiom}

/-- A plan admits a name exactly if the name is none to be copied, or has a
copy that is not used. -/
theorem admits_iff {n : Iri} :
    plan.Admits n ↔ n ∈ plan.names →
      ∃ r, n.copyName plan.separator plan.copy = .ok r ∧
        plan.existing.contains r = false := by
  unfold Admits
  refine imp_congr_right fun _ => ?_
  simp only [Iri.copyName_eq_ok]
  constructor
  · rintro ⟨valid, unused⟩
    exact ⟨_, ⟨valid, rfl⟩, unused⟩
  · rintro ⟨r, ⟨valid, rfl⟩, unused⟩
    exact ⟨valid, unused⟩

/-- How a copy of an axiom is related to the axiom. -/
structure Copies (plan : CopyPlan) (a b : Axiom) : Prop where
  renamed : ∀ n ∈ plan.names, a.signature.contains n = true →
    n.copyName plan.separator plan.copy = .ok (plan.target n)
  kept : ∀ n, n ∉ plan.names → plan.target n = n
  names : a.signature.IsImage plan.target b.signature
  constants : ∀ m : Mention, m.signature = .empty →
    ∀ k : Nat, b.mentions[k]? = some m ↔ a.mentions[k]? = some m

/-- The copy of an axiom has the targets of its names for names, and the same
constants at the same places. -/
theorem copies_of_body (made : plan.body a = .ok b) : plan.Copies a b := by
  obtain ⟨fits, rfl⟩ := body_eq_ok.1 made
  constructor
  · intro n hn mentioned
    have target : plan.target n = n.numbered plan.separator plan.copy :=
      if_pos hn
    exact Iri.copyName_eq_ok.2 ⟨(fits n mentioned hn).1, target⟩
  · exact fun n hn => if_neg hn
  · exact a.isImage_mapNames isReserved_target
  · intro m nameless k
    rw [Axiom.mentions_mapNames, List.getElem?_map, Option.map_eq_some_iff]
    simp only [Mention.mapNames_eq_iff isReserved_target nameless]
    exact exists_eq_right

/-- An axiom can be copied exactly if every name in its signature that is to
be copied has a copy that is a valid IRI and is not used. The classes,
properties and individuals of the copy are then the targets of those of the
axiom, and the reserved classes and anonymous individuals stay. -/
theorem body_agrees_signature (plan : CopyPlan) (a : Axiom) :
    ((∃ b, plan.body a = .ok b) ↔
      ∀ n ∈ plan.names, a.signature.contains n = true →
        ∃ r, n.copyName plan.separator plan.copy = .ok r ∧
          plan.existing.contains r = false) ∧
    ∀ b, plan.body a = .ok b → plan.Copies a b := by
  refine ⟨?_, fun b => copies_of_body⟩
  simp only [body_eq_ok, exists_and_left, exists_eq', and_true]
  unfold Fits
  simp only [admits_iff]
  exact forall_congr' fun n => forall_comm

/-- A plan to copy the IRI of the class of everything, and one other name. -/
def thingPlan : CopyPlan where
  names := [Iri.thing, ⟨"e:#a"⟩]
  separator := "_"
  existing := ⟨[], [Iri.thing], [⟨"e:#a"⟩, Iri.thing]⟩
  copy := 1

/-- Everything reaches, by a property with the IRI of the class of everything,
one of two named individuals and an anonymous one. The property and both names
are copied; the class and the anonymous individual stay. -/
theorem thingPlan_agrees_signature :
    let r (n : String) : Role := .inverse ⟨n⟩
    let members (first second : String) : Concept :=
      .oneOf [.named ⟨first⟩, .anonymous (.labelled "x"), .named ⟨second⟩]
    let owl := "http://www.w3.org/2002/07/owl#Thing"
    let a : Axiom := .subClassOf .top
      (.restrict .existential (r owl) (members "e:#a" owl))
    let b : Axiom := .subClassOf .top
      (.restrict .existential (r (owl ++ "_1")) (members "e:#a_1" (owl ++ "_1")))
    thingPlan.body a = .ok b ∧ thingPlan.Copies a b := by
  intro r members owl a b
  have made : thingPlan.body a = .ok b :=
    toOption_eq_some.1 (by decide +kernel)
  exact ⟨made, (body_agrees_signature thingPlan a).2 b made⟩

end CopyPlan

end ContextDL
