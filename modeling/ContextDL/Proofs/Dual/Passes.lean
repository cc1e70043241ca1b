/-
Dualizing again and again.

A pass puts `¬DUAL.C` for an addressed class `C`, and `DUAL.C` is addressed
again, so it does not come to rest. After `k` passes there are `k` complements
around the name with `k` more marks, wherever an addressed class stood, and all
else is as it was (`dualize_iterate`).

What a pass does to a class it does wherever the class stands, so a pass is a
substitution (`Concept.dualize_eq_substitute`). Substitutions are put together
at the names (`Concept.substitute_substitute`), and with this the passes are
counted at one name (`raised_succ`): the complements that are there already are
gone through, and the name under them is a marked member like the first one.
-/
import ContextDL.Signature
import ContextDL.Proofs.Dual.Names

namespace ContextDL

-- =============================================================== substitutions

namespace Concept

mutual

/-- Puts a concept for every class. -/
def substitute (f : Iri → Concept) : Concept → Concept
  | .atom name => f name
  | .inter operands => .inter (substituteAll f operands)
  | .union operands => .union (substituteAll f operands)
  | .compl operand => .compl (operand.substitute f)
  | .oneOf members => .oneOf members
  | .restrict quantifier role filler =>
    .restrict quantifier role (filler.substitute f)

/-- Puts concepts for the classes of every concept of a list. -/
def substituteAll (f : Iri → Concept) : List Concept → List Concept
  | [] => []
  | c :: cs => c.substitute f :: substituteAll f cs

end

variable {f g : Iri → Concept}

/-- Lists are gone through member by member. -/
theorem substituteAll_eq (cs : List Concept) :
    substituteAll f cs = cs.map (substitute f) := by
  induction cs with
  | nil => rfl
  | cons c cs ih => rw [substituteAll, ih]; rfl

/-- To put every class for itself changes nothing. -/
theorem substitute_atom (c : Concept) : c.substitute atom = c := by
  induction c with
  | atom n => rfl
  | inter cs ih | union cs ih =>
    rw [substitute, substituteAll_eq, List.map_congr_left ih, List.map_id']
  | compl c ih => rw [substitute, ih]
  | oneOf members => rfl
  | restrict q r c ih => rw [substitute, ih]

/-- A second substitution goes into what the first has put. -/
theorem substitute_substitute (c : Concept) :
    (c.substitute f).substitute g =
      c.substitute fun n => (f n).substitute g := by
  induction c with
  | atom n => rfl
  | inter cs ih | union cs ih =>
    simp only [substitute, substituteAll_eq, List.map_map]
    exact congrArg _ (List.map_congr_left ih)
  | compl c ih => simp only [substitute, ih]
  | oneOf members => rfl
  | restrict q r c ih => simp only [substitute, ih]

/-- Complements are left around what is put. -/
theorem substitute_iterate_compl (c : Concept) (k : Nat) :
    (compl^[k] c).substitute g = compl^[k] (c.substitute g) := by
  induction k with
  | zero => rfl
  | succ k ih =>
    rw [Function.iterate_succ_apply', Function.iterate_succ_apply',
      substitute, ih]

/-- A class after a substitution was put for a class. -/
theorem exists_className_of_substitute {c : Concept} {n : Iri}
    (h : .className n ∈ (c.substitute f).mentions) :
    ∃ k, Mention.className n ∈ (f k).mentions := by
  induction c with
  | atom k => exact ⟨k, h⟩
  | inter cs ih | union cs ih =>
    rw [substitute, substituteAll_eq, mentions, mentionsAll_eq,
      List.flatMap_map] at h
    obtain ⟨c, hc, h⟩ := List.mem_flatMap.1 h
    exact ih c hc h
  | compl c ih => exact ih h
  | oneOf members => simp [substitute, mentions] at h
  | restrict q r c ih =>
    rcases List.mem_cons.1 h with property | h
    · cases property
    · exact ih h

end Concept

namespace Axiom

/-- The concepts that an axiom is made of. A declared class is none. -/
def concepts : Axiom → List Concept
  | .subClassOf sub sup => [sub, sup]
  | .equivalentClasses concepts | .disjointClasses concepts => concepts
  | .domain _ concept | .range _ concept | .classAssertion concept _
  | .hasKey concept _ => [concept]
  | _ => []

/-- An axiom with other concepts in their places. -/
def mapConcepts (f : Concept → Concept) : Axiom → Axiom
  | .subClassOf sub sup => .subClassOf (f sub) (f sup)
  | .equivalentClasses concepts => .equivalentClasses (concepts.map f)
  | .disjointClasses concepts => .disjointClasses (concepts.map f)
  | .domain role concept => .domain role (f concept)
  | .range role concept => .range role (f concept)
  | .classAssertion concept member => .classAssertion (f concept) member
  | .hasKey concept roles => .hasKey (f concept) roles
  | a => a

variable {f g : Concept → Concept}

/-- The concepts are changed one by one. -/
theorem concepts_mapConcepts (a : Axiom) :
    (a.mapConcepts f).concepts = a.concepts.map f := by
  cases a <;> rfl

theorem mapConcepts_id (a : Axiom) : a.mapConcepts id = a := by
  cases a <;> simp [mapConcepts]

theorem mapConcepts_mapConcepts (a : Axiom) :
    (a.mapConcepts f).mapConcepts g = a.mapConcepts (g ∘ f) := by
  cases a <;> simp [mapConcepts]

/-- To change the concepts of an axiom many times is to change each of them
many times. -/
theorem iterate_mapConcepts (a : Axiom) (k : Nat) :
    (mapConcepts f)^[k] a = a.mapConcepts f^[k] := by
  induction k with
  | zero => exact a.mapConcepts_id.symm
  | succ k ih =>
    rw [Function.iterate_succ_apply', ih, mapConcepts_mapConcepts,
      Function.iterate_succ']

end Axiom

-- ====================================================================== passes

variable {addressed : List Iri}

/-- What stands in the place of a class after some passes: as many complements
around a name with as many more marks, if the class is a marked member. -/
def raised (addressed : List Iri) (k : Nat) (name : Iri) : Concept :=
  if IsMarkedMember addressed name then
    Concept.compl^[k] (.atom (Iri.dual^[k] name))
  else .atom name

/-- A pass is a substitution. -/
theorem Concept.dualize_eq_substitute (c : Concept) :
    c.dualize addressed =
      c.substitute fun n => (atom n).dualize addressed := by
  induction c with
  | atom n => rfl
  | inter cs ih | union cs ih =>
    rw [dualize, dualizeAll_eq, substitute, substituteAll_eq]
    exact congrArg _ (List.map_congr_left ih)
  | compl c ih => rw [dualize, substitute, ih]
  | oneOf members => rfl
  | restrict q r c ih => rw [dualize, substitute, ih]

theorem Axiom.dualize_eq_mapConcepts :
    Axiom.dualize addressed = mapConcepts (Concept.dualize addressed) := by
  funext a
  cases a <;> rfl

/-- One more pass makes of a raised class the class raised once more. -/
theorem raised_succ (plain : IsUnmarked addressed) (k : Nat) (name : Iri) :
    (raised addressed k name).dualize addressed =
      raised addressed (k + 1) name := by
  have addresses := @isAddressed_iff_isMarkedMember addressed
  unfold raised
  by_cases member : IsMarkedMember addressed name
  · -- through the complements of the earlier passes, down to the name
    rw [if_pos member, if_pos member, Concept.dualize_eq_substitute,
      Concept.substitute_iterate_compl, Concept.substitute, Concept.dualize,
      if_pos ((addresses plain).2 (member.iterate_dual k)),
      Function.iterate_succ_apply, Function.iterate_succ_apply']
  · rw [if_neg member, if_neg member, Concept.dualize,
      if_neg (mt (addresses plain).1 member)]

/-- After some passes the classes of a concept are raised as often. -/
theorem Concept.iterate_dualize (plain : IsUnmarked addressed) (k : Nat)
    (c : Concept) :
    (dualize addressed)^[k] c = c.substitute (raised addressed k) := by
  induction k with
  | zero =>
    have none : raised addressed 0 = atom := by
      funext n
      exact ite_self _
    rw [none, substitute_atom]
    rfl
  | succ k ih =>
    rw [Function.iterate_succ_apply', ih, dualize_eq_substitute,
      substitute_substitute]
    simp only [← dualize_eq_substitute, raised_succ plain]

/-- A class that was raised is no member of the set. -/
theorem className_notMem_raised (plain : IsUnmarked addressed) {k : Nat}
    (some : 1 ≤ k) {base : Iri} (member : base ∈ addressed) (name : Iri) :
    .className base ∉ (raised addressed k name).mentions := by
  have complements (c : Concept) (j : Nat) :
      (Concept.compl^[j] c).mentions = c.mentions := by
    induction j with
    | zero => rfl
    | succ j ih => rw [Function.iterate_succ_apply', Concept.mentions, ih]
  intro h
  unfold raised at h
  split at h
  case isTrue =>
    rw [complements, Concept.mentions, List.mem_singleton,
      Mention.className.injEq] at h
    obtain ⟨k, rfl⟩ := Nat.exists_eq_succ_of_ne_zero (Nat.ne_of_gt some)
    have unmarked := (plain base member).2
    rw [h, Function.iterate_succ_apply', Iri.isDual_dual] at unmarked
    cases unmarked
  case isFalse other =>
    rw [Concept.mentions, List.mem_singleton, Mention.className.injEq] at h
    exact other (isMarkedMember_of_mem (h ▸ member))

/-- Some passes with an unmarked set put, for every class that is a member with
any number of marks, as many complements around the name with as many more
marks, and change nothing else, neither in a concept nor in the concepts of an
axiom. After the first pass no member of the set is left in a concept. -/
theorem dualize_iterate (plain : IsUnmarked addressed) (k : Nat) :
    (∀ c : Concept, (Concept.dualize addressed)^[k] c =
      c.substitute (raised addressed k)) ∧
    (∀ a : Axiom, (Axiom.dualize addressed)^[k] a =
      a.mapConcepts (Concept.substitute (raised addressed k))) ∧
    (1 ≤ k → ∀ a : Axiom, ∀ c ∈ ((Axiom.dualize addressed)^[k] a).concepts,
      ∀ base ∈ addressed, .className base ∉ c.mentions) := by
  have concept := Concept.iterate_dualize plain k
  have whole (a : Axiom) : (Axiom.dualize addressed)^[k] a =
      a.mapConcepts (Concept.substitute (raised addressed k)) := by
    rw [Axiom.dualize_eq_mapConcepts, Axiom.iterate_mapConcepts, funext concept]
  refine ⟨concept, whole, fun some a c hc base member h => ?_⟩
  rw [whole, Axiom.concepts_mapConcepts] at hc
  obtain ⟨d, -, rfl⟩ := List.mem_map.1 hc
  obtain ⟨name, h⟩ := Concept.exists_className_of_substitute h
  exact className_notMem_raised plain some member name h

/-- Two passes over an inclusion, for a class without a namespace: the mark is
put in front of the scheme. A dual name of the class is raised as the class is,
and a dual name of another class is left. -/
theorem dualize_iterate_two :
    let set : List Iri := [⟨"e:N"⟩]
    let fillers (first second : Concept) : Concept :=
      .restrict (.atMost 1) (.inverse ⟨"e:N"⟩)
        (.union [first, second, .atom ⟨"DUAL.e:M"⟩])
    let a (first second : Concept) : Axiom :=
      .subClassOf (.oneOf [.named ⟨"e:N"⟩]) (fillers first second)
    let after := a (.compl (.compl (.atom ⟨"DUAL.DUAL.e:N"⟩)))
      (.compl (.compl (.atom ⟨"DUAL.DUAL.DUAL.e:N"⟩)))
    IsUnmarked set ∧ 1 ≤ 2 ∧
    (Axiom.dualize set)^[2]
      (a (.atom ⟨"e:N"⟩) (.atom ⟨"DUAL.e:N"⟩)) = after ∧
    ∀ c ∈ after.concepts, .className ⟨"e:N"⟩ ∉ c.mentions := by
  intro set fillers a after
  have plain : IsUnmarked set := by
    intro name member
    obtain rfl := List.mem_singleton.1 member
    exact ⟨toOption_eq_some.1 rfl, by decide +kernel⟩
  obtain ⟨-, passes, left⟩ := dualize_iterate plain 2
  have whole : (Axiom.dualize set)^[2]
      (a (.atom ⟨"e:N"⟩) (.atom ⟨"DUAL.e:N"⟩)) = after := by
    rw [passes]
    decide +kernel
  refine ⟨plain, by decide, whole, fun c hc => ?_⟩
  exact left (by decide) _ c (whole ▸ hc) _ List.mem_cons_self

end ContextDL
