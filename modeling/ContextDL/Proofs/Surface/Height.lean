/-
The depth limit bounds the height of what is read.

Only factors and roles spend the budget, while intersections and unions make
nodes at no cost. Still no more than two such nodes can stand above each other
for one unit: a union has factors for operands, an intersection unions, and to
have an intersection for an operand again takes parentheses, which are a
factor. So a factor of a budget is lower than two times the budget
(`Grammar.IsFactor.height_lt`), by induction on the sentence, and a whole
concept is one union and one intersection higher.

What is computed from a concept by recursion then recurses no deeper than the
height, however long the text was. The passes are the ones that a concept goes
through after it is read: collecting names, printing, dualizing and copying
under new names.
-/
import ContextDL.Concept.Height
import ContextDL.Proofs.Dual.Passes
import ContextDL.Proofs.Renaming.Copies
import ContextDL.Proofs.Surface.DocumentRoundTrip

namespace ContextDL

-- ====================================================================== passes

namespace Pass

/-- Collects the names in a concept. -/
def signature : Pass Signature where
  atom := .ofClass
  inter := .unionAll id
  union := .unionAll id
  compl := id
  oneOf := .unionAll .ofIndividual
  restrict _ role filler := role.signature ∪ filler

theorem computes_signature : signature.Computes Concept.signature where
  atom _ := rfl
  inter cs := by
    rw [Concept.signature, Concept.signatureAll_eq]
    exact (@Signature.unionAll_map _ _ id Concept.signature cs).symm
  union cs := by
    rw [Concept.signature, Concept.signatureAll_eq]
    exact (@Signature.unionAll_map _ _ id Concept.signature cs).symm
  compl _ := rfl
  oneOf _ := rfl
  restrict _ _ _ := rfl

/-- A written operand in a place of a given level: in parentheses, if its own
level is lower. -/
def placed (place : Nat) (operand : Nat × List Char) : List Char :=
  if operand.1 < place then bracketed operand.2 else operand.2

/-- Writes a concept, and says how tightly its operator binds. -/
def printing : Pass (Nat × List Char) where
  atom name := (2, name.classChars)
  inter operands :=
    (0, " ⊓ ".toList.intercalate (operands.map (placed 1)))
  union operands :=
    (1, " ⊔ ".toList.intercalate (operands.map (placed 2)))
  compl operand := (2, '¬' :: placed 2 operand)
  oneOf members := (2, '{' :: listed (members.map Individual.chars) ++ ['}'])
  restrict quantifier role filler :=
    (2, quantifier.chars role ++ placed 2 filler)

theorem computes_printing :
    printing.Computes fun c => (c.level, c.chars) where
  atom _ := rfl
  inter cs := by
    rw [Concept.chars, Concept.operandChars_eq]
    simp only [printing, List.map_map]
    rfl
  union cs := by
    rw [Concept.chars, Concept.operandChars_eq]
    simp only [printing, List.map_map]
    rfl
  compl _ := rfl
  oneOf _ := rfl
  restrict _ _ _ := rfl

/-- Puts the complement of its dual for every addressed class. -/
def dualizing (addressed : List Iri) : Pass Concept where
  atom name := (Concept.atom name).dualize addressed
  inter := .inter
  union := .union
  compl := .compl
  oneOf := .oneOf
  restrict := .restrict

theorem computes_dualizing (addressed : List Iri) :
    (dualizing addressed).Computes (Concept.dualize addressed) where
  atom _ := rfl
  inter cs := by rw [Concept.dualize, Concept.dualizeAll_eq]; rfl
  union cs := by rw [Concept.dualize, Concept.dualizeAll_eq]; rfl
  compl _ := rfl
  oneOf _ := rfl
  restrict _ _ _ := rfl

/-- Copies a concept under new names, if they can be given. -/
def copying (plan : CopyPlan) : Pass (Except Renaming.Failure Concept) where
  atom name := plan.concept (.atom name)
  inter operands := do return .inter (← operands.mapM id)
  union operands := do return .union (← operands.mapM id)
  compl operand := do return .compl (← operand)
  oneOf members := plan.concept (.oneOf members)
  restrict quantifier role filler := do
    let role ← plan.role role
    return .restrict quantifier role (← filler)

theorem computes_copying (plan : CopyPlan) :
    (copying plan).Computes plan.concept where
  atom _ := rfl
  inter cs := by
    rw [CopyPlan.concept, CopyPlan.concepts_eq_mapM]
    simp only [copying, List.mapM_map]
    rfl
  union cs := by
    rw [CopyPlan.concept, CopyPlan.concepts_eq_mapM]
    simp only [copying, List.mapM_map]
    rfl
  compl _ := by rw [CopyPlan.concept]; rfl
  oneOf _ := rfl
  restrict _ _ _ := by rw [CopyPlan.concept]; rfl

end Pass

-- =================================================================== sentences

namespace Grammar

variable {reader : Reader} {bound : Nat}

/-- A chain is one higher than its highest operand at most. -/
theorem height_chain {node : List Concept → Concept}
    (one : ∀ cs, (node cs).height = Concept.heightOfAll cs + 1)
    {cs : List Concept} (lower : Concept.heightOfAll cs < bound) :
    (chain node cs).height ≤ bound := by
  match cs with
  | [c] =>
    have same : Concept.heightOfAll [c] = c.height := by
      simp [Concept.heightOfAll]
    exact Nat.le_of_lt (same ▸ lower)
  | [] | _ :: _ :: _ =>
    rw [chain, one]
    · exact lower
    · simp

theorem height_union {cs : List Concept}
    (lower : Concept.heightOfAll cs < bound) :
    (chain .union cs).height ≤ bound :=
  height_chain (fun cs => by rw [Concept.height]) lower

theorem height_inter {cs : List Concept}
    (lower : Concept.heightOfAll cs < bound) :
    (chain .inter cs).height ≤ bound :=
  height_chain (fun cs => by rw [Concept.height]) lower

mutual

/-- A factor is lower than two times its budget. -/
theorem IsFactor.height_lt {c : Concept} :
    ∀ {budget : Nat} {ls : List Lexeme}, IsFactor reader budget ls c →
      c.height < 2 * budget
  | _, _, .top | _, _, .bottom | _, _, .name _ | _, _, .oneOf _ => by
    simp only [Concept.top, Concept.bottom, Concept.height]
    omega
  | _, _, .compl operand | _, _, .restrict _ _ operand => by
    have lower := operand.height_lt
    rw [Concept.height]
    omega
  | _, _, .group inner => by
    have lower := height_inter (Nat.lt_succ_of_le inner.height_le)
    omega

/-- So are the factors of a union. -/
theorem IsFactors.height_lt {cs : List Concept} :
    ∀ {budget : Nat} {ls : List Lexeme}, IsFactors reader budget ls cs →
      Concept.heightOfAll cs < 2 * budget
  | _, _, .one factor => by
    have lower := factor.height_lt
    simpa only [Concept.heightOfAll, Nat.max_zero] using lower
  | _, _, .more factor others =>
    Nat.max_lt.2 ⟨factor.height_lt, others.height_lt⟩

/-- Unions are no higher than two times the budget. -/
theorem IsUnions.height_le {cs : List Concept} :
    ∀ {budget : Nat} {ls : List Lexeme}, IsUnions reader budget ls cs →
      Concept.heightOfAll cs ≤ 2 * budget
  | _, _, .one factors => by
    have lower := height_union factors.height_lt
    simpa only [Concept.heightOfAll, Nat.max_zero] using lower
  | _, _, .more factors others =>
    Nat.max_le.2 ⟨height_union factors.height_lt, others.height_le⟩

end

/-- A whole concept is one higher than two times its budget at most. -/
theorem IsConcept.height_le {budget : Nat} {ls : List Lexeme} {c : Concept}
    (h : IsConcept reader budget ls c) : c.height ≤ 2 * budget + 1 := by
  obtain ⟨cs, unions, rfl⟩ := h
  exact height_inter (Nat.lt_succ_of_le unions.height_le)

end Grammar

-- ================================================================== conclusion

namespace Reader

variable {reader : Reader}

/-- The height that no concept exceeds. -/
def heightLimit (reader : Reader) : Nat :=
  2 * reader.maxDepth + 3

/-- What the depth limit of a reader says of a concept: whatever stands inside
it is within the height limit, and so are the nested calls of the passes that
recurse on it. -/
structure Bounds (reader : Reader) (c : Concept) : Prop where
  inside : ∀ {levels : Nat} {d : Concept}, d.IsInside levels c →
    levels + d.height ≤ reader.heightLimit
  signature : Pass.signature.within reader.heightLimit c = some c.signature
  printing :
    Pass.printing.within reader.heightLimit c = some (c.level, c.chars)
  dualizing : ∀ addressed,
    (Pass.dualizing addressed).within reader.heightLimit c =
      some (c.dualize addressed)
  copying : ∀ plan,
    (Pass.copying plan).within reader.heightLimit c = some (plan.concept c)

theorem Bounds.of_height {c : Concept} (h : c.height ≤ reader.heightLimit) :
    reader.Bounds c where
  inside inner := Nat.le_trans inner.height h
  signature := by rw [Pass.computes_signature.within_eq, if_pos h]
  printing := by rw [Pass.computes_printing.within_eq, if_pos h]
  dualizing addressed := by
    rw [(Pass.computes_dualizing addressed).within_eq, if_pos h]
  copying plan := by rw [(Pass.computes_copying plan).within_eq, if_pos h]

theorem bounds_of_conceptOfTokens {ts : List Token} {c : Concept}
    (h : reader.conceptOfTokens ts = .ok c) : reader.Bounds c :=
  .of_height (conceptOfTokens_eq_ok.1 h).height_le

/-- The concepts of a statement are bounded. -/
theorem bounds_of_statementOfChars {cs : List Char} {s : Statement}
    (h : reader.statementOfChars cs = .ok s) :
    ∀ c ∈ s.body.concepts, reader.Bounds c := by
  have body {ts : List Token} {a : Axiom}
      (h : Grammar.IsBody reader ts a) : ∀ c ∈ a.concepts, reader.Bounds c := by
    cases h with
    | subClassOf _ left right =>
      simpa [Axiom.concepts] using
        ⟨bounds_of_conceptOfTokens left, bounds_of_conceptOfTokens right⟩
    | classAssertion _ concept _ =>
      simpa [Axiom.concepts] using bounds_of_conceptOfTokens concept
    | roleAssertion _ _ _ => simp [Axiom.concepts]
  obtain ⟨ts, -, h⟩ := isStatement_of_statementOfChars h
  cases h with
  | untagged axiomTokens => exact body axiomTokens
  | global axiomTokens _ => exact body axiomTokens
  | definedBy axiomTokens _ _ => exact body axiomTokens

/-- Every concept in what is read is bounded by the depth limit, however long
the text is: in a concept, in the axiom of a statement, and in the axioms of a
document. -/
theorem depth_limit_bounds (reader : Reader) (text : String) :
    (∀ c, reader.concept text = .ok c → reader.Bounds c) ∧
    (∀ s, reader.statement text = .ok s →
      ∀ c ∈ s.body.concepts, reader.Bounds c) ∧
    (∀ o, reader.ontology text = .ok o →
      ∀ a ∈ o.axioms, ∀ c ∈ a.concepts, reader.Bounds c) := by
  refine ⟨fun c h => ?_, fun s h => bounds_of_statementOfChars h,
    fun o h a ha => ?_⟩
  · obtain ⟨ts, -, read⟩ := bind_eq_ok.1 h
    exact bounds_of_conceptOfTokens read
  · obtain ⟨s, hs, rfl⟩ := List.mem_map.1 ha
    obtain ⟨cs, read⟩ := exists_chars_of_mem h hs
    exact bounds_of_statementOfChars read

/-- Without any nesting a concept is three nodes high at most. The limit is met
by an intersection over a union: alone, on the left of an inclusion with a tag,
and in a document. -/
theorem depth_limit_bounds_flat :
    let flat : Reader := ⟨"e:#", 0⟩
    let c : Concept :=
      .inter [.union [.atom ⟨"e:#A"⟩, .atom ⟨"e:#B"⟩], .atom ⟨"e:#C"⟩]
    let a : Axiom := .subClassOf c (.atom ⟨"e:#D"⟩)
    c.height = flat.heightLimit ∧ c ∈ a.concepts ∧
    flat.concept "A ⊔ B ⊓ C" = .ok c ∧ flat.Bounds c ∧
    flat.statement "A ⊔ B ⊓ C ⊑ D @ global" = .ok ⟨a, [.objectGlobal]⟩ ∧
    (∀ d ∈ a.concepts, flat.Bounds d) ∧
    flat.ontology "# one line\nA ⊔ B ⊓ C ⊑ D" = .ok (.ofAxioms [a]) ∧
    ∀ b ∈ (Ontology.ofAxioms [a]).axioms, ∀ d ∈ b.concepts, flat.Bounds d := by
  intro flat c a
  have alone : flat.concept "A ⊔ B ⊓ C" = .ok c := by decide +kernel
  have tagged : flat.statement "A ⊔ B ⊓ C ⊑ D @ global" =
      .ok ⟨a, [.objectGlobal]⟩ := by
    decide +kernel
  have listed : flat.ontology "# one line\nA ⊔ B ⊓ C ⊑ D" =
      .ok (.ofAxioms [a]) := by
    decide +kernel
  exact ⟨by decide, List.mem_cons_self, alone,
    (depth_limit_bounds flat _).1 c alone, tagged,
    (depth_limit_bounds flat _).2.1 _ tagged, listed,
    (depth_limit_bounds flat _).2.2 _ listed⟩

end Reader

end ContextDL
