/-
Individuals, roles and concepts of the description logic ALCOIQ with names, in
n-ary form.

An anonymous individual is a blank node. Its label is either written in a
document or made up, and the made-up ones are numbered by a supply that is
passed along: a number is taken once, so no two made-up individuals of one
supply are the same, and a made-up individual differs from every written one.

A role is a property, or a property read backwards. A concept is an atom, an
intersection or union of a list of concepts, a complement, a nominal, or a
restriction of a role by a quantifier. The top and bottom concepts are the
atoms of the two reserved classes, so there is one way to write each of them.

A function on concepts comes with a companion on lists of concepts, and both
recurse on structure; a lemma says that the companion maps the function over
the list. Equality is decided the same way. A proof on concepts need not
follow this: `Concept.induction` speaks of the operands of a node at once.
-/
import ContextDL.Iri.Basic
import ContextDL.Text.Decimal

namespace ContextDL

-- ================================================================= blank nodes

/-- The identity of an anonymous individual. -/
inductive BlankNode where
  | labelled (label : String)
  /-- A made-up label, known by its number. -/
  | fresh (number : Nat)
deriving DecidableEq

/-- The label of a blank node. -/
def BlankNode.label : BlankNode → String
  | .labelled label => label
  | .fresh number => "fresh" ++ String.ofList (Text.decimal number)

/-- The blank nodes that are still to be made up: all from `next` on. -/
structure Supply where
  next : Nat
deriving DecidableEq

namespace Supply

/-- The supply of which nothing is used. -/
def full : Supply :=
  ⟨0⟩

/-- Takes one blank node out of a supply. -/
def take (supply : Supply) : BlankNode × Supply :=
  (.fresh supply.next, ⟨supply.next + 1⟩)

end Supply

-- ================================================================= individuals

/-- A member of the domain, by name or anonymous. -/
inductive Individual where
  | named (iri : Iri)
  | anonymous (node : BlankNode)
deriving DecidableEq

namespace Individual

/-- Takes a new anonymous individual out of a supply. -/
def new (supply : Supply) : Individual × Supply :=
  (.anonymous supply.take.1, supply.take.2)

/-- The name of an individual, if it has one. -/
def iri? : Individual → Option Iri
  | .named iri => some iri
  | .anonymous _ => none

/-- The short form of an individual: its local name, or `_:` and its
label. -/
def chars : Individual → List Char
  | .named iri => iri.localName
  | .anonymous node => '_' :: ':' :: node.label.toList

/-- The full form of an individual: its IRI in angle brackets, or `_:` and its
label. -/
def term : Individual → String
  | .named iri => iri.quoted
  | .anonymous node => "_:" ++ node.label

end Individual

-- ======================================================================= roles

/-- A property, or a property read backwards. -/
inductive Role where
  | named (property : Iri)
  | inverse (property : Iri)
deriving DecidableEq

namespace Role

/-- The property that a role is made of. -/
def property : Role → Iri
  | .named p | .inverse p => p

/-- A role that is a property itself. -/
def isNamed : Role → Bool
  | .named _ => true
  | .inverse _ => false

/-- The role read backwards. -/
def inverted : Role → Role
  | .named p => .inverse p
  | .inverse p => .named p

/-- Both directions are made of one property. -/
@[simp]
theorem property_inverted (r : Role) : r.inverted.property = r.property := by
  cases r <;> rfl

/-- The written form of a role: the local name of its property, and `^-1`
after it for an inverse. -/
def chars : Role → List Char
  | .named p => p.localName
  | .inverse p => p.localName ++ ['^', '-', '1']

end Role

-- ==================================================================== concepts

/-- How a restriction counts the fillers that a role reaches. -/
inductive Quantifier where
  | existential
  | universal
  | atLeast (n : UInt32)
  | atMost (n : UInt32)
  | exactly (n : UInt32)
deriving DecidableEq

/-- A class expression. -/
inductive Concept where
  | atom (name : Iri)
  | inter (operands : List Concept)
  | union (operands : List Concept)
  | compl (operand : Concept)
  | oneOf (members : List Individual)
  /-- What reaches, by a role, as many fillers as the quantifier says. -/
  | restrict (quantifier : Quantifier) (role : Role) (filler : Concept)
deriving Inhabited

namespace Concept

/-- The concept of everything. -/
def top : Concept :=
  .atom Iri.thing

/-- The concept of nothing. -/
def bottom : Concept :=
  .atom Iri.nothing

/-- The class that a concept is the atom of. -/
def name? : Concept → Option Iri
  | .atom name => some name
  | _ => none

/-- A concept that is the atom of a class. -/
def isAtom (c : Concept) : Bool :=
  c.name?.isSome

-- =================================================================== induction

/-- Induction over concepts: what all operands of a node have passes to the
node. -/
@[elab_as_elim, induction_eliminator]
theorem induction {motive : Concept → Prop}
    (atom : ∀ name, motive (.atom name))
    (inter : ∀ operands, (∀ c ∈ operands, motive c) →
      motive (.inter operands))
    (union : ∀ operands, (∀ c ∈ operands, motive c) →
      motive (.union operands))
    (compl : ∀ operand, motive operand → motive (.compl operand))
    (oneOf : ∀ members, motive (.oneOf members))
    (restrict : ∀ quantifier role filler, motive filler →
      motive (.restrict quantifier role filler))
    (c : Concept) : motive c := by
  refine @Concept.rec motive (fun cs => ∀ c ∈ cs, motive c)
    atom inter union compl oneOf restrict ?nil ?cons c
  case nil => simp
  case cons =>
    intro c cs hc hcs d hd
    rcases List.mem_cons.1 hd with rfl | hd
    · exact hc
    · exact hcs d hd

-- ==================================================================== equality

mutual

/-- Compares two concepts. -/
def beq : Concept → Concept → Bool
  | .atom a, .atom b => a = b
  | .inter cs, .inter ds => beqAll cs ds
  | .union cs, .union ds => beqAll cs ds
  | .compl c, .compl d => c.beq d
  | .oneOf xs, .oneOf ys => xs = ys
  | .restrict p r c, .restrict q s d => p = q && r = s && c.beq d
  | _, _ => false

/-- Compares two lists of concepts, member by member. -/
def beqAll : List Concept → List Concept → Bool
  | [], [] => true
  | c :: cs, d :: ds => c.beq d && beqAll cs ds
  | _, _ => false

end

mutual

/-- The comparison accepts equal concepts only. -/
theorem eq_of_beq : ∀ {c d : Concept}, c.beq d = true → c = d
  | .atom _, d, h => by cases d <;> simp_all [beq]
  | .inter cs, d, h => by
    cases d <;> simp only [beq, Bool.false_eq_true] at h
    rw [eq_of_beqAll h]
  | .union cs, d, h => by
    cases d <;> simp only [beq, Bool.false_eq_true] at h
    rw [eq_of_beqAll h]
  | .compl c, d, h => by
    cases d <;> simp only [beq, Bool.false_eq_true] at h
    rw [eq_of_beq h]
  | .oneOf _, d, h => by cases d <;> simp_all [beq]
  | .restrict _ _ c, d, h => by
    cases d <;> simp only [beq, Bool.false_eq_true, Bool.and_eq_true,
      decide_eq_true_eq] at h
    rw [h.1.1, h.1.2, eq_of_beq h.2]

/-- The comparison accepts equal lists only. -/
theorem eq_of_beqAll :
    ∀ {cs ds : List Concept}, beqAll cs ds = true → cs = ds
  | [], ds, h => by cases ds <;> simp_all [beqAll]
  | c :: cs, ds, h => by
    cases ds <;> simp only [beqAll, Bool.false_eq_true, Bool.and_eq_true] at h
    rw [eq_of_beq h.1, eq_of_beqAll h.2]

end

mutual

/-- The comparison accepts a concept and itself. -/
theorem beq_refl : ∀ c : Concept, c.beq c = true
  | .atom _ => by simp [beq]
  | .inter cs => by rw [beq]; exact beqAll_refl cs
  | .union cs => by rw [beq]; exact beqAll_refl cs
  | .compl c => by rw [beq]; exact beq_refl c
  | .oneOf _ => by simp [beq]
  | .restrict _ _ c => by simp [beq, beq_refl c]

/-- The comparison accepts a list and itself. -/
theorem beqAll_refl : ∀ cs : List Concept, beqAll cs cs = true
  | [] => rfl
  | c :: cs => by simp [beqAll, beq_refl c, beqAll_refl cs]

end

instance : DecidableEq Concept := fun c d =>
  decidable_of_iff (c.beq d = true) ⟨eq_of_beq, fun h => h ▸ beq_refl c⟩

end Concept

end ContextDL
