/-
The written form of concepts.

`⊓` binds loosest, then `⊔`, then everything else. An operand is put in
parentheses when it binds more loosely than its place asks for: `⊓` takes
operands of level one, `⊔`, `¬` and restrictions those of level two. The
written form is the one that the surface reader accepts.
-/
import ContextDL.Concept.Basic

namespace ContextDL

-- ================================================================ small pieces

/-- Texts with a comma and a space between them. -/
def listed (texts : List (List Char)) : List Char :=
  [',', ' '].intercalate texts

/-- A text in parentheses. -/
def bracketed (text : List Char) : List Char :=
  '(' :: text ++ [')']

/-- A class as it is written: `⊤`, `⊥` or its local name. -/
def Iri.classChars (name : Iri) : List Char :=
  if name = Iri.thing then ['⊤']
  else if name = Iri.nothing then ['⊥']
  else name.localName

/-- A quantifier and the role that it restricts, up to the dot. -/
def Quantifier.chars (quantifier : Quantifier) (role : Role) : List Char :=
  let counted (mark : Char) (n : UInt32) :=
    mark :: Text.decimal n.toNat ++ ' ' :: role.chars ++ ['.']
  match quantifier with
  | .existential => '∃' :: role.chars ++ ['.']
  | .universal => '∀' :: role.chars ++ ['.']
  | .atLeast n => counted '≥' n
  | .atMost n => counted '≤' n
  | .exactly n => counted '=' n

-- ==================================================================== concepts

namespace Concept

/-- How tightly the outermost operator of a concept binds. -/
def level : Concept → Nat
  | .inter _ => 0
  | .union _ => 1
  | _ => 2

/-- The text of a concept as it stands in a place of a given level: in
parentheses, if the concept binds more loosely than that. -/
def placed (place : Nat) (c : Concept) (text : List Char) : List Char :=
  if c.level < place then bracketed text else text

mutual

/-- The written form of a concept. -/
def chars : Concept → List Char
  | .atom name => name.classChars
  | .inter operands => " ⊓ ".toList.intercalate (operandChars 1 operands)
  | .union operands => " ⊔ ".toList.intercalate (operandChars 2 operands)
  | .compl operand => '¬' :: placed 2 operand operand.chars
  | .oneOf members => '{' :: listed (members.map Individual.chars) ++ ['}']
  | .restrict quantifier role filler =>
    quantifier.chars role ++ placed 2 filler filler.chars

/-- The written forms of operands in places of a given level. -/
def operandChars (place : Nat) : List Concept → List (List Char)
  | [] => []
  | c :: cs => placed place c c.chars :: operandChars place cs

end

/-- Operands are written one by one. -/
theorem operandChars_eq (place : Nat) (cs : List Concept) :
    operandChars place cs = cs.map fun c => placed place c c.chars := by
  induction cs with
  | nil => rfl
  | cons c cs ih => rw [operandChars, ih]; rfl

/-- The text of a concept. -/
def text (c : Concept) : String :=
  String.ofList c.chars

-- ===================================================================== nesting

/-- How deeply a concept is nested as it stands in a place of a given level:
the parentheses that it may need there are a level of their own. -/
def placedDepth (place : Nat) (c : Concept) (depth : Nat) : Nat :=
  if c.level < place then depth + 1 else depth

mutual

/-- How deeply the written form of a concept is nested, with one level for
each complement, restriction and pair of parentheses. -/
def nesting : Concept → Nat
  | .atom _ => 0
  | .inter operands => operandNesting 1 operands
  | .union operands => operandNesting 2 operands
  | .compl operand => placedDepth 2 operand operand.nesting + 1
  | .oneOf _ => 0
  | .restrict _ _ filler => placedDepth 2 filler filler.nesting + 1

/-- How deeply the deepest of some operands is nested in a place of a given
level. -/
def operandNesting (place : Nat) : List Concept → Nat
  | [] => 0
  | c :: cs => max (placedDepth place c c.nesting) (operandNesting place cs)

end

/-- How deeply a concept is nested in a place of a given level. -/
def nestingAt (place : Nat) (c : Concept) : Nat :=
  placedDepth place c c.nesting

/-- The loosest place costs nothing. -/
theorem nestingAt_zero (c : Concept) : c.nestingAt 0 = c.nesting := by
  rw [nestingAt, placedDepth, if_neg (Nat.not_lt_zero _)]

/-- Operands are less deeply nested than a bound if each of them is. -/
theorem operandNesting_lt {place bound : Nat} (h : 0 < bound)
    {cs : List Concept} :
    operandNesting place cs < bound ↔ ∀ c ∈ cs, c.nestingAt place < bound := by
  induction cs with
  | nil => simp [operandNesting, h]
  | cons c cs ih =>
    rw [operandNesting, Nat.max_lt, ih, List.forall_mem_cons]
    rfl

/-- A place that asks for less costs no more. -/
theorem nestingAt_mono {p q : Nat} (h : p ≤ q) (c : Concept) :
    c.nestingAt p ≤ c.nestingAt q := by
  unfold nestingAt placedDepth
  split <;> split <;> omega

theorem nesting_le_nestingAt (place : Nat) (c : Concept) :
    c.nesting ≤ c.nestingAt place := by
  unfold nestingAt placedDepth
  split <;> omega

theorem nestingAt_le (place : Nat) (c : Concept) :
    c.nestingAt place ≤ c.nesting + 1 := by
  unfold nestingAt placedDepth
  split <;> omega

end Concept

end ContextDL
