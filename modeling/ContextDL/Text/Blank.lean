/-
Blank characters, trimming and lines.

A character is blank when it has the Unicode property `White_Space`. Text is
a list of characters here. Trimming takes the blanks off both ends. A line
ends at a line feed and nowhere else.

Lines and operands are joined with a separator between them. What holds of all
characters of the texts and of the separator holds of all characters of the
joined text (`forall_mem_intercalate`), and each of the texts is a part of it.
-/

namespace ContextDL.Text

-- ============================================================ blank characters

/-- The characters with the Unicode property `White_Space`. A zero-width
space and a byte order mark are not among them. -/
def isBlank (c : Char) : Bool :=
  let n := c.val
  (0x9 ≤ n && n ≤ 0xD) || n == 0x20 || n == 0x85 || n == 0xA0 ||
    n == 0x1680 || (0x2000 ≤ n && n ≤ 0x200A) || n == 0x2028 ||
    n == 0x2029 || n == 0x202F || n == 0x205F || n == 0x3000

-- ==================================================================== trimming

/-- The text from its first character that is not blank. -/
def trimStart (cs : List Char) : List Char :=
  cs.dropWhile isBlank

/-- The text up to its last character that is not blank. -/
def trimEnd (cs : List Char) : List Char :=
  (cs.reverse.dropWhile isBlank).reverse

/-- The text without the blanks at its two ends. -/
def trim (cs : List Char) : List Char :=
  trimEnd (trimStart cs)

/-- What is left of a text is a part of it. -/
theorem isInfix_trim (cs : List Char) : trim cs <:+: cs := by
  have front : trimStart cs <:+: cs := (List.dropWhile_suffix isBlank).isInfix
  have back := List.reverse_prefix.2
    (List.dropWhile_suffix (l := (trimStart cs).reverse) isBlank)
  rw [List.reverse_reverse] at back
  exact back.isInfix.trans front

-- ======================================================================= lines

/-- The lines of a text: the parts between its line feeds. A text that ends
in a line feed has an empty last line. -/
def lines (cs : List Char) : List (List Char) :=
  cs.splitOn '\n'

-- ================================================================ joined texts

/-- Texts of characters of one kind, with such a text between them, are a text
of these characters. -/
theorem forall_mem_intercalate {p : Char → Prop} {separator : List Char}
    {texts : List (List Char)} (between : ∀ c ∈ separator, p c)
    (each : ∀ text ∈ texts, ∀ c ∈ text, p c) :
    ∀ c ∈ separator.intercalate texts, p c := by
  induction texts with
  | nil => simp
  | cons text texts ih =>
    obtain ⟨first, others⟩ := List.forall_mem_cons.1 each
    cases texts with
    | nil => simpa using first
    | cons next texts =>
      rw [List.intercalate_cons_cons]
      simp only [List.forall_mem_append]
      exact ⟨⟨first, between⟩, ih others⟩

/-- Each of some texts is a part of them joined. -/
theorem isInfix_of_mem_intercalate {separator part : List Char}
    {texts : List (List Char)} (h : part ∈ texts) :
    part <:+: separator.intercalate texts := by
  induction texts with
  | nil => cases h
  | cons text texts ih =>
    cases texts with
    | nil =>
      obtain rfl := List.mem_singleton.1 h
      simp
    | cons next texts =>
      rw [List.intercalate_cons_cons]
      rcases List.mem_cons.1 h with rfl | h
      · exact ⟨[], separator ++ separator.intercalate (next :: texts), by simp⟩
      · exact (ih h).trans (List.suffix_append _ _).isInfix

/-- The parts between marks are parts of the text. -/
theorem isInfix_of_mem_splitOn {mark : Char} {cs part : List Char}
    (h : part ∈ cs.splitOn mark) : part <:+: cs := by
  have inside : part <:+: [mark].intercalate (cs.splitOn mark) :=
    isInfix_of_mem_intercalate h
  rwa [List.intercalate_splitOn] at inside

end ContextDL.Text
