/-
Slices of texts and of sequences.

A text is kept as bytes, in UTF-8, and a slice of it is asked for by two byte
positions. There is such a slice if both positions are in the text, in this
order, and neither is inside a character (`Text.isSome_slice?`). A slice of a
sequence is asked for by two indices.

Both ways a slice is what stands between two parts, and the positions are the
sizes of what is in front (`Text.slice?_eq_some`, `part?_eq_some`).
-/

namespace ContextDL

namespace Text

-- ======================================================================= bytes

/-- The number of bytes of some characters. -/
def size : List Char → Nat
  | [] => 0
  | c :: cs => c.utf8Size + size cs

@[simp]
theorem size_nil : size [] = 0 :=
  rfl

@[simp]
theorem size_cons (c : Char) (cs : List Char) :
    size (c :: cs) = c.utf8Size + size cs :=
  rfl

@[simp]
theorem size_append (cs ds : List Char) :
    size (cs ++ ds) = size cs + size ds := by
  induction cs with
  | nil => simp
  | cons c cs ih =>
    rw [List.cons_append, size_cons, size_cons, ih, Nat.add_assoc]

/-- Every character has bytes. -/
theorem size_eq_zero {cs : List Char} : size cs = 0 ↔ cs = [] := by
  cases cs with
  | nil => simp
  | cons c cs =>
    have := c.utf8Size_pos
    simp
    omega

theorem utf8ByteSize_ofList (cs : List Char) :
    (String.ofList cs).utf8ByteSize = size cs := by
  induction cs with
  | nil => rfl
  | cons c cs ih =>
    have split : String.ofList (c :: cs) =
        String.singleton c ++ String.ofList cs := by
      rw [String.singleton_eq_ofList, ← String.ofList_append]
      rfl
    rw [split, String.utf8ByteSize_append, String.utf8ByteSize_singleton, ih,
      size_cons]

/-- A byte position of a text that is not inside a character. -/
def IsBoundary (text : List Char) (pos : Nat) : Prop :=
  String.Pos.Raw.IsValid (String.ofList text) ⟨pos⟩

/-- The boundaries are the ends of the fronts of a text. -/
theorem isBoundary_iff {text : List Char} {pos : Nat} :
    IsBoundary text pos ↔
      ∃ front back, text = front ++ back ∧ pos = size front := by
  rw [IsBoundary, String.Pos.Raw.isValid_iff_exists_append]
  constructor
  · rintro ⟨front, back, h, hpos⟩
    refine ⟨front.toList, back.toList, ?_, ?_⟩
    · rw [← String.toList_append, ← h, String.toList_ofList]
    · rw [← utf8ByteSize_ofList, String.ofList_toList]
      exact congrArg String.Pos.Raw.byteIdx hpos
  · rintro ⟨front, back, rfl, rfl⟩
    refine ⟨.ofList front, .ofList back, String.ofList_append, ?_⟩
    rw [String.Pos.Raw.ext_iff, String.byteIdx_rawEndPos, utf8ByteSize_ofList]

-- ====================================================================== slices

/-- Cuts a text in two at a byte position. -/
def cut? : List Char → Nat → Option (List Char × List Char)
  | [], pos => if pos = 0 then some ([], []) else none
  | c :: cs, pos =>
    if pos = 0 then some ([], c :: cs)
    else if c.utf8Size ≤ pos then
      (cut? cs (pos - c.utf8Size)).map fun parts => (c :: parts.1, parts.2)
    else none

/-- The part of a text between two byte positions. -/
def slice? (text : List Char) (start stop : Nat) : Option (List Char) :=
  if start ≤ stop then
    (cut? text start).bind fun parts =>
      (cut? parts.2 (stop - start)).map Prod.fst
  else none

theorem cut?_eq_some {text front back : List Char} {pos : Nat} :
    cut? text pos = some (front, back) ↔
      text = front ++ back ∧ pos = size front := by
  induction text generalizing pos front with
  | nil =>
    rw [cut?]
    constructor
    · split
      · next start =>
        rintro ⟨⟩
        exact ⟨rfl, start⟩
      · exact fun h => by cases h
    · rintro ⟨h, rfl⟩
      obtain ⟨rfl, rfl⟩ := List.append_eq_nil_iff.1 h.symm
      rfl
  | cons c text ih =>
    rw [cut?]
    by_cases start : pos = 0
    · subst start
      rw [if_pos rfl]
      constructor
      · rintro ⟨⟩
        exact ⟨rfl, rfl⟩
      · rintro ⟨h, none⟩
        cases size_eq_zero.1 none.symm
        rw [h]
        rfl
    · rw [if_neg start]
      constructor
      · split
        · next within =>
          intro h
          obtain ⟨⟨first, rest⟩, found, hend⟩ := Option.map_eq_some_iff.1 h
          cases hend
          obtain ⟨rfl, left⟩ := ih.1 found
          refine ⟨rfl, ?_⟩
          rw [size_cons, ← left, Nat.add_sub_cancel' within]
        · exact fun h => by cases h
      · rintro ⟨h, rfl⟩
        cases front with
        | nil => exact absurd rfl start
        | cons d front =>
          cases h
          rw [size_cons, if_pos (Nat.le_add_right _ _),
            Nat.add_sub_cancel_left]
          exact Option.map_eq_some_iff.2 ⟨(front, back), ih.2 ⟨rfl, rfl⟩, rfl⟩

/-- A slice has something in front of it and something behind it. -/
theorem slice?_eq_some {text part : List Char} {start stop : Nat} :
    slice? text start stop = some part ↔
      ∃ front back, text = front ++ part ++ back ∧ start = size front ∧
        stop = size (front ++ part) := by
  rw [slice?]
  constructor
  · split
    · next order =>
      intro h
      obtain ⟨⟨front, after⟩, found, h⟩ := Option.bind_eq_some_iff.1 h
      obtain ⟨⟨_, back⟩, found', rfl⟩ := Option.map_eq_some_iff.1 h
      obtain ⟨rfl, rfl⟩ := cut?_eq_some.1 found
      obtain ⟨rfl, left⟩ := cut?_eq_some.1 found'
      refine ⟨front, back, (List.append_assoc ..).symm, rfl, ?_⟩
      rw [size_append, ← left, Nat.add_sub_cancel' order]
    · exact fun h => by cases h
  · rintro ⟨front, back, rfl, rfl, rfl⟩
    rw [size_append, if_pos (Nat.le_add_right _ _), Nat.add_sub_cancel_left]
    refine Option.bind_eq_some_iff.2 ⟨(front, part ++ back), ?_, ?_⟩
    · exact cut?_eq_some.2 ⟨List.append_assoc .., rfl⟩
    · exact Option.map_eq_some_iff.2
        ⟨(part, back), cut?_eq_some.2 ⟨rfl, rfl⟩, rfl⟩

/-- A slice is there if its positions are boundaries in order. -/
theorem isSome_slice? {text : List Char} {start stop : Nat} :
    (slice? text start stop).isSome ↔
      start ≤ stop ∧ IsBoundary text start ∧ IsBoundary text stop := by
  simp only [Option.isSome_iff_exists, slice?_eq_some, isBoundary_iff]
  constructor
  · rintro ⟨part, front, back, rfl, rfl, rfl⟩
    refine ⟨by rw [size_append]; exact Nat.le_add_right _ _, ?_, ?_⟩
    · exact ⟨front, part ++ back, List.append_assoc .., rfl⟩
    · exact ⟨front ++ part, back, rfl, rfl⟩
  · rintro ⟨order, ⟨front, after, rfl, rfl⟩, ⟨before, back, h, rfl⟩⟩
    rcases List.append_eq_append_iff.1 h with
      ⟨part, rfl, rfl⟩ | ⟨part, rfl, rfl⟩
    · exact ⟨part, front, back, (List.append_assoc ..).symm, rfl, rfl⟩
    · -- the second front is a front of the first, and not smaller
      rw [size_append] at order
      have none : part = [] := size_eq_zero.1 (by omega)
      exact ⟨[], before, after, by simp [none], by simp [none], by simp⟩

/-- The mark is three bytes long. -/
example : slice? ['⊤', 'A'] 3 4 = some ['A'] ∧
    slice? ['⊤', 'A'] 1 4 = none := by
  decide

end Text

-- =================================================================== sequences

/-- The part of a sequence between two indices. -/
def part? {α : Type} (xs : List α) (start stop : Nat) : Option (List α) :=
  if start ≤ stop ∧ stop ≤ xs.length then some ((xs.take stop).drop start)
  else none

theorem part?_eq_some {α : Type} {xs part : List α} {start stop : Nat} :
    part? xs start stop = some part ↔
      ∃ front back, xs = front ++ part ++ back ∧ start = front.length ∧
        stop = (front ++ part).length := by
  rw [part?]
  constructor
  · split
    · next within =>
      obtain ⟨order, within⟩ := within
      rintro ⟨⟩
      have short : (xs.take stop).take start = xs.take start := by
        rw [List.take_take, Nat.min_eq_left order]
      have whole : xs.take start ++ (xs.take stop).drop start =
          xs.take stop := by
        rw [← short, List.take_append_drop]
      refine ⟨xs.take start, xs.drop stop, ?_, ?_, ?_⟩
      · rw [whole, List.take_append_drop]
      · rw [List.length_take, Nat.min_eq_left (Nat.le_trans order within)]
      · rw [whole, List.length_take, Nat.min_eq_left within]
    · exact fun h => by cases h
  · rintro ⟨front, back, rfl, rfl, rfl⟩
    rw [if_pos (by simp), List.take_left', List.drop_left']
    · rfl
    · rfl

end ContextDL
