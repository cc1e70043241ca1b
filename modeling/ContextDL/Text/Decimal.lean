/-
Numbers in decimal.

A number is written with as few digits as it has, and read from any run of
digits, leading zeros included. What is written is read back.
-/

namespace ContextDL.Text

/-- The decimal digits of a number. -/
def decimal (n : Nat) : List Char :=
  Nat.toDigits 10 n

/-- The number that decimal digits stand for. -/
def decimal? (cs : List Char) : Option Nat :=
  if cs.all Char.isDigit then some (Nat.ofDigitChars 10 cs 0) else none

/-- A written number is made of digits. -/
theorem all_isDigit_decimal (n : Nat) :
    (decimal n).all Char.isDigit = true := by
  rw [List.all_eq_true]
  intro c hc
  exact Nat.isDigit_of_mem_toDigits (by decide) (by decide) hc

/-- A written number has a digit. -/
theorem decimal_ne_nil (n : Nat) : decimal n ≠ [] :=
  Nat.toDigits_ne_nil

/-- A written number is read back. -/
theorem decimal?_decimal (n : Nat) : decimal? (decimal n) = some n := by
  rw [decimal?, if_pos (all_isDigit_decimal n), decimal,
    Nat.ofDigitChars_toDigits (by decide) (by decide)]

/-- Different numbers are written differently. -/
theorem decimal_injective {m n : Nat} (h : decimal m = decimal n) :
    m = n := by
  have := congrArg decimal? h
  rwa [decimal?_decimal, decimal?_decimal, Option.some.injEq] at this

/-- A digit is the written form of a number. -/
theorem exists_decimal_of_isDigit {c : Char} (digit : c.isDigit = true) :
    ∃ d, d < 10 ∧ decimal d = [c] := by
  have bounds : 48 ≤ c.toNat ∧ c.toNat ≤ 57 := Char.isDigit_iff_toNat.1 digit
  have written : ∀ d < 10, d.digitChar = Char.ofNat (48 + d) := by decide
  refine ⟨c.toNat - 48, by omega, ?_⟩
  rw [decimal, Nat.toDigits_of_lt_base (by omega), written _ (by omega),
    Nat.add_sub_of_le bounds.1, Char.ofNat_toNat]

/-- A positive number with some digits behind it is a written number. -/
theorem exists_decimal_append {k : Nat} (positive : 0 < k) {ds : List Char}
    (digits : ds.all Char.isDigit = true) :
    ∃ m, decimal m = decimal k ++ ds := by
  induction ds generalizing k with
  | nil => exact ⟨k, (List.append_nil _).symm⟩
  | cons c cs ih =>
    rw [List.all_cons, Bool.and_eq_true] at digits
    obtain ⟨d, small, written⟩ := exists_decimal_of_isDigit digits.1
    have step : decimal (10 * k + d) = decimal k ++ [c] := by
      rw [← written]
      exact (Nat.toDigits_append_toDigits (by decide) positive small).symm
    obtain ⟨m, hm⟩ := ih (k := 10 * k + d) (by omega) digits.2
    exact ⟨m, by rw [hm, step, List.append_assoc]; rfl⟩

end ContextDL.Text
