/-
**Rounding a quotient of natural numbers.**

Main definitions:

* `Decimal.roundDiv` — the nearest whole number to a quotient, a tie going to the even neighbour;
* `Decimal.ofDigits` — the number that a list of decimal digits writes.

Main results:

* `Decimal.roundDiv_le`, `Decimal.le_roundDiv` — the rounded quotient is the floor or one more;
* `Decimal.roundDiv_mul` — an exact quotient is not moved.
-/

set_option autoImplicit false

namespace JsonShelf.Decimal

/-- `num / den` rounded to the nearest whole number; a tie goes to the even neighbour. -/
def roundDiv (num den : Nat) : Nat :=
  let quotient := num / den
  let twice := 2 * (num % den)
  if twice < den then quotient
  else if den < twice then quotient + 1
  else quotient + quotient % 2

theorem le_roundDiv (num den : Nat) : num / den ≤ roundDiv num den := by
  simp only [roundDiv]
  split
  · omega
  · split <;> omega

theorem roundDiv_le (num den : Nat) : roundDiv num den ≤ num / den + 1 := by
  simp only [roundDiv]
  split
  · omega
  · split <;> omega

theorem roundDiv_mul (n : Nat) {den : Nat} (h : 0 < den) : roundDiv (n * den) den = n := by
  simp [roundDiv, Nat.mul_div_cancel n h, h]

/-- The value of one decimal digit. -/
def digitValue (c : Char) : Nat :=
  c.toNat - '0'.toNat

/-- The number that the digits write, most significant first. -/
def ofDigits (digits : List Char) : Nat :=
  digits.foldl (fun n c => 10 * n + digitValue c) 0

end JsonShelf.Decimal
