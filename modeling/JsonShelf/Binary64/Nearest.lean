/-
**The nearest binary64 number.**

Rounding an exact rational to the nearest finite binary64 number, a tie going to the even
mantissa, and the operations built on it.  A value past the largest finite number has no nearest
one.

Main definitions:

* `Binary64.ofParts?` — the number with given parts, if they are in normal form;
* `Binary64.nearest?` — the number nearest to a quotient of natural numbers, in units of
  `2 ^ -1074`;
* `Binary64.ofDecimal?` — the number nearest to `digits * 10 ^ power`;
* `Binary64.ofInt?`, `Binary64.ofInt` — the number nearest to a whole number;
* `Binary64.addOne?` — the number nearest to the sum with one.
-/

import JsonShelf.Binary64.Basic
import JsonShelf.Decimal.Rounding

set_option autoImplicit false

namespace JsonShelf.Binary64

/-- The number with the given sign, mantissa and exponent, if they are in normal form. -/
def ofParts? (negative : Bool) (mantissa exponent : Nat) : Option Binary64 :=
  if h : mantissa < 2 ^ 53 ∧ exponent ≤ 2045 ∧ (exponent = 0 ∨ 2 ^ 52 ≤ mantissa) then
    some ⟨negative, mantissa, exponent, h.1, h.2.1, h.2.2⟩
  else
    none

/-- The number nearest to the magnitude `num / den`, in units of `2 ^ -1074`. -/
def nearest? (negative : Bool) (num den : Nat) : Option Binary64 :=
  let exponent := (num / den).log2 - 52
  let mantissa := Decimal.roundDiv num (den * 2 ^ exponent)
  if mantissa = 2 ^ 53 then ofParts? negative (2 ^ 52) (exponent + 1)
  else ofParts? negative mantissa exponent

/-- The number nearest to a value given in units of `2 ^ -1074`. -/
def ofUnits? (value : Int) : Option Binary64 :=
  nearest? (decide (value < 0)) value.natAbs 1

/-- The number nearest to `digits * 10 ^ power`.  Powers far outside the range of binary64 are
decided by the count of digits alone. -/
def ofDecimal? (negative : Bool) (digits : Nat) (power : Int) : Option Binary64 :=
  if digits = 0 then some (zero negative)
  else
    let width : Int := (Nat.toDigits 10 digits).length
    if 400 < width + power then none
    else if width + power < -400 then some (zero negative)
    else if 0 ≤ power then nearest? negative (digits * 10 ^ power.toNat * scale) 1
    else nearest? negative (digits * scale) (10 ^ (-power).toNat)

/-- The number nearest to a whole number, if that is in range. -/
def ofInt? (value : Int) : Option Binary64 :=
  nearest? (decide (value < 0)) (value.natAbs * scale) 1

/-- The number nearest to a whole number of at most 64 bits, which is always in range; zero for a
whole number out of range. -/
def ofInt (value : Int) : Binary64 :=
  (ofInt? value).getD (zero false)

/-- The number nearest to the sum with one. -/
def addOne? (x : Binary64) : Option Binary64 :=
  ofUnits? (x.signedUnits + scale)

end JsonShelf.Binary64
