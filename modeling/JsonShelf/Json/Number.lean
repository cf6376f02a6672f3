/-
**JSON numbers.**

A number is kept as the whole number it was written as, when 64 bits hold it, and otherwise as the
nearest binary64 number.  How it was written decides: `3` is a whole number and `3.0` is not.

Main definitions:

* `Number` — whole numbers of 64 bits and finite binary64 numbers;
* `Number.toInt64?` — the signed 64-bit number that a whole number is;
* `Number.toBinary64` — the nearest binary64 number;
* `Number.ofLiteral?` — what the parts of a written number stand for;
* `Number.format`, `Number.text` — how numbers are written.
-/

import JsonShelf.Binary64.Nearest
import JsonShelf.Decimal.Shortest

set_option autoImplicit false

namespace JsonShelf

/-- A JSON number. -/
inductive Number where
  /-- A whole number that 64 bits hold, signed or unsigned. -/
  | whole (value : Int) (lower : -2 ^ 63 ≤ value) (upper : value < 2 ^ 64)
  /-- Any other number, rounded to binary64. -/
  | float (value : Binary64)
  deriving DecidableEq

namespace Number

instance : Inhabited Number := ⟨.whole 0 (by decide) (by decide)⟩

/-- The whole number, if 64 bits hold it. -/
def ofInt? (value : Int) : Option Number :=
  if h : -2 ^ 63 ≤ value ∧ value < 2 ^ 64 then some (.whole value h.1 h.2) else none

/-- A signed 64-bit number. -/
def ofInt64 (value : Int64) : Number :=
  .whole value.toInt (Int64.le_toInt value) (Int.lt_trans (Int64.toInt_lt value) (by decide))

/-- Was the number written as a whole number that 64 bits hold? -/
def isWhole : Number → Bool
  | whole .. => true
  | float _ => false

/-- The value of a whole number that a signed 64-bit word holds. -/
def toInt64? : Number → Option Int
  | whole value _ _ => if value < 2 ^ 63 then some value else none
  | float _ => none

/-- The nearest binary64 number. -/
def toBinary64 : Number → Binary64
  | whole value _ _ => Binary64.ofInt value
  | float value => value

/-- The parts of a written number. -/
structure Literal where
  negative : Bool
  /-- The digits before the point. -/
  whole : List Char
  /-- The digits after the point, if there is one. -/
  fraction : Option (List Char)
  /-- The power of ten, if one is written. -/
  power : Option Int

/-- What a written number stands for: a whole number when it is written as one and fits, and
otherwise the nearest binary64 number, which must be finite.  The negative zero is not a whole
number.

The rounding is exact for every text.  A reader that takes the first digits as a whole number and
scales it by a power of ten in floating point is exact only while both are exact there, up to
`2 ^ 53` and `10 ^ 22`; past that it may be a unit in the last place away from the number given
here, also for the text of a number that it has printed. -/
def ofLiteral? (literal : Literal) : Option Number :=
  let fraction := literal.fraction.getD []
  let digits := Decimal.ofDigits (literal.whole ++ fraction)
  let power := literal.power.getD 0 - fraction.length
  let float := (Binary64.ofDecimal? literal.negative digits power).map Number.float
  if literal.fraction.isNone && literal.power.isNone then
    if literal.negative then
      if digits = 0 then float else (ofInt? (-digits)).or float
    else
      (ofInt? digits).or float
  else
    float

/-- Floating-point numbers from `1e-5` and below `1e16` are positional and keep a decimal; all
others have an exponent with an explicit sign. -/
def format : Decimal.FloatFormat where
  leastPositional := -5
  greatestPositional := 15
  wholeEnding := ".0"
  exponentPlus := "+"

/-- The text of a number. -/
def text : Number → String
  | whole value _ _ => toString value
  | float value => format.write value

end Number

end JsonShelf
