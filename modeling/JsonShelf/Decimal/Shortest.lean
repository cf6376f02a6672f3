/-
**The shortest decimal text of a binary64 number.**

Among the decimals that read back as a given number, the shortest is written: on the coarsest
decimal grid that has a point inside the interval of reals rounding to the number, the grid point
nearest to it.  All arithmetic is exact, in quarters of the unit `2 ^ -1074`, where the ends of the
interval are whole.

Main definitions:

* `Decimal.Interval`, `Decimal.intervalOf` — the reals that round to a number;
* `Decimal.gridPoint?` — the point of the grid `10 ^ power` nearest to the number, if the interval
  holds one of its two neighbours there;
* `Decimal.shortest` — digits and power of the shortest decimal;
* `Decimal.FloatFormat`, `Decimal.FloatFormat.write` — where digits, point and exponent go.
-/

import JsonShelf.Binary64.Basic

set_option autoImplicit false

namespace JsonShelf.Decimal

/-- The reals that round to a number, in quarters of `2 ^ -1074`. -/
structure Interval where
  low : Nat
  centre : Nat
  high : Nat
  /-- Do the ends round to the number as well? -/
  closed : Bool

/-- The interval of a magnitude: half a step to each side, a quarter below a power of two whose
lower neighbour is half as far.  The ends belong to it when the mantissa is even. -/
def intervalOf (x : Binary64) : Interval :=
  let below := if x.mantissa = 2 ^ 52 ∧ 0 < x.exponent then 1 else 2
  { low := (4 * x.mantissa - below) * 2 ^ x.exponent
    centre := 4 * x.mantissa * 2 ^ x.exponent
    high := (4 * x.mantissa + 2) * 2 ^ x.exponent
    closed := x.mantissa % 2 = 0 }

/-- Is `n * step` inside the interval whose ends are scaled by `factor`? -/
def Interval.contains (i : Interval) (factor step n : Nat) : Bool :=
  if i.closed then i.low * factor ≤ n * step && n * step ≤ i.high * factor
  else i.low * factor < n * step && n * step < i.high * factor

/-- On the grid of multiples of `10 ^ power`, the neighbour of the centre that lies in the
interval; of two, the nearer, and of two equally near the even one. -/
def gridPoint? (i : Interval) (power : Int) : Option Nat :=
  let factor := 10 ^ (-power).toNat
  let step := 4 * Binary64.scale * 10 ^ power.toNat
  let centre := i.centre * factor
  let n := centre / step
  match i.contains factor step n, i.contains factor step (n + 1) with
  | false, false => none
  | true, false => some n
  | false, true => some (n + 1)
  | true, true =>
    -- both neighbours read back: the nearer one, or the even one of a tie
    let twice := 2 * (centre % step)
    if twice < step then some n
    else if step < twice then some (n + 1)
    else some (n + n % 2)

/-- The first hit among the grids `10 ^ power`, `10 ^ (power - 1)`, … -/
def coarsest (i : Interval) : Nat → Int → Nat × Int
  | 0, power => (0, power)
  | steps + 1, power =>
    match gridPoint? i power with
    | some n => (n, power)
    | none => coarsest i steps (power - 1)

/-- A power of ten above the interval, less than twenty grids away from the finest one needed: the
decimal logarithm estimated from the binary one. -/
def powerAbove (i : Interval) : Int :=
  ((i.high.log2 : Int) - 1075) * 30103 / 100000 + 1

/-- Digits and power of the shortest decimal that reads back as the nonzero number. -/
def shortest (x : Binary64) : Nat × Int :=
  coarsest (intervalOf x) 25 (powerAbove (intervalOf x))

/-- How floating-point numbers are laid out. -/
structure FloatFormat where
  /-- The least exponent of ten written positionally. -/
  leastPositional : Int
  /-- The greatest exponent of ten written positionally. -/
  greatestPositional : Int
  /-- What ends a positional number without decimals. -/
  wholeEnding : String
  /-- What stands before a nonnegative exponent. -/
  exponentPlus : String

/-- The digits with a point after the first `n` of them, which may be none or more than there
are. -/
def FloatFormat.positional (format : FloatFormat) (digits : List Char) (n : Int) : String :=
  if n ≤ 0 then
    "0." ++ String.ofList (List.replicate (-n).toNat '0' ++ digits)
  else if digits.length ≤ n.toNat then
    String.ofList (digits ++ List.replicate (n.toNat - digits.length) '0') ++ format.wholeEnding
  else
    String.ofList (digits.take n.toNat) ++ "." ++ String.ofList (digits.drop n.toNat)

/-- One digit, a point and the others, and the exponent of ten with its sign. -/
def FloatFormat.scientific (format : FloatFormat) (digits : List Char) (exponent : Int) : String :=
  String.ofList (digits.take 1) ++
    (if digits.length ≤ 1 then "" else "." ++ String.ofList (digits.drop 1)) ++ "e" ++
    (if exponent < 0 then "-" else format.exponentPlus) ++ toString exponent.natAbs

/-- The text of a finite number. -/
def FloatFormat.write (format : FloatFormat) (x : Binary64) : String :=
  (if x.negative then "-" else "") ++
    if x.mantissa = 0 then "0" ++ format.wholeEnding
    else
      let (n, power) := shortest x
      let digits := Nat.toDigits 10 n
      let exponent := power + digits.length - 1
      if format.leastPositional ≤ exponent && exponent ≤ format.greatestPositional then
        format.positional digits (exponent + 1)
      else
        format.scientific digits exponent

end JsonShelf.Decimal
