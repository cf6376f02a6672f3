/-
**TOML scalars without quotes.**

Main definitions:

* `Toml.integer?`, `Toml.float?`, `Toml.datetime?` — numbers, dates and times;
* `Toml.scalar?` — the value that a word without quotes writes.
-/

import JsonShelf.Binary64.Nearest
import JsonShelf.Json.Parser
import JsonShelf.Timestamp
import JsonShelf.Toml.Value

set_option autoImplicit false

namespace JsonShelf.Toml

/-! ### Numbers -/

/-- The digits of a number, with single underscores between some of them. -/
def grouped? (isDigit : Char → Bool) (cs : List Char) : Option (List Char) :=
  let groups := cs.splitOnP (· == '_')
  if groups.all fun group => !group.isEmpty && group.all isDigit then some groups.flatten else none

/-- The number that digits of a radix write. -/
def ofRadix (radix : Nat) (digits : List Char) : Nat :=
  digits.foldl (fun n c => radix * n + (Json.hexDigit? c).getD 0) 0

/-- Is it a digit of the radix? -/
def isDigitOf (radix : Nat) (c : Char) : Bool :=
  match Json.hexDigit? c with
  | some n => n < radix
  | none => false

/-- A sign, if there is one: is the number negative, and what follows. -/
def signed : List Char → Bool × List Char
  | '-' :: rest => (true, rest)
  | '+' :: rest => (false, rest)
  | cs => (false, cs)

/-- Decimal digits without a zero at the front. -/
def decimalDigits? (cs : List Char) : Option (List Char) := do
  let digits ← grouped? Char.isDigit cs
  if digits.head? = some '0' && 1 < digits.length then none else return digits

/-- A whole number in decimal, or after `0x`, `0o` and `0b` in another radix.  It has to fit 128
bits. -/
def integer? (cs : List Char) : Option Int := do
  let value : Int ← match cs with
    | '0' :: 'x' :: rest => (grouped? (isDigitOf 16) rest).map fun ds => (ofRadix 16 ds : Int)
    | '0' :: 'o' :: rest => (grouped? (isDigitOf 8) rest).map fun ds => (ofRadix 8 ds : Int)
    | '0' :: 'b' :: rest => (grouped? (isDigitOf 2) rest).map fun ds => (ofRadix 2 ds : Int)
    | _ =>
      let (negative, rest) := signed cs
      (decimalDigits? rest).map fun ds =>
        let n : Int := Decimal.ofDigits ds
        if negative then -n else n
  if -2 ^ 127 ≤ value && value < 2 ^ 128 then return value else none

/-- The power of ten after an `e`. -/
def power? (cs : List Char) : Option Int := do
  let (negative, rest) := signed cs
  let n : Int := Decimal.ofDigits (← grouped? Char.isDigit rest)
  return if negative then -n else n

/-- Is it a number with a fraction or an exponent, and in range? -/
def isDecimal (cs : List Char) : Bool :=
  let isExponentMark (c : Char) := c == 'e' || c == 'E'
  let mantissa := cs.takeWhile (!isExponentMark ·)
  let exponent := (cs.dropWhile (!isExponentMark ·)).tail
  let whole := mantissa.takeWhile (· != '.')
  let fraction := (mantissa.dropWhile (· != '.')).tail
  let hasExponent := cs.any isExponentMark
  let hasFraction := mantissa.contains '.'
  (hasExponent || hasFraction) &&
    match decimalDigits? whole, if hasFraction then grouped? Char.isDigit fraction else some [],
      if hasExponent then power? exponent else some 0 with
    | some whole, some fraction, some power =>
      (Binary64.ofDecimal? false (Decimal.ofDigits (whole ++ fraction))
        (power - fraction.length)).isSome
    | _, _, _ => false

/-- Is it a number with a fraction or an exponent, infinite, or not a number? -/
def isFloat (cs : List Char) : Bool :=
  let unsigned := (signed cs).2
  unsigned == ['i', 'n', 'f'] || unsigned == ['n', 'a', 'n'] || isDecimal unsigned

/-! ### Dates and times -/

/-- What follows a date. -/
def afterDate? (cs : List Char) : Option (List Char) := do
  let (year, rest) ← Timestamp.digits? 4 cs
  let (month, rest) ← Timestamp.digits? 2 (← Timestamp.expect? '-' rest)
  let (day, rest) ← Timestamp.digits? 2 (← Timestamp.expect? '-' rest)
  let date : Timestamp.Civil := ⟨year, month, day⟩
  if 1 ≤ month && month ≤ 12 && date.isDate then return rest else none

/-- What follows the seconds of a time of day, which may be left out. -/
def afterSeconds? : List Char → Option (List Char)
  | ':' :: rest => do
    let (second, rest) ← Timestamp.digits? 2 rest
    if 60 < second then none else return (← Timestamp.fraction? rest).2
  | rest => some rest

/-- What follows a time of day. -/
def afterTime? (cs : List Char) : Option (List Char) := do
  let (hour, rest) ← Timestamp.digits? 2 cs
  let (minute, rest) ← Timestamp.digits? 2 (← Timestamp.expect? ':' rest)
  if 23 < hour || 59 < minute then none else afterSeconds? rest

/-- May the character stand between a date and a time of day? -/
def joinsDateAndTime (c : Char) : Bool :=
  c == 'T' || c == 't' || c == ' '

/-- Is it a date, a time of day, or both, perhaps with an offset? -/
def isDatetime (cs : List Char) : Bool :=
  match afterDate? cs with
  | some [] => true
  | some (c :: rest) =>
    joinsDateAndTime c &&
      match afterTime? rest with
      | some [] => true
      | some offset => (Timestamp.offset? offset).isSome
      | none => false
  | none => afterTime? cs == some []

/-- The value that a word without quotes writes. -/
def scalar? (cs : List Char) : Option Toml :=
  if cs = ['t', 'r', 'u', 'e'] then some (.boolean true)
  else if cs = ['f', 'a', 'l', 's', 'e'] then some (.boolean false)
  else
    match integer? cs with
    | some value => some (.integer value)
    | none =>
      if isFloat cs then some (.float (String.ofList cs))
      else if isDatetime cs then some (.datetime (String.ofList cs))
      else none

end JsonShelf.Toml
