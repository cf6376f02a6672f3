/-
**Sizes for people.**

Main definitions:

* `Report.size` — a number of bytes with one decimal and a unit.
-/

import JsonShelf.Binary64.Nearest

set_option autoImplicit false

namespace JsonShelf.Report

/-- The number of bytes as a binary64 number, which is whole. -/
def roundedBytes (bytes : Nat) : Nat :=
  ((Binary64.ofInt bytes).toInt?.getD 0).toNat

/-- `bytes` in units of `unit` bytes, to one decimal; a tie goes to the even digit. -/
def inUnits (bytes unit : Nat) : String :=
  let tenths := Decimal.roundDiv (10 * bytes) unit
  toString (tenths / 10) ++ "." ++ toString (tenths % 10)

/-- A number of bytes in the first of the units, each `unit` bytes and then 1024 times as many, in
which it is below 1024, or in the last one. -/
def scaled (bytes unit : Nat) : List String → String
  | [] => ""
  | [name] => inUnits bytes unit ++ " " ++ name
  | name :: next :: rest =>
    if bytes < 1024 * unit then inUnits bytes unit ++ " " ++ name
    else scaled bytes (1024 * unit) (next :: rest)

/-- A number of bytes with one decimal and a unit; whole bytes below 1024. -/
def size (bytes : Nat) : String :=
  if bytes < 1024 then toString bytes ++ " B"
  else scaled (roundedBytes bytes) 1024 ["KB", "MB", "GB", "TB"]

end JsonShelf.Report
