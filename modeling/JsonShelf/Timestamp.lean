/-
**Points in time.**

A point in time is kept as it is told: the date and the time of day at a place, and how far the
place is ahead of UTC.

Main definitions:

* `Timestamp` — points in time;
* `Timestamp.civilOfDay`, `Timestamp.dayOfCivil` — dates of the Gregorian calendar as numbers of
  days since 1970;
* `Timestamp.ofUnix` — the point in time that is a number of seconds after 1970;
* `Timestamp.ofRfc3339?`, `Timestamp.toRfc3339?` — reading and writing by RFC 3339.
-/

import JsonShelf.Decimal.Rounding
import JsonShelf.Text.Layout

set_option autoImplicit false

namespace JsonShelf

/-- A point in time, as told at a place. -/
structure Timestamp where
  /-- The seconds from the start of 1970 to the date and time of day told. -/
  localSeconds : Int
  nanoseconds : Nat
  /-- How many minutes the place is ahead of UTC. -/
  offsetMinutes : Int
  deriving DecidableEq, Repr

namespace Timestamp

/-! ### The calendar -/

/-- A date of the Gregorian calendar. -/
structure Civil where
  year : Int
  month : Nat
  day : Nat
  deriving DecidableEq, Repr

/-- The date a number of days after the first of January 1970.  Years are counted from March, so
that the leap day comes last. -/
def civilOfDay (days : Int) : Civil :=
  let shifted := days + 719468
  let era := shifted / 146097
  let dayOfEra := (shifted % 146097).toNat
  let yearOfEra := (dayOfEra - dayOfEra / 1460 + dayOfEra / 36524 - dayOfEra / 146096) / 365
  let dayOfYear := dayOfEra - (365 * yearOfEra + yearOfEra / 4 - yearOfEra / 100)
  let fromMarch := (5 * dayOfYear + 2) / 153
  let month := if fromMarch < 10 then fromMarch + 3 else fromMarch - 9
  let year : Int := yearOfEra + era * 400
  { year := if month ≤ 2 then year + 1 else year
    month := month
    day := dayOfYear - (153 * fromMarch + 2) / 5 + 1 }

/-- The number of days from the first of January 1970 to a date. -/
def dayOfCivil (date : Civil) : Int :=
  let year := if date.month ≤ 2 then date.year - 1 else date.year
  let era := year / 400
  let yearOfEra := (year % 400).toNat
  let fromMarch := if date.month ≤ 2 then date.month + 9 else date.month - 3
  let dayOfYear := (153 * fromMarch + 2) / 5 + date.day - 1
  let dayOfEra := yearOfEra * 365 + yearOfEra / 4 - yearOfEra / 100 + dayOfYear
  era * 146097 + dayOfEra - 719468

/-- Is there such a day in such a month? -/
def Civil.isDate (date : Civil) : Bool :=
  1 ≤ date.day && civilOfDay (dayOfCivil date) = date

/-- The seconds of a day. -/
def secondsPerDay : Nat := 86400

/-- The point in time some seconds and nanoseconds after the start of 1970, as told in UTC. -/
def ofUnix (seconds : Int) (nanoseconds : Nat) : Timestamp :=
  ⟨seconds, nanoseconds, 0⟩

/-! ### Writing -/

/-- A number in decimal digits, with zeros in front up to a width. -/
def zeroPadded (width n : Nat) : String :=
  let digits := Nat.toDigits 10 n
  String.ofList (List.replicate (width - digits.length) '0' ++ digits)

/-- A point and the digits of a fraction of a second, without zeros at the end; nothing for a whole
second. -/
def fractionText (nanoseconds : Nat) : String :=
  if nanoseconds = 0 then ""
  else
    "." ++ String.ofList ((zeroPadded 9 nanoseconds).toList.reverse.dropWhile (· == '0')).reverse

/-- The text of an offset from UTC. -/
def offsetText (minutes : Int) : String :=
  if minutes = 0 then "Z"
  else
    (if minutes < 0 then "-" else "+") ++ zeroPadded 2 (minutes.natAbs / 60) ++ ":" ++
      zeroPadded 2 (minutes.natAbs % 60)

/-- The text by RFC 3339, which knows the years from 0 to 9999. -/
def toRfc3339? (t : Timestamp) : Option String :=
  let date := civilOfDay (t.localSeconds / secondsPerDay)
  let second := (t.localSeconds % secondsPerDay).toNat
  if 0 ≤ date.year ∧ date.year < 10000 then
    some (zeroPadded 4 date.year.toNat ++ "-" ++ zeroPadded 2 date.month ++ "-" ++
      zeroPadded 2 date.day ++ "T" ++ zeroPadded 2 (second / 3600) ++ ":" ++
      zeroPadded 2 (second / 60 % 60) ++ ":" ++ zeroPadded 2 (second % 60) ++
      fractionText t.nanoseconds ++ offsetText t.offsetMinutes)
  else
    none

/-! ### Reading -/

/-- Exactly `count` decimal digits. -/
def digits? (count : Nat) (cs : List Char) : Option (Nat × List Char) :=
  let digits := cs.take count
  if digits.length = count && digits.all Char.isDigit then
    some (Decimal.ofDigits digits, cs.drop count)
  else
    none

/-- A character that has to come next. -/
def expect? (c : Char) : List Char → Option (List Char)
  | d :: rest => if d = c then some rest else none
  | [] => none

/-- The nanoseconds that some digits after a point stand for; those after the ninth do not
count. -/
def nanosecondsOf (digits : List Char) : Nat :=
  Decimal.ofDigits ((digits ++ List.replicate 9 '0').take 9)

/-- A point and at least one digit, or nothing. -/
def fraction? : List Char → Option (Nat × List Char)
  | '.' :: rest =>
    match rest.takeWhile Char.isDigit with
    | [] => none
    | digits => some (nanosecondsOf digits, rest.dropWhile Char.isDigit)
  | rest => some (0, rest)

/-- The offset from UTC, which ends the text: `Z`, or a sign, hours and minutes. -/
def offset? : List Char → Option Int
  | ['Z'] | ['z'] => some 0
  | sign :: rest => do
    let (hours, rest) ← digits? 2 rest
    let (minutes, rest) ← digits? 2 (← expect? ':' rest)
    let size : Int := 60 * hours + minutes
    if !rest.isEmpty || 23 < hours || 59 < minutes then none
    else if sign = '+' then some size
    else if sign = '-' then some (-size)
    else none
  | [] => none

/-- Is it the last second of a month in UTC, when a leap second may follow? -/
def endsMonth (t : Timestamp) : Bool :=
  let next := t.localSeconds - 60 * t.offsetMinutes + 1
  next % secondsPerDay = 0 && (civilOfDay (next / secondsPerDay)).day = 1

/-- The point in time that a text tells by RFC 3339, with any character of one byte between date
and time of day.  A leap second is taken for the last nanosecond before it. -/
def ofRfc3339? (text : String) : Option Timestamp := do
  let (year, rest) ← digits? 4 text.toList
  let (month, rest) ← digits? 2 (← expect? '-' rest)
  let (day, rest) ← digits? 2 (← expect? '-' rest)
  let (separator, rest) ← rest.head?.map fun c => (c, rest.drop 1)
  let (hour, rest) ← digits? 2 rest
  let (minute, rest) ← digits? 2 (← expect? ':' rest)
  let (second, rest) ← digits? 2 (← expect? ':' rest)
  let (nanoseconds, rest) ← fraction? rest
  let offsetMinutes ← offset? rest
  let date : Civil := ⟨year, month, day⟩
  -- second 60 is read as the end of second 59
  let isLeap := second == 60
  let second := if isLeap then 59 else second
  let t : Timestamp :=
    { localSeconds := dayOfCivil date * secondsPerDay + (3600 * hour + 60 * minute + second : Nat)
      nanoseconds := if isLeap then 999999999 else nanoseconds
      offsetMinutes }
  if separator.utf8Size = 1 && 1 ≤ month && month ≤ 12 && date.isDate && hour < 24 &&
      minute < 60 && second < 60 && (!isLeap || t.endsMonth) then
    some t
  else
    none

end Timestamp

end JsonShelf
