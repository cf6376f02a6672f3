/-
**Reading JSON.**

A reader takes the characters left and gives a value and the characters after it, or a failure.
Containers nest at most 127 deep.  The loops over the characters of a string, the items of an array
and the members of an object are bounded by the length of the whole text, which they never reach.

Main definitions:

* `Json.readString`, `Json.readNumber`, `Json.readValue` — readers of strings, numbers and values;
* `Json.parseRaw` — a document, with the members of its objects as written;
* `Json.parse` — a document whose objects hold each key once.

Main results:

* `Json.canonical_of_parse` — a parsed document holds each key of an object once.
-/

import JsonShelf.Json.Basic
import JsonShelf.Json.ParseError

set_option autoImplicit false

namespace JsonShelf.Json

/-- The result of reading a part of a text; a reader of a value also gives the characters after
it. -/
abbrev Reading := Except Failure

/-- A failure at the end of the text. -/
def failAtEnd {α : Type} (fault : Fault) : Reading α :=
  .error ⟨fault, [], 0⟩

/-- A failure at the first character left, one byte of which counts as read. -/
def failAt {α : Type} (fault : Fault) (rest : List Char) : Reading α :=
  .error ⟨fault, rest, 1⟩

/-- The characters that may stand between the parts of a document. -/
def isSpace (c : Char) : Bool :=
  c == ' ' || c == '\n' || c == '\t' || c == '\r'

/-- What is left after leading white space. -/
def skipSpace (cs : List Char) : List Char :=
  cs.dropWhile isSpace

/-! ### Strings -/

/-- The value of one hexadecimal digit. -/
def hexDigit? (c : Char) : Option Nat :=
  if '0' ≤ c && c ≤ '9' then some (c.toNat - '0'.toNat)
  else if 'a' ≤ c && c ≤ 'f' then some (c.toNat - 'a'.toNat + 10)
  else if 'A' ≤ c && c ≤ 'F' then some (c.toNat - 'A'.toNat + 10)
  else none

/-- The number that four hexadecimal digits write. -/
def hex4? (a b c d : Char) : Option Nat := do
  let a ← hexDigit? a
  let b ← hexDigit? b
  let c ← hexDigit? c
  let d ← hexDigit? d
  return ((a * 16 + b) * 16 + c) * 16 + d

/-- Four hexadecimal digits.  All four are read before any is judged. -/
def codeUnit (cs : List Char) : Reading (Nat × List Char) :=
  let refused := if Text.byteLength cs < 4 then failAtEnd .eofString
    else .error ⟨.invalidEscape, cs, 4⟩
  match cs with
  | a :: b :: c :: d :: rest =>
    match hex4? a b c d with
    | some n => .ok (n, rest)
    | none => refused
  | _ => refused

/-- A character that has to come next, inside a pair of surrogates. -/
def expectInPair (expected : Char) : List Char → Reading (List Char)
  | [] => failAtEnd .eofString
  | c :: rest => if c = expected then .ok rest else failAt .unpairedSurrogate (c :: rest)

/-- What follows the `u` of an escape: the digits of a character, or of a leading surrogate and
then a second escape with the trailing one. -/
def unicodeEscape (cs : List Char) : Reading (Char × List Char) := do
  let (unit, rest) ← codeUnit cs
  if 0xDC00 ≤ unit && unit ≤ 0xDFFF then
    .error ⟨.loneSurrogate, rest, 0⟩
  else if unit < 0xD800 || 0xDBFF < unit then
    return (Char.ofNat unit, rest)
  else
    let (trail, rest) ← codeUnit (← expectInPair 'u' (← expectInPair '\\' rest))
    if 0xDC00 ≤ trail && trail ≤ 0xDFFF then
      return (Char.ofNat (0x10000 + (unit - 0xD800) * 0x400 + (trail - 0xDC00)), rest)
    else
      .error ⟨.loneSurrogate, rest, 0⟩

/-- What follows the backslash of an escape. -/
def escape : List Char → Reading (Char × List Char)
  | [] => failAtEnd .eofString
  | c :: rest =>
    match c with
    | '"' => .ok ('"', rest)
    | '\\' => .ok ('\\', rest)
    | '/' => .ok ('/', rest)
    | 'b' => .ok ('\x08', rest)
    | 'f' => .ok ('\x0c', rest)
    | 'n' => .ok ('\n', rest)
    | 'r' => .ok ('\r', rest)
    | 't' => .ok ('\t', rest)
    | 'u' => unicodeEscape rest
    | _ => failAt .invalidEscape (c :: rest)

/-- The characters of a string up to its closing quote; `read` are those read so far, the last one
first. -/
def characters : Nat → List Char → List Char → Reading (String × List Char)
  | 0, _, _ => failAtEnd .eofString
  | _ + 1, _, [] => failAtEnd .eofString
  | bound + 1, read, c :: rest =>
    if c = '"' then
      .ok (String.ofList read.reverse, rest)
    else if c = '\\' then
      match escape rest with
      | .ok (e, rest) => characters bound (e :: read) rest
      | .error e => .error e
    else if c.toNat < 0x20 then
      failAt .controlCharacter (c :: rest)
    else
      characters bound (c :: read) rest

/-- A string, after its opening quote. -/
def readString (bound : Nat) (cs : List Char) : Reading (String × List Char) :=
  characters bound [] cs

/-! ### Numbers -/

/-- The digits before the point: a zero alone, or digits that begin with none. -/
def wholeDigits : List Char → Reading (List Char × List Char)
  | [] => failAtEnd .eofValue
  | c :: rest =>
    if c = '0' then
      match rest with
      | d :: _ => if d.isDigit then failAt .invalidNumber rest else .ok ([c], rest)
      | [] => .ok ([c], rest)
    else if c.isDigit then
      .ok (c :: rest.takeWhile Char.isDigit, rest.dropWhile Char.isDigit)
    else
      failAt .invalidNumber (c :: rest)

/-- At least one digit. -/
def someDigits (cs : List Char) : Reading (List Char × List Char) :=
  match cs with
  | [] => failAtEnd .eofValue
  | c :: _ =>
    if c.isDigit then .ok (cs.takeWhile Char.isDigit, cs.dropWhile Char.isDigit)
    else failAt .invalidNumber cs

/-- A point and the digits after it, if there is a point. -/
def fractionDigits : List Char → Reading (Option (List Char) × List Char)
  | '.' :: rest => do
    let (digits, rest) ← someDigits rest
    return (some digits, rest)
  | rest => .ok (none, rest)

/-- The largest exponent whose digits are all weighed. -/
def largestPower : Nat := 2 ^ 31 - 1

/-- The digits from the one on that takes the number past the largest exponent. -/
def excessDigits : Nat → List Char → Option (List Char)
  | _, [] => none
  | n, c :: rest =>
    let m := 10 * n + Decimal.digitValue c
    if largestPower < m then some (c :: rest) else excessDigits m rest

/-- An exponent with its sign, if there is one.  A positive exponent past the largest one is
refused at the digit that makes it so, unless the number is zero. -/
def exponentPart (isZero : Bool) : List Char → Reading (Option Int × List Char)
  | c :: rest =>
    if c = 'e' || c = 'E' then
      let (negative, rest) := match rest with
        | '-' :: rest => (true, rest)
        | '+' :: rest => (false, rest)
        | rest => (false, rest)
      do
        let (digits, after) ← someDigits rest
        match excessDigits 0 digits with
        | some excess =>
          if isZero || negative then
            return (some (-(2 ^ 31 : Int)), after)
          else
            failAt .numberOutOfRange (excess ++ after)
        | none =>
          let power : Int := Decimal.ofDigits digits
          return (some (if negative then -power else power), after)
    else
      .ok (none, c :: rest)
  | [] => .ok (none, [])

/-- A number, after its sign. -/
def readNumber (negative : Bool) (cs : List Char) : Reading (Number × List Char) := do
  let (whole, rest) ← wholeDigits cs
  let (fraction, rest) ← fractionDigits rest
  let isZero := (whole ++ fraction.getD []).all (· == '0')
  let (power, rest) ← exponentPart isZero rest
  match Number.ofLiteral? ⟨negative, whole, fraction, power⟩ with
  | some n => return (n, rest)
  | none => .error ⟨.numberOutOfRange, rest, 0⟩

/-! ### Values -/

/-- The letters of a word that has begun. -/
def word : List Char → List Char → Reading (List Char)
  | [], rest => .ok rest
  | _ :: _, [] => failAtEnd .eofValue
  | l :: letters, c :: rest =>
    if c = l then word letters rest else failAt .expectedIdent (c :: rest)

/-- A value that is no container. -/
def readScalar (bound : Nat) (c : Char) (rest : List Char) : Reading (Json × List Char) :=
  match c with
  | 'n' => do return (.null, ← word ['u', 'l', 'l'] rest)
  | 't' => do return (.bool true, ← word ['r', 'u', 'e'] rest)
  | 'f' => do return (.bool false, ← word ['a', 'l', 's', 'e'] rest)
  | '"' => do
    let (s, rest) ← readString bound rest
    return (.string s, rest)
  | '-' => do
    let (n, rest) ← readNumber true rest
    return (.number n, rest)
  | _ =>
    if c.isDigit then do
      let (n, rest) ← readNumber false (c :: rest)
      return (.number n, rest)
    else
      failAt .expectedValue (c :: rest)

/-- The items of an array up to its closing bracket. -/
def readItems {α : Type} (item : List Char → Reading (α × List Char)) :
    Nat → Bool → List Char → Reading (List α × List Char)
  | 0, _, _ => failAtEnd .eofList
  | bound + 1, isFirst, cs => do
    let next (cs : List Char) : Reading (List α × List Char) := do
      let (value, rest) ← item cs
      let (others, rest) ← readItems item bound false rest
      return (value :: others, rest)
    match skipSpace cs with
    | [] => failAtEnd .eofList
    | c :: rest =>
      if c = ']' then
        return ([], rest)
      else if isFirst then
        next (c :: rest)
      else if c = ',' then
        -- after a comma the array may not end, whatever follows
        match skipSpace rest with
        | [] => failAtEnd .eofValue
        | d :: rest =>
          if d = ']' then failAt .trailingComma (d :: rest) else next (d :: rest)
      else
        failAt .expectedListEnd (c :: rest)

/-- The colon after a key. -/
def colon (cs : List Char) : Reading (List Char) :=
  match skipSpace cs with
  | [] => failAtEnd .eofObject
  | c :: rest => if c = ':' then .ok rest else failAt .expectedColon (c :: rest)

/-- The members of an object up to its closing brace. -/
def readMembers (bound : Nat) (item : List Char → Reading (Json × List Char)) :
    Nat → Bool → List Char → Reading (Members Json × List Char)
  | 0, _, _ => failAtEnd .eofObject
  | count + 1, isFirst, cs => do
    let next (rest : List Char) : Reading (Members Json × List Char) := do
      let (key, rest) ← readString bound rest
      let (value, rest) ← item (← colon rest)
      let (others, rest) ← readMembers bound item count false rest
      return ((key, value) :: others, rest)
    match skipSpace cs with
    | [] => failAtEnd .eofObject
    | c :: rest =>
      if c = '\x7d' then
        return ([], rest)
      else if isFirst then
        if c = '"' then next rest else failAt .keyNotString (c :: rest)
      else if c = ',' then
        -- at the end of the text a value is missed, not a key
        match skipSpace rest with
        | [] => failAtEnd .eofValue
        | d :: rest =>
          if d = '"' then next rest
          else if d = '\x7d' then failAt .trailingComma (d :: rest)
          else failAt .keyNotString (d :: rest)
      else
        failAt .expectedObjectEnd (c :: rest)

/-- A value in which containers nest at most `limit` deep; `bound` bounds its loops. -/
def readValue (bound : Nat) : Nat → List Char → Reading (Json × List Char)
  | 0 => fun cs =>
    match skipSpace cs with
    | [] => failAtEnd .eofValue
    | c :: rest =>
      if c = '[' || c = '\x7b' then failAt .recursionLimit (c :: rest) else readScalar bound c rest
  | limit + 1 => fun cs =>
    match skipSpace cs with
    | [] => failAtEnd .eofValue
    | c :: rest =>
      if c = '[' then do
        let (read, rest) ← readItems (readValue bound limit) bound true rest
        return (.array read, rest)
      else if c = '\x7b' then do
        let (read, rest) ← readMembers bound (readValue bound limit) bound true rest
        return (.object read, rest)
      else
        readScalar bound c rest

/-! ### Documents -/

/-- How deep the containers of a document may nest. -/
def nestingLimit : Nat := 127

/-- What a reader reads, with nothing but white space after it. -/
def whole {α : Type} (read : List Char → Reading (α × List Char)) (cs : List Char) : Reading α := do
  let (value, rest) ← read cs
  match skipSpace rest with
  | [] => return value
  | c :: rest => failAt .trailingCharacters (c :: rest)

/-- What a reader makes of a whole text; the reader is given a bound for its loops. -/
def parseWith {α : Type} (read : Nat → List Char → Reading (α × List Char)) (text : String) :
    Except ParseError α :=
  let cs := text.toList
  (whole (read (cs.length + 1)) cs).mapError (Failure.locate cs)

/-- The document that a text writes, with the members of its objects as written. -/
def parseRaw (text : String) : Except ParseError Json :=
  parseWith (fun bound => readValue bound nestingLimit) text

/-- The document that a text writes, each of whose objects holds each key once. -/
def parse (text : String) : Except ParseError Json :=
  (parseRaw text).map canonical

theorem canonical_of_parse {text : String} {read : Json} (h : parse text = .ok read) :
    Canonical read := by
  unfold parse at h
  cases hr : parseRaw text with
  | error e => rw [hr] at h; cases h
  | ok raw => rw [hr] at h; cases h; exact canonical_canonical raw

end JsonShelf.Json
