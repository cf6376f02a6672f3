/-
**TOML strings, keys and blanks.**

Readers take the characters left and give what they read and the characters after it.

Main definitions:

* `Toml.skipBlank`, `Toml.skipComment`, `Toml.skipTrivia` — what stands between the parts;
* `Toml.readString` — a string of any of the four kinds;
* `Toml.readKey` — a key with its points.
-/

import JsonShelf.Json.Parser
import JsonShelf.Toml.Value

set_option autoImplicit false

namespace JsonShelf.Toml

/-- The result of reading a part of a text. -/
abbrev Reading := Except Fault

/-- A fault at the first character left. -/
def refuse {α : Type} : List Char → Reading α
  | [] => .error .unexpectedEnd
  | c :: _ => .error (.unexpected c)

/-! ### Blanks -/

/-- What is left after spaces and tabs. -/
def skipBlank (cs : List Char) : List Char :=
  cs.dropWhile fun c => c == ' ' || c == '\t'

/-- Is it a control character other than the tab? -/
def isControl (c : Char) : Bool :=
  (c.toNat < 0x20 && c != '\t') || c.toNat == 0x7f

/-- What is left after a line end, if there is one. -/
def afterNewline? : List Char → Option (List Char)
  | '\n' :: rest | '\r' :: '\n' :: rest => some rest
  | _ => none

/-- What is left after a comment, if there is one; the line end is left. -/
def skipComment : List Char → Reading (List Char)
  | '#' :: rest =>
    let after := rest.dropWhile (!isControl ·)
    if after.isEmpty || (afterNewline? after).isSome then .ok after else refuse after
  | cs => .ok cs

/-- What is left after blanks, comments and line ends. -/
def skipTrivia : Nat → List Char → Reading (List Char)
  | 0, cs => .ok cs
  | bound + 1, cs => do
    let rest ← skipComment (skipBlank cs)
    match afterNewline? rest with
    | some rest => skipTrivia bound rest
    | none => return rest

/-! ### Strings -/

/-- Is the number that of a character? -/
def isScalarValue (n : Nat) : Bool :=
  n < 0xD800 || (0xDFFF < n && n < 0x110000)

/-- The character that some hexadecimal digits stand for. -/
def hexChar? (digits : List Char) : Option Char := do
  let values ← digits.mapM Json.hexDigit?
  let n := values.foldl (fun n d => 16 * n + d) 0
  if isScalarValue n then return Char.ofNat n else none

/-- A character written with a number of hexadecimal digits. -/
def readHex (count : Nat) (cs : List Char) : Reading (Char × List Char) :=
  if (cs.take count).length < count then .error .invalidString
  else
    match hexChar? (cs.take count) with
    | some c => .ok (c, cs.drop count)
    | none => .error .invalidString

/-- What follows the backslash of an escape. -/
def readEscape : List Char → Reading (Char × List Char)
  | [] => .error .unexpectedEnd
  | c :: rest =>
    match c with
    | '"' | '\\' => .ok (c, rest)
    | 'b' => .ok ('\x08', rest)
    | 't' => .ok ('\t', rest)
    | 'n' => .ok ('\n', rest)
    | 'f' => .ok ('\x0c', rest)
    | 'r' => .ok ('\r', rest)
    | 'e' => .ok ('\x1b', rest)
    | 'x' => readHex 2 rest
    | 'u' => readHex 4 rest
    | 'U' => readHex 8 rest
    | _ => .error .invalidString

/-- What is left after blanks and line ends. -/
def skipFold : Nat → List Char → List Char
  | 0, cs => cs
  | bound + 1, cs =>
    match afterNewline? (skipBlank cs) with
    | some rest => skipFold bound rest
    | none => skipBlank cs

/-- What is left after the blanks and the line end that follow a backslash, and all blanks and line
ends after those. -/
def afterFold? (cs : List Char) : Option (List Char) :=
  (afterNewline? (skipBlank cs)).map fun rest => skipFold (rest.length + 1) rest

/-- A string on one line, after its opening quote; `read` are the characters read, the last one
first. -/
def readLine (quote : Char) : Nat → List Char → List Char → Reading (String × List Char)
  | 0, _, cs => refuse cs
  | _, _, [] => .error .unexpectedEnd
  | bound + 1, read, c :: rest =>
    if c = quote then .ok (String.ofList read.reverse, rest)
    else if c = '\\' && quote = '"' then do
      let (e, rest) ← readEscape rest
      readLine quote bound (e :: read) rest
    else if isControl c then .error .invalidString
    else readLine quote bound (c :: read) rest

/-- The number of quotes at the front. -/
def countQuotes (quote : Char) (cs : List Char) : Nat :=
  (cs.takeWhile (· == quote)).length

/-- A string over several lines, after its opening quotes.  Three quotes end it, and up to two more
before them belong to it. -/
def readLines (quote : Char) : Nat → List Char → List Char → Reading (String × List Char)
  | 0, _, cs => refuse cs
  | _, _, [] => .error .unexpectedEnd
  | bound + 1, read, c :: rest =>
    if c = quote then
      let count := countQuotes quote (c :: rest)
      if 3 ≤ count then
        -- of a longer run of quotes, the first two at most are part of the text
        let own := min 2 (count - 3)
        .ok (String.ofList (List.replicate own quote ++ read).reverse,
          (c :: rest).drop (own + 3))
      else readLines quote bound (c :: read) rest
    else if c = '\\' && quote = '"' then
      match afterFold? rest with
      -- a backslash at the end of a line joins it to the next text
      | some rest => readLines quote bound read rest
      | none => do
        let (e, rest) ← readEscape rest
        readLines quote bound (e :: read) rest
    else
      match afterNewline? (c :: rest) with
      | some after => readLines quote bound
          (((c :: rest).take (rest.length + 1 - after.length)).reverse ++ read) after
      | none =>
        if isControl c then .error .invalidString else readLines quote bound (c :: read) rest

/-- A string from its opening quote; a line end right after three quotes does not count. -/
def readString (quote : Char) (rest : List Char) : Reading (String × List Char) :=
  let bound := rest.length + 1
  match rest with
  | a :: b :: inner =>
    if a = quote && b = quote then
      readLines quote bound [] ((afterNewline? inner).getD inner)
    else readLine quote bound [] rest
  | _ => readLine quote bound [] rest

/-! ### Keys -/

/-- May the character stand in a key without quotes? -/
def isKeyChar (c : Char) : Bool :=
  c.isAlphanum || c == '_' || c == '-'

/-- A key without points. -/
def readSimpleKey : List Char → Reading (String × List Char)
  | [] => .error .unexpectedEnd
  | c :: rest =>
    if c = '"' || c = '\'' then readLine c (rest.length + 1) [] rest
    else
      let name := (c :: rest).takeWhile isKeyChar
      if name.isEmpty then refuse (c :: rest)
      else .ok (String.ofList name, (c :: rest).dropWhile isKeyChar)

/-- A key with its points: the keys before the last one, and the last one.  Blanks after it are
read too. -/
def readKey : Nat → List Char → Reading ((List String × String) × List Char)
  | 0, cs => refuse cs
  | bound + 1, cs => do
    let (name, rest) ← readSimpleKey cs
    match skipBlank rest with
    | '.' :: rest =>
      let ((path, last), rest) ← readKey bound (skipBlank rest)
      return ((name :: path, last), rest)
    | rest => return (([], name), rest)

end JsonShelf.Toml
