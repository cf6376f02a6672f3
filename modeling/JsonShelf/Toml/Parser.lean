/-
**Reading TOML.**

Main definitions:

* `Toml.readValue` — a value, with those inside it;
* `Toml.parse` — the table that a document writes.
-/

import JsonShelf.Toml.Scalar
import JsonShelf.Toml.Table
import JsonShelf.Toml.Text

set_option autoImplicit false

namespace JsonShelf.Toml

/-! ### Values -/

/-- Does the character end a word? -/
def endsWord (c : Char) : Bool :=
  [' ', '\t', '\n', '\r', ',', ']', '\x7d', '[', '\x7b', '#', '=', '"', '\''].contains c

/-- A word without quotes.  A date and a time of day with one space between them are one word. -/
def readWord (cs : List Char) : List Char × List Char :=
  let (word, rest) := cs.span (!endsWord ·)
  match rest with
  | ' ' :: c :: after =>
    if afterDate? word = some [] && c.isDigit then
      let (time, rest) := (c :: after).span (!endsWord ·)
      (word ++ ' ' :: time, rest)
    else (word, rest)
  | _ => (word, rest)

/-- A value without quotes or brackets. -/
def readScalar (cs : List Char) : Reading (Toml × List Char) :=
  let (word, rest) := readWord cs
  if word.isEmpty then refuse cs
  else
    match scalar? word with
    | some value => .ok (value, rest)
    | none => .error (.invalidScalar (String.ofList word))

/-- The items of an array, after its opening bracket or a comma. -/
def readItems (item : List Char → Reading (Toml × List Char)) :
    Nat → List Char → Reading (List Toml × List Char)
  | 0, cs => refuse cs
  | bound + 1, cs => do
    match ← skipTrivia cs.length cs with
    | ']' :: rest => return ([], rest)
    | cs =>
      let (value, rest) ← item cs
      match ← skipTrivia rest.length rest with
      | ',' :: rest =>
        let (others, rest) ← readItems item bound rest
        return (value :: others, rest)
      | ']' :: rest => return ([value], rest)
      | rest => refuse rest

/-- A key, an equals sign and a value. -/
def readPair (item : List Char → Reading (Toml × List Char)) (cs : List Char) :
    Reading ((List String × String × Toml) × List Char) := do
  let ((path, key), rest) ← readKey (cs.length + 1) cs
  match rest with
  | '=' :: rest =>
    let (value, rest) ← item (skipBlank rest)
    return ((path, key, value), rest)
  | rest => refuse rest

/-- The pairs of an inline table, after its opening brace or a comma. -/
def readPairs (item : List Char → Reading (Toml × List Char)) :
    Nat → Entries → List Char → Reading (Entries × List Char)
  | 0, _, cs => refuse cs
  | bound + 1, entries, cs => do
    match ← skipTrivia cs.length cs with
    | '\x7d' :: rest => return (entries, rest)
    | cs =>
      let ((path, key, value), rest) ← readPair item cs
      let entries ← insertAt path key value entries
      match ← skipTrivia rest.length rest with
      | ',' :: rest => readPairs item bound entries rest
      | '\x7d' :: rest => return (entries, rest)
      | rest => refuse rest

/-- A value in which arrays and inline tables nest at most `limit` deep. -/
def readValue : Nat → List Char → Reading (Toml × List Char)
  | 0 => fun cs =>
    match cs with
    | '[' :: _ | '\x7b' :: _ => .error .nestingTooDeep
    | '"' :: rest => (readString '"' rest).map fun (s, rest) => (.string s, rest)
    | '\'' :: rest => (readString '\'' rest).map fun (s, rest) => (.string s, rest)
    | cs => readScalar cs
  | limit + 1 => fun cs =>
    match cs with
    | '[' :: rest => do
      let (items, rest) ← readItems (readValue limit) (rest.length + 1) rest
      return (.array items, rest)
    | '\x7b' :: rest => do
      let (entries, rest) ← readPairs (readValue limit) (rest.length + 1) [] rest
      return (.table (entriesToToml entries), rest)
    | '"' :: rest => (readString '"' rest).map fun (s, rest) => (.string s, rest)
    | '\'' :: rest => (readString '\'' rest).map fun (s, rest) => (.string s, rest)
    | cs => readScalar cs

/-- How deep arrays and inline tables may nest. -/
def nestingLimit : Nat := 80

/-! ### Documents -/

/-- The end of a line: blanks, a comment, and a line end or the end of the text. -/
def endLine (cs : List Char) : Reading (List Char) := do
  let rest ← skipComment (skipBlank cs)
  match rest, afterNewline? rest with
  | [], _ => return []
  | _, some rest => return rest
  | rest, none => refuse rest

/-- A document being read: its entries, and the keys of the header last read. -/
structure Document where
  entries : Entries
  header : List String

/-- The header of a table, after its first bracket. -/
def readHeader (document : Document) (cs : List Char) : Reading (Document × List Char) := do
  match cs with
  | '[' :: rest =>
    let ((path, key), rest) ← readKey (rest.length + 1) (skipBlank rest)
    match rest with
    | ']' :: ']' :: rest =>
      return (⟨← appendTable path key document.entries, path ++ [key]⟩, ← endLine rest)
    | rest => refuse rest
  | cs =>
    let ((path, key), rest) ← readKey (cs.length + 1) (skipBlank cs)
    match rest with
    | ']' :: rest =>
      return (⟨← openTable path key document.entries, path ++ [key]⟩, ← endLine rest)
    | rest => refuse rest

/-- The lines of a document. -/
def readDocument : Nat → Document → List Char → Reading Document
  | 0, document, _ => .ok document
  | bound + 1, document, cs => do
    match ← skipTrivia cs.length cs with
    | [] => return document
    | '[' :: rest =>
      let (document, rest) ← readHeader document rest
      readDocument bound document rest
    | cs =>
      let ((path, key, value), rest) ← readPair (readValue nestingLimit) cs
      let entries ← insertBelow document.header path key value document.entries
      readDocument bound { document with entries } (← endLine rest)

/-- The text without a byte order mark at its start. -/
def withoutMark : List Char → List Char
  | c :: rest => if c = '\ufeff' then rest else c :: rest
  | [] => []

/-- The table that a document writes. -/
def parse (text : String) : Except Fault (Members Toml) := do
  let cs := withoutMark text.toList
  let document ← readDocument (cs.length + 1) ⟨[], []⟩ cs
  return entriesToToml document.entries

end JsonShelf.Toml
