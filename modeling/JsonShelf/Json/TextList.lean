/-
**Documents that list texts.**

A document that has to be an array of strings is judged while it is read: the first value of the
wrong kind is refused where it stands, whatever comes after it.

Main definitions:

* `Json.parseTexts` — the strings that a document lists.
-/

import JsonShelf.Json.Parser
import JsonShelf.Text.Quoted

set_option autoImplicit false

namespace JsonShelf.Json

/-- How a value that is no container is called where it is refused. -/
def described : Json → String
  | null => "null"
  | bool b => "boolean \x60" ++ (if b then "true" else "false") ++ "\x60"
  | number n =>
    (if n.isWhole then "integer \x60" else "floating point \x60") ++ n.text ++ "\x60"
  | string s => "string " ++ Text.quoted s
  | array _ => "sequence"
  | object _ => "map"

/-- Refuses the value that begins with a character: a container before it is read, all else after
it. -/
def refuse {α : Type} (bound : Nat) (expected : String) (c : Char) (rest : List Char) :
    Reading α := do
  if c = '[' then
    throw ⟨.wrongKind (described (.array [])) expected, c :: rest, 0⟩
  else if c = '\x7b' then
    throw ⟨.wrongKind (described (.object [])) expected, c :: rest, 0⟩
  else
    let (value, rest) ← readScalar bound c rest
    throw ⟨.wrongKind (described value) expected, rest, 0⟩

/-- A value that has to be a string. -/
def readText (bound : Nat) (cs : List Char) : Reading (String × List Char) :=
  match skipSpace cs with
  | [] => failAtEnd .eofValue
  | c :: rest => if c = '"' then readString bound rest else refuse bound "a string" c rest

/-- A value that has to be an array of strings. -/
def readTexts (bound : Nat) (cs : List Char) : Reading (List String × List Char) :=
  match skipSpace cs with
  | [] => failAtEnd .eofValue
  | c :: rest =>
    if c = '[' then readItems (readText bound) bound true rest
    else refuse bound "a sequence" c rest

/-- The strings that a document lists. -/
def parseTexts (text : String) : Except ParseError (List String) :=
  parseWith readTexts text

end JsonShelf.Json
