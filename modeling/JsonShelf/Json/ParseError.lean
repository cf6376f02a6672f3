/-
**What can be wrong with a JSON text.**

Main definitions:

* `Json.Fault` — the causes for which a text is refused, with their wording;
* `Json.ParseError` — a cause and where it was found;
* `Json.Failure` — a cause, the characters left when it was found, and how many of their bytes
  count as read.
-/

import JsonShelf.Text.Position

set_option autoImplicit false

namespace JsonShelf.Json

/-- Why a text is no JSON document. -/
inductive Fault where
  | eofList
  | eofObject
  | eofString
  | eofValue
  | expectedColon
  | expectedListEnd
  | expectedObjectEnd
  | expectedIdent
  | expectedValue
  | invalidEscape
  | invalidNumber
  | numberOutOfRange
  | controlCharacter
  | keyNotString
  | loneSurrogate
  | unpairedSurrogate
  | trailingComma
  | trailingCharacters
  | recursionLimit
  /-- A value of one kind stands where one of another kind has to stand. -/
  | wrongKind (found expected : String)
  deriving DecidableEq, Repr

/-- The wording of a cause. -/
def Fault.message : Fault → String
  | eofList => "EOF while parsing a list"
  | eofObject => "EOF while parsing an object"
  | eofString => "EOF while parsing a string"
  | eofValue => "EOF while parsing a value"
  | expectedColon => "expected \x60:\x60"
  | expectedListEnd => "expected \x60,\x60 or \x60]\x60"
  | expectedObjectEnd => "expected \x60,\x60 or \x60\x7d\x60"
  | expectedIdent => "expected ident"
  | expectedValue => "expected value"
  | invalidEscape => "invalid escape"
  | invalidNumber => "invalid number"
  | numberOutOfRange => "number out of range"
  | controlCharacter => "control character (\\u0000-\\u001F) found while parsing a string"
  | keyNotString => "key must be a string"
  | loneSurrogate => "lone leading surrogate in hex escape"
  | unpairedSurrogate => "unexpected end of hex escape"
  | trailingComma => "trailing comma"
  | trailingCharacters => "trailing characters"
  | recursionLimit => "recursion limit exceeded"
  | wrongKind found expected => "invalid type: " ++ found ++ ", expected " ++ expected

/-- A cause and the position where it was found. -/
structure ParseError where
  fault : Fault
  position : Text.Position
  deriving DecidableEq, Repr

/-- What was found, and at which line and column. -/
def located (what : String) (position : Text.Position) : String :=
  what ++ " at line " ++ toString position.line ++ " column " ++ toString position.column

/-- The text of a parse error. -/
def ParseError.message (e : ParseError) : String :=
  located e.fault.message e.position

/-- A cause found while `rest` was left to read, of which `taken` bytes count as read. -/
structure Failure where
  fault : Fault
  rest : List Char
  taken : Nat
  deriving DecidableEq

/-- The position of a failure in the whole text. -/
def Failure.position (text : List Char) (f : Failure) : Text.Position :=
  Text.positionAt text (Text.byteLength text - Text.byteLength f.rest + f.taken)

/-- The failure as an error in the whole text. -/
def Failure.locate (text : List Char) (f : Failure) : ParseError :=
  ⟨f.fault, f.position text⟩

end JsonShelf.Json
