/-
**String literals and keys in generated code.**

Main definitions:

* `Zod.literal` — a string in single quotes;
* `Zod.key` — a property name, quoted unless it is an identifier.
-/

set_option autoImplicit false

namespace JsonShelf.Zod

/-- Is it a control character? -/
def isControl (c : Char) : Bool :=
  c.toNat < 0x20 || (0x7f ≤ c.toNat && c.toNat < 0xa0)

/-- One character inside a literal: the backslash, the quote and control characters are escaped. -/
def escaped (c : Char) : List Char :=
  if c = '\\' then ['\\', '\\']
  else if c = '\'' then ['\\', '\'']
  else if c = '\n' then ['\\', 'n']
  else if c = '\r' then ['\\', 'r']
  else if c = '\t' then ['\\', 't']
  else if isControl c then
    '\\' :: 'u' :: '\x7b' :: Nat.toDigits 16 c.toNat ++ ['\x7d']
  else [c]

/-- The body of a literal. -/
def body (cs : List Char) : List Char :=
  cs.flatMap escaped

/-- The string in single quotes. -/
def literal (s : String) : List Char :=
  '\'' :: body s.toList ++ ['\'']

/-- Does an identifier begin with the character? -/
def beginsIdentifier (c : Char) : Bool :=
  c.isAlpha || c == '_' || c == '$'

/-- Does an identifier go on with the character? -/
def continuesIdentifier (c : Char) : Bool :=
  c.isAlphanum || c == '_' || c == '$'

/-- Is it an identifier? -/
def isIdentifier : List Char → Bool
  | [] => false
  | c :: rest => beginsIdentifier c && rest.all continuesIdentifier

/-- The name that sets the prototype of an object instead of declaring a property. -/
def prototypeName : String := "__proto__"

/-- A property name: an identifier stands for itself, all else is a literal, and so is the name of
the prototype. -/
def key (name : String) : List Char :=
  if isIdentifier name.toList && name != prototypeName then name.toList else literal name

end JsonShelf.Zod
