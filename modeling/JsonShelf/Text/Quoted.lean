/-
**Text shown in quotes.**

A text that is shown to a reader stands in double quotes, and what would not show in it is written
as an escape.

Main definitions:

* `Text.quoted`, `Text.quotedList` — a text in quotes, and several of them in brackets.
-/

import JsonShelf.Text.Invisible

set_option autoImplicit false

namespace JsonShelf.Text

/-- One character inside quotes. -/
def quotedChar (c : Char) : List Char :=
  if c = '"' then ['\\', '"']
  else if c = '\\' then ['\\', '\\']
  else if c = '\n' then ['\\', 'n']
  else if c = '\r' then ['\\', 'r']
  else if c = '\t' then ['\\', 't']
  else if c = '\x00' then ['\\', '0']
  else if isInvisible c then
    '\\' :: 'u' :: '\x7b' :: Nat.toDigits 16 c.toNat ++ ['\x7d']
  else [c]

/-- The text in quotes. -/
def quoted (s : String) : String :=
  String.ofList ('"' :: s.toList.flatMap quotedChar ++ ['"'])

/-- The texts in quotes, with commas between them and brackets around them. -/
def quotedList (list : List String) : String :=
  "[" ++ ", ".intercalate (list.map quoted) ++ "]"

end JsonShelf.Text
