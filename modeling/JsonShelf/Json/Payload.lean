/-
**Records written as JSON.**

A record with named fields is written as an object, or as an array of the fields in order.  Unknown
members of the object are ignored, but a field may not be written twice, and the array may not go
on after the last field.  The readers below take a value as it was written, with repeated members.

Main definitions:

* `Json.fields?` — the values of named fields;
* `Json.required?`, `Json.natural?`, `Json.text?`, `Json.boolean?`, `Json.listOf?` — readers of
  single fields;
* `Json.texts` — a list of strings as an array.
-/

import JsonShelf.Json.Basic

set_option autoImplicit false

namespace JsonShelf.Json

/-- The value of a member that occurs at most once, there or not; none if it is repeated. -/
def single? (members : Members Json) (name : String) : Option (Option Json) :=
  match members.filter (·.1 == name) with
  | [] => some none
  | [member] => some (some member.2)
  | _ => none

/-- The values of the named fields of a record, each there or not. -/
def fields? (names : List String) : Json → Option (List (Option Json))
  | object members => names.mapM (single? members)
  | array items =>
    if items.length ≤ names.length then
      some (items.map some ++ List.replicate (names.length - items.length) none)
    else
      none
  | _ => none

/-- A field that has to be there. -/
def required? {α : Type} (read : Json → Option α) (field : Option Json) : Option α :=
  field.bind read

/-- A field that may be missing or null. -/
def optional? {α : Type} (read : Json → Option α) : Option Json → Option (Option α)
  | none | some null => some none
  | some value => (read value).map some

/-- A natural number that 64 bits hold. -/
def natural? : Json → Option Nat
  | number (.whole value _ _) => if 0 ≤ value then some value.toNat else none
  | _ => none

/-- A string. -/
def text? : Json → Option String
  | string s => some s
  | _ => none

/-- A truth value. -/
def boolean? : Json → Option Bool
  | bool b => some b
  | _ => none

/-- An array of values of one kind. -/
def listOf? {α : Type} (read : Json → Option α) : Json → Option (List α)
  | array items => items.mapM read
  | _ => none

/-- An array of strings. -/
def texts (list : List String) : Json :=
  array (list.map string)

end JsonShelf.Json
