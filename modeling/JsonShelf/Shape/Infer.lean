/-
**Inferring shapes.**

Main definitions:

* `sampleSize` — how many leading items of an array are looked at;
* `Shape.infer` — the shape of a value;
* `Shape.inferField` — the shape of a member of an object, there or not.
-/

import JsonShelf.Json.Basic
import JsonShelf.Shape.Basic

set_option autoImplicit false

namespace JsonShelf

/-- How many leading items of an array are looked at. -/
def sampleSize : Nat := 3

namespace Shape

mutual

/-- The shape of a value.  An array has the union of the shapes of its first items as element. -/
def infer : Json → Shape
  | .null => null
  | .bool _ => scalar .boolean
  | .number _ => scalar .number
  | .string _ => scalar .string
  | .array items => array (unionOf (inferFirst sampleSize items))
  | .object members => object (inferMembers members)

/-- The shapes of the first `count` items. -/
def inferFirst : Nat → List Json → List Shape
  | 0, _ => []
  | _ + 1, [] => []
  | count + 1, item :: rest => infer item :: inferFirst count rest

/-- The shapes of the members, by key. -/
def inferMembers : List (String × Json) → List (String × Shape)
  | [] => []
  | (key, value) :: rest => (key, infer value) :: inferMembers rest

end

/-- The shape of the member with the key; undefined when there is none. -/
def inferField (members : Members Json) (key : String) : Shape :=
  match Members.get? key members with
  | some value => infer value
  | none => undefined

end Shape

end JsonShelf
