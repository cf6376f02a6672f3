/-
**Zod expressions.**

The expression of a shape says the same in the words of Zod.  The sample values that the shape was
inferred from decide only which numbers are marked as whole.

Main definitions:

* `Zod` — expressions;
* `Zod.ofShape` — the expression of a shape, given its samples;
* `Zod.render` — the text of an expression.
-/

import JsonShelf.Shape.Infer
import JsonShelf.Zod.Literal

set_option autoImplicit false

namespace JsonShelf

/-- A Zod expression. -/
inductive Zod where
  | null
  | undefined
  | unknown
  | string
  | boolean
  | number (isWhole : Bool)
  | array (element : Zod)
  | object (fields : List (String × Zod))
  | union (members : List Zod)

namespace Zod

/-! ### The expression of a shape -/

/-- The number that a sample is. -/
def number? : Json → Option Number
  | .number n => some n
  | _ => none

/-- Are there numbers among the samples, and all of them written as whole ones? -/
def allWhole (samples : List Json) : Bool :=
  let numbers := samples.filterMap number?
  !numbers.isEmpty && numbers.all Number.isWhole

/-- The expression of a kind of scalars. -/
def ofScalar (samples : List Json) : Scalar → Zod
  | .string => string
  | .boolean => boolean
  | .number => number (allWhole samples)

/-- The items of the samples that the element of an array was inferred from. -/
def elementSamples (samples : List Json) : List Json :=
  samples.flatMap fun sample => (sample.items?.getD []).take sampleSize

mutual

/-- The expression of a shape.  Each part of the shape gets the parts of the samples that it was
inferred from. -/
def ofShape : Shape → List Json → Zod
  | .null, _ => null
  | .undefined, _ => undefined
  | .unknown, _ => unknown
  | .scalar kind, samples => ofScalar samples kind
  | .array element, samples => array (ofShape element (elementSamples samples))
  | .object fields, samples => object (ofFields fields samples)
  | .union members, samples => union (ofMembers members samples)

/-- The expressions of the fields of an object shape. -/
def ofFields : List (String × Shape) → List Json → List (String × Zod)
  | [], _ => []
  | (name, shape) :: rest, samples =>
    (name, ofShape shape (samples.filterMap (Json.get? name))) :: ofFields rest samples

/-- The expressions of the members of a union. -/
def ofMembers : List Shape → List Json → List Zod
  | [], _ => []
  | shape :: rest, samples =>
    ofShape shape (samples.filter fun sample => Shape.infer sample = shape) ::
      ofMembers rest samples

end

/-! ### The text of an expression -/

/-- The indentation of a level. -/
def indent (level : Nat) : List Char :=
  List.replicate (2 * level) ' '

mutual

/-- The text of an expression inside `level` objects. -/
def chars (level : Nat) : Zod → List Char
  | null => "z.null()".toList
  | undefined => "z.undefined()".toList
  | unknown => "z.unknown()".toList
  | string => "z.string()".toList
  | boolean => "z.boolean()".toList
  | number true => "z.number().int()".toList
  | number false => "z.number()".toList
  | array element => "z.array(".toList ++ chars level element ++ [')']
  | object [] => "z.object(\x7b\x7d)".toList
  | object (field :: rest) =>
    "z.object(\x7b\n".toList ++ fieldChars (level + 1) (field :: rest) ++
      '\n' :: indent level ++ "\x7d)".toList
  | union members => "z.union([".toList ++ memberChars level members ++ "])".toList

/-- The fields of an object, each on lines of its own. -/
def fieldChars (level : Nat) : List (String × Zod) → List Char
  | [] => []
  | [(name, value)] => indent level ++ key name ++ ':' :: ' ' :: chars level value
  | (name, value) :: next :: rest =>
    indent level ++ key name ++ ':' :: ' ' :: (chars level value ++
      ',' :: '\n' :: fieldChars level (next :: rest))

/-- The members of a union, with commas between them. -/
def memberChars (level : Nat) : List Zod → List Char
  | [] => []
  | [member] => chars level member
  | member :: next :: rest => chars level member ++ ',' :: ' ' :: memberChars level (next :: rest)

end

/-- The text of an expression. -/
def render (value : Zod) : String :=
  String.ofList (chars 0 value)

end Zod

end JsonShelf
