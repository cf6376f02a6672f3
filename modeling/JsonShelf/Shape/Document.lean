/-
**Shapes as JSON documents.**

A shape is written as an object whose member `kind` names its constructor.

Main definitions:

* `Shape.toJson` — the document of a shape;
* `Shape.ofJson?` — the shape that a document writes.
-/

import JsonShelf.Json.Parser
import JsonShelf.Json.Path
import JsonShelf.Json.Payload
import JsonShelf.Shape.Basic

set_option autoImplicit false

namespace JsonShelf.Shape

/-! ### Writing -/

/-- A document with its tag. -/
def tagged (kind : String) (members : Members Json) : Json :=
  .object (("kind", .string kind) :: members)

mutual

/-- The document of a shape. -/
def toJson : Shape → Json
  | null => tagged "null" []
  | undefined => tagged "undefined" []
  | scalar kind => tagged "scalar" [("scalar", .string kind.name)]
  | unknown => tagged "unknown" []
  | array element => tagged "array" [("element", toJson element)]
  | object fields => tagged "object" [("fields", .array (fieldsToJson fields))]
  | union members => tagged "union" [("members", .array (membersToJson members))]

/-- The documents of the fields of an object shape. -/
def fieldsToJson : List (String × Shape) → List Json
  | [] => []
  | (name, shape) :: rest =>
    .object [("name", .string name), ("shape", toJson shape)] :: fieldsToJson rest

/-- The documents of the members of a union. -/
def membersToJson : List Shape → List Json
  | [] => []
  | shape :: rest => toJson shape :: membersToJson rest

end

/-! ### Reading -/

/-- The constructors of shapes. -/
inductive Tag where
  | null
  | undefined
  | scalar
  | unknown
  | array
  | object
  | union
  deriving DecidableEq

/-- The tag with a name. -/
def Tag.ofName? : String → Option Tag
  | "null" => some null
  | "undefined" => some undefined
  | "scalar" => some scalar
  | "unknown" => some unknown
  | "array" => some array
  | "object" => some object
  | "union" => some union
  | _ => none

/-- The tag at a place in the order of constructors. -/
def Tag.ofPlace? : Nat → Option Tag
  | 0 => some null
  | 1 => some undefined
  | 2 => some scalar
  | 3 => some unknown
  | 4 => some array
  | 5 => some object
  | 6 => some union
  | _ => none

/-- A tag is written by its name; inside another shape its place is as good. -/
def tagOf? (isInner : Bool) : Json → Option Tag
  | .string name => Tag.ofName? name
  | value => if isInner then value.natural?.bind Tag.ofPlace? else none

/-- The kind of scalars with a name. -/
def scalarOfName? : String → Option Scalar
  | "string" => some .string
  | "number" => some .number
  | "boolean" => some .boolean
  | _ => none

/-- A kind of scalars is written by its name, alone or as the one key of an object that holds
nothing. -/
def scalarOf? : Json → Option Scalar
  | .string name => scalarOfName? name
  | .object [(name, .null)] | .object [(name, .object [])] => scalarOfName? name
  | _ => none

/-- The tag of a written shape and what is written beside it. -/
def opened? (isInner : Bool) : Json → Option (Tag × Json)
  | .object members => do
    let tag ← (← Json.single? members "kind").bind (tagOf? isInner)
    return (tag, .object (members.filter (·.1 != "kind")))
  | .array (tag :: rest) => do
    return (← tagOf? isInner tag, .array rest)
  | _ => none

/-- The one field of a written shape, by its name. -/
def onlyField? (name : String) (body : Json) : Option Json := do
  match ← Json.fields? [name] body with
  | [field] => field
  | _ => none

/-- The shape that a document of a depth below `bound` writes. -/
def read? : Nat → Bool → Json → Option Shape
  | 0, _, _ => none
  | bound + 1, isInner, value => do
    let (tag, body) ← opened? isInner value
    match tag with
    | .null => (Json.fields? [] body).map fun _ => null
    | .undefined => (Json.fields? [] body).map fun _ => undefined
    | .unknown => (Json.fields? [] body).map fun _ => unknown
    | .scalar => (onlyField? "scalar" body).bind scalarOf? |>.map scalar
    | .array => (onlyField? "element" body).bind (read? bound true) |>.map array
    | .object => (onlyField? "fields" body).bind (Json.listOf? fun field => do
        match ← Json.fields? ["name", "shape"] field with
        | [some name, some shape] => return (← name.text?, ← read? bound true shape)
        | _ => none) |>.map object
    | .union => (onlyField? "members" body).bind (Json.listOf? (read? bound true)) |>.map union

/-- The shape that a document writes.  The document is taken as written: a repeated member that
belongs to the shape is refused. -/
def ofJson? (value : Json) : Option Shape :=
  read? (value.depth + 1) false value

/-- The shape that a text writes. -/
def parse? (text : String) : Option Shape :=
  (Json.parseRaw text).toOption.bind ofJson?

end JsonShelf.Shape
