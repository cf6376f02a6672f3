/-
**Parts of JSON Schemas.**

A schema is a JSON document, put together here from members in the order in which they are written.

Main definitions:

* `JsonSchema.Part` — members of a schema;
* `JsonSchema.typed`, `JsonSchema.nullable`, `JsonSchema.unsigned` — schemas of single values;
* `JsonSchema.reference`, `JsonSchema.listOf`, `JsonSchema.record` — schemas made of others;
* `JsonSchema.document` — a whole schema.
-/

import JsonShelf.Json.Payload

set_option autoImplicit false

namespace JsonShelf.JsonSchema

/-- Members of a schema, in order. -/
abbrev Part := Members Json

/-- Values of one kind. -/
def typed (kind : String) : Part := [("type", .string kind)]

/-- Values of one kind, or null. -/
def nullable (kind : String) : Part := [("type", Json.texts [kind, "null"])]

/-- What the values mean. -/
def described (text : String) (part : Part) : Part := ("description", .string text) :: part

/-- Whole numbers from zero, of a format. -/
def unsigned (format : String) : Part := [("format", .string format), ("minimum", .ofInt 0)]

/-- The values of a named schema. -/
def reference (name : String) : Part := [("$ref", .string ("#/$defs/" ++ name))]

/-- What stands for a missing value. -/
def default (value : Json) : Part := [("default", value)]

/-- Arrays of values. -/
def listOf (items : Part) : Part := typed "array" ++ [("items", .object items)]

/-- Schemas by name. -/
def named (parts : List (String × Part)) : Members Json :=
  parts.map fun (name, part) => (name, .object part)

/-- Objects with the members of some schemas, and the names of those that have to be there. -/
def objects (members : Members Json) (required : List String) : Part :=
  typed "object" ++ [("properties", .object members)] ++
    if required.isEmpty then [] else [("required", Json.texts required)]

/-- Objects all of whose members have a schema put together from parts. -/
def record (members : List (String × Part)) (required : List String) : Part :=
  objects (named members) required

/-- Schemas that can be referred to by name. -/
def definitions (parts : List (String × Part)) : Part :=
  [("$defs", .object (named parts))]

/-- A whole schema: the version of the language, a title, and what it says. -/
def document (title : String) (part : Part) : Json :=
  .object ([("$schema", .string "https://json-schema.org/draft/2020-12/schema"),
    ("title", .string title)] ++ part)

end JsonShelf.JsonSchema
