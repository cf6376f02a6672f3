/-
**Issues and validation results.**

Main definitions:

* `Issue` — a message about the value at a path;
* `Issue.dotted` — its text in listings;
* `ValidationResult` — the issues of a document.
-/

import JsonShelf.Json.Parser
import JsonShelf.Json.Path
import JsonShelf.Json.Payload
import JsonShelf.Json.Printer

set_option autoImplicit false

namespace JsonShelf

open Json (Segment)

/-- A message about the value at a path. -/
structure Issue where
  path : Json.Path
  message : String
  deriving DecidableEq, Repr

namespace Issue

/-- The steps of the path with points between them and the message; an issue about the whole
document is its message alone. -/
def dotted (issue : Issue) : String :=
  if issue.path.isEmpty then issue.message
  else ".".intercalate (issue.path.map Segment.text) ++ ": " ++ issue.message

/-- The document of a step. -/
def segmentToJson : Segment → Json
  | .index n => Json.ofInt n
  | .key k => .string k

/-- The step that a document writes: a natural number or a string. -/
def segmentOfJson? : Json → Option Segment
  | .string k => some (.key k)
  | value => value.natural?.map Segment.index

/-- The document of an issue. -/
def toJson (issue : Issue) : Json :=
  .object [("path", .array (issue.path.map segmentToJson)), ("message", .string issue.message)]

/-- The issue that a document writes. -/
def ofJson? (value : Json) : Option Issue := do
  match ← Json.fields? ["path", "message"] value with
  | [path, message] =>
    return ⟨← Json.required? (Json.listOf? segmentOfJson?) path,
      ← Json.required? Json.text? message⟩
  | _ => none

end Issue

/-- What validation found. -/
structure ValidationResult where
  valid : Bool
  errors : List Issue
  deriving DecidableEq, Repr

namespace ValidationResult

/-- Nothing was found. -/
def ok : ValidationResult := ⟨true, []⟩

/-- The result with the given issues, valid if there are none. -/
def ofIssues (errors : List Issue) : ValidationResult := ⟨errors.isEmpty, errors⟩

/-- The document of a result. -/
def toJson (result : ValidationResult) : Json :=
  .object [("valid", .bool result.valid), ("errors", .array (result.errors.map Issue.toJson))]

/-- The result that a document writes. -/
def ofJson? (value : Json) : Option ValidationResult := do
  match ← Json.fields? ["valid", "errors"] value with
  | [valid, errors] =>
    return ⟨← Json.required? Json.boolean? valid,
      ← Json.required? (Json.listOf? Issue.ofJson?) errors⟩
  | _ => none

/-- The result that a text writes. -/
def parse? (text : String) : Option ValidationResult :=
  (Json.parseRaw text).toOption.bind ofJson?

end ValidationResult

end JsonShelf
