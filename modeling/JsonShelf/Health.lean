/-
**Health of documents.**

A document is healthy if it parses, validates against its own shape, and is neither very deep nor a
very long array.

Main definitions:

* `HealthReport` — what is wrong, and what to do about it;
* `HealthReport.ofValue`, `HealthReport.ofText` — the report on a document.
-/

import JsonShelf.Validation.Check

set_option autoImplicit false

namespace JsonShelf

/-- What is wrong with a document, and what to do about it. -/
structure HealthReport where
  hasIssues : Bool
  issues : List String
  suggestions : List String
  deriving DecidableEq, Repr

/-- The depth up to which a document is not deep. -/
def healthyDepth : Nat := 10

/-- The length up to which an array is not long. -/
def healthyLength : Nat := 1000

/-- A reason to complain: the issues it lists and the suggestion it makes. -/
structure Reason where
  issues : List String
  suggestion : String
  deriving DecidableEq, Repr

namespace Reason

/-- A validation result that is not valid. -/
def ofValidation (suggestion : String) (result : ValidationResult) : Option Reason :=
  if result.valid then none else some ⟨result.errors.map Issue.dotted, suggestion⟩

/-- A document that is very deep. -/
def ofDepth (value : Json) : Option Reason :=
  if healthyDepth < value.depth then
    some ⟨["JSON structure is very deeply nested (>10 levels)"],
      "Consider flattening the structure for better performance"⟩
  else
    none

/-- A document that is a very long array. -/
def ofLength : Json → Option Reason
  | .array items =>
    if healthyLength < items.length then
      some ⟨["Large array detected (>1000 items)"],
        "Consider paginating or splitting into multiple files"⟩
    else
      none
  | _ => none

end Reason

namespace HealthReport

/-- The report that gives some reasons, in order. -/
def ofReasons (reasons : List Reason) : HealthReport :=
  let issues := reasons.flatMap Reason.issues
  ⟨!issues.isEmpty, issues, reasons.map Reason.suggestion⟩

/-- The report on a document. -/
def ofValue (value : Json) : HealthReport :=
  ofReasons <| [
    Reason.ofValidation "Normalize records so every element shares the same fields and types"
      (.ofIssues (validateValue value (Shape.infer value))),
    Reason.ofDepth value,
    Reason.ofLength value].filterMap id

/-- The report on a text. -/
def ofText (text : String) : HealthReport :=
  match Json.parse text with
  | .ok value => ofValue value
  | .error e =>
    ofReasons (Reason.ofValidation "Fix the JSON syntax before editing this file"
      (parseFailure e)).toList

/-- The document of a report. -/
def toJson (report : HealthReport) : Json :=
  .object [("hasIssues", .bool report.hasIssues), ("issues", Json.texts report.issues),
    ("suggestions", Json.texts report.suggestions)]

/-- The report that a document writes. -/
def ofJson? (value : Json) : Option HealthReport := do
  match ← Json.fields? ["hasIssues", "issues", "suggestions"] value with
  | [hasIssues, issues, suggestions] =>
    return ⟨← Json.required? Json.boolean? hasIssues,
      ← Json.required? (Json.listOf? Json.text?) issues,
      ← Json.required? (Json.listOf? Json.text?) suggestions⟩
  | _ => none

/-- The report that a text writes. -/
def parse? (text : String) : Option HealthReport :=
  (Json.parseRaw text).toOption.bind ofJson?

end HealthReport

end JsonShelf
