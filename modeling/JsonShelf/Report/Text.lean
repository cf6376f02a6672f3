/-
**Reports as plain text.**

Main definitions:

* `Report.files` — one line for each document;
* `Report.validation`, `Report.shape`, `Report.health` — the findings about a document.
-/

import JsonShelf.Health
import JsonShelf.Listing
import JsonShelf.Report.Size
import JsonShelf.Text.Blank

set_option autoImplicit false

namespace JsonShelf.Report

/-- What kind of document it is. -/
def kindName (isArray : Bool) : String :=
  if isArray then "array" else "object"

/-- What a line tells after the path: the error, or kind, number of records and size in columns. -/
def fileDetail (m : Metadata) : String :=
  match m.error with
  | some e => "error: " ++ e
  | none =>
    Text.padEnd 6 (kindName m.isArray) ++ "  " ++ Text.padStart 6 (toString m.recordCount) ++ " " ++
      Text.padEnd 7 (if m.recordCount = 1 then "record" else "records") ++ "  " ++
      Text.padStart 9 (size m.size)

/-- The width of the column of paths: the length in bytes of the longest one. -/
def pathWidth (summaries : List Summary) : Nat :=
  (summaries.map fun s => s.path.text.utf8ByteSize).foldl max 0

/-- One line for each document: path, kind, number of records and size. -/
def files (summaries : List Summary) : String :=
  if summaries.isEmpty then Text.lined ["No JSON files found."]
  else
    Text.lined (summaries.map fun s =>
      Text.padEnd (pathWidth summaries) s.path.text ++ "  " ++
        Text.trimEnd (fileDetail s.metadata))

/-- The issues of a document. -/
def validation (path : DocPath) (result : ValidationResult) : String :=
  if result.valid then Text.lined [path.text ++ ": valid"]
  else
    Text.lined ((path.text ++ ": " ++ toString result.errors.length ++ " issue(s)") ::
      result.errors.map fun issue => "  - " ++ issue.dotted)

/-- The shape of a record: of the elements of an array, or else of the document. -/
def recordShape : Shape → Shape
  | .array element => element
  | shape => shape

/-- The fields of an object shape. -/
def fieldsOf : Shape → List (String × Shape)
  | .object fields => fields
  | _ => []

/-- The label of a shape and of each field of its records. -/
def shape (path : DocPath) (s : Shape) : String :=
  Text.lined ((path.text ++ ": " ++ s.describe) ::
    (fieldsOf (recordShape s)).map fun field => "  " ++ field.1 ++ ": " ++ field.2.describe)

/-- The issues and suggestions about one document. -/
def healthOf (path : DocPath) (report : HealthReport) : String :=
  if report.hasIssues then
    Text.lined ((path.text ++ ":") :: report.issues.map ("  issue: " ++ ·) ++
      report.suggestions.map ("  suggestion: " ++ ·))
  else
    Text.lined [path.text ++ ": healthy"]

/-- The issues and suggestions about some documents. -/
def health (reports : List (DocPath × HealthReport)) : String :=
  String.join (reports.map fun (path, report) => healthOf path report)

end JsonShelf.Report
