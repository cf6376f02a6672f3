/-
**Reports as Markdown.**

Main definitions:

* `Report.Markdown.files` — a table of documents;
* `Report.Markdown.health` — the issues of the documents that have some.
-/

import JsonShelf.Report.Text

set_option autoImplicit false

namespace JsonShelf.Report.Markdown

/-- A row of a table. -/
def row (cells : List String) : String :=
  "| " ++ " | ".intercalate cells ++ " |"

/-- The text in the type of code. -/
def code (s : String) : String := "\x60" ++ s ++ "\x60"

/-- The row of a document. -/
def fileRow (s : Summary) : String :=
  let m := s.metadata
  let (kind, count) := match m.error with
    | some e => ("error: " ++ e, "-")
    | none => (kindName m.isArray, toString m.recordCount)
  row [code s.path.text, kind, count, size m.size,
    (m.lastModified.bind Timestamp.toRfc3339?).getD "-"]

/-- A table of documents. -/
def files (summaries : List Summary) : String :=
  Text.lined (["# JSON files", ""] ++
    if summaries.isEmpty then ["No JSON files found."]
    else
      [row ["File", "Kind", "Records", "Size", "Last modified"], "|---|---|---:|---:|---|"] ++
        summaries.map fileRow)

/-- The issues and suggestions about one document. -/
def healthSection (path : DocPath) (report : HealthReport) : List String :=
  ["### " ++ code path.text, ""] ++ report.issues.map ("- " ++ ·) ++
    (if report.suggestions.isEmpty then [] else "" :: report.suggestions.map ("> " ++ ·)) ++ [""]

/-- How many documents there are, and the issues of those that have some. -/
def health (reports : List (DocPath × HealthReport)) : String :=
  let flagged := reports.filter (·.2.hasIssues)
  Text.lined (["# Jsonboard health report", "", "- Files: " ++ toString reports.length,
      "- With issues: " ++ toString flagged.length, ""] ++
    if flagged.isEmpty then ["No issues."]
    else ["## Issues", ""] ++ flagged.flatMap fun (path, report) => healthSection path report)

end JsonShelf.Report.Markdown
