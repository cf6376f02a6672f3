/-
**The published schemas.**

Each kind of document that the program reads or writes has a schema, published in a file of its
own.

Main definitions:

* `JsonSchema.Published` — a schema with the name it is published under;
* `JsonSchema.published` — all of them.
-/

import JsonShelf.Json.Printer
import JsonShelf.JsonSchema.Basic

set_option autoImplicit false

namespace JsonShelf.JsonSchema

/-- A schema with the name it is published under. -/
structure Published where
  id : String
  schema : Json

namespace Published

/-- The name of the file. -/
def fileName (p : Published) : String := p.id ++ ".json"

/-- The text of the file. -/
def text (p : Published) : String := p.schema.pretty ++ "\n"

end Published

/-! ### Config files -/

/-- What a config file says about scans. -/
def scanConfig : Part :=
  record [
    ("max_depth", nullable "integer" ++ unsigned "uint"),
    ("ignore", described "Extra glob patterns matched against file and directory names."
      (listOf (typed "string") ++ default (.array []))),
    ("ignore_config_files", described
      ("Skip well-known tool config files (\x60package.json\x60, \x60tsconfig.json\x60, ...) " ++
        "at the data root.")
      (nullable "boolean"))] []

/-- Config files. -/
def config : Json :=
  document "JsonboardConfigV1" <| described
    ("\x60jsonboard.toml\x60 schema v1.\n\n" ++
      "This is a *user-facing* config model: every field is optional and unknown keys are " ++
      "ignored so\nforward-compat is easy.") <|
    record [
      ("schema", described "Optional schema string for tooling (\x60jsonboard.config.v1\x60)."
        (nullable "string")),
      ("dir", described
        "Directory holding the JSON files, relative to the config file's directory."
        (nullable "string")),
      ("port", described
        "Port of the browser UI. Recorded for compatibility; the CLI does not serve."
        (nullable "integer" ++ unsigned "uint16" ++ [("maximum", .ofInt 65535)])),
      ("open", nullable "boolean"),
      ("schema_out", described
        "Where \x60init-schema\x60 writes the generated module, relative to the data directory."
        (nullable "string")),
      ("scan", reference "ScanConfig" ++ default (.object [("ignore", .array [])]))] [] ++
    definitions [("ScanConfig", scanConfig)]

/-! ### Listings -/

/-- Paths of documents. -/
def dataPath : Part :=
  described
    ("Canonical path of a JSON file relative to the data directory.\n\n" ++
      "Normalization rules are intentionally simple and deterministic:\n" ++
      "- always forward slashes (\x60/\x60)\n" ++
      "- no leading \x60./\x60\n" ++
      "- never empty (\x60.\x60 stands for the data directory itself)")
    (typed "string")

/-- Facts about a document. -/
def fileMetadata : Part :=
  described "Per-file facts shown in listings." <|
    record [
      ("size", described "Size on disk in bytes." (typed "integer" ++ unsigned "uint64")),
      ("recordCount", described
        ("Array length for collection files, \x601\x60 for single-object files, \x600\x60 when " ++
          "unreadable.")
        (typed "integer" ++ unsigned "uint")),
      ("lastModified", nullable "string" ++ default .null),
      ("isArray", typed "boolean"),
      ("error", nullable "string")] ["size", "recordCount", "isArray"]

/-- A document and the facts about it. -/
def fileSummary : Part :=
  record [("filename", typed "string"), ("relativePath", reference "DataPath"),
    ("metadata", reference "FileMetadata")] ["filename", "relativePath", "metadata"]

/-- Listings. -/
def files : Json :=
  document "Array_of_FileSummary" <| listOf (reference "FileSummary") ++
    definitions [("FileSummary", fileSummary), ("DataPath", dataPath),
      ("FileMetadata", fileMetadata)]

/-- Documents with their content. -/
def fileView : Json :=
  document "FileView" <| described "A file's parsed content plus its metadata." <|
    objects
      (named [("filename", typed "string"), ("relativePath", reference "DataPath")] ++
        [("data", .bool true)] ++
        named [("isArray", typed "boolean"), ("metadata", reference "FileMetadata")])
      ["filename", "relativePath", "data", "isArray", "metadata"] ++
    definitions [("DataPath", dataPath), ("FileMetadata", fileMetadata)]

/-! ### Reports -/

/-- One step into a value. -/
def pathSegment : Part :=
  described "One step into a JSON value: an object key or an array index."
    [("anyOf", .array [.object (typed "integer" ++ unsigned "uint"), .object (typed "string")])]

/-- An issue found in a document. -/
def validationIssue : Part :=
  record [
    ("path", described "Location of the offending value; empty for the document root."
      (listOf (reference "PathSegment"))),
    ("message", typed "string")] ["path", "message"]

/-- Results of validation. -/
def validation : Json :=
  document "ValidationResult" <|
    record [("valid", typed "boolean"), ("errors", listOf (reference "ValidationIssue"))]
      ["valid", "errors"] ++
    definitions [("ValidationIssue", validationIssue), ("PathSegment", pathSegment)]

/-- Reports on the health of a document. -/
def health : Json :=
  document "HealthReport" <| described "Advisory structural diagnostics for one file." <|
    record [("hasIssues", typed "boolean"), ("issues", listOf (typed "string")),
      ("suggestions", listOf (typed "string"))] ["hasIssues", "issues", "suggestions"]

/-- All published schemas. -/
def published : List Published :=
  [⟨"jsonboard.config.v1", config⟩, ⟨"jsonboard.files.v1", files⟩,
    ⟨"jsonboard.file-view.v1", fileView⟩, ⟨"jsonboard.validation.v1", validation⟩,
    ⟨"jsonboard.health.v1", health⟩]

end JsonShelf.JsonSchema
