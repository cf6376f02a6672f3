/-
**What listings tell about documents.**

Main definitions:

* `Metadata`, `Summary`, `View` — facts about a document, with its name and with its content;
* `Metadata.describing` — the facts about a stored text;
* `Summary.toJson?`, `View.toJson?` — their documents, if the time of change can be written;
* `DocPath.ofJson?`, `Summary.ofJson?`, `View.ofJson?` — what documents write;
* `Summary.parse?`, `Summary.parseList?`, `View.parse?` — what texts write.
-/

import JsonShelf.Json.Parser
import JsonShelf.Json.Payload
import JsonShelf.Paths.DocPath
import JsonShelf.Timestamp

set_option autoImplicit false

namespace JsonShelf

/-- Facts about a stored document. -/
structure Metadata where
  /-- The length of the text in bytes. -/
  size : Nat
  /-- The length of an array, and one for any other document. -/
  recordCount : Nat
  lastModified : Option Timestamp
  isArray : Bool
  /-- What is wrong with the document. -/
  error : Option String
  deriving DecidableEq, Repr

/-- A document and the facts about it. -/
structure Summary where
  fileName : String
  path : DocPath
  metadata : Metadata
  deriving DecidableEq, Repr

/-- A document with its content. -/
structure View where
  fileName : String
  path : DocPath
  data : Json
  metadata : Metadata

/-- The path that a document writes.  It is taken as it stands. -/
def DocPath.ofJson? (value : Json) : Option DocPath :=
  value.text?.map DocPath.mk

namespace Metadata

/-- The facts about a text of a size and time of change, with the value it writes, if any. -/
def describing (size : Nat) (modified : Option Timestamp) : Option Json → Metadata
  | some (.array items) => ⟨size, items.length, modified, true, none⟩
  | some _ => ⟨size, 1, modified, false, none⟩
  | none => ⟨size, 0, modified, false, some "Invalid JSON"⟩

/-- The document of a time of change, if the time can be written. -/
def timeToJson? : Option Timestamp → Option Json
  | none => some .null
  | some t => t.toRfc3339?.map Json.string

/-- The time of change that a document writes. -/
def timeOfJson? (value : Json) : Option Timestamp :=
  value.text?.bind Timestamp.ofRfc3339?

/-- The document of the facts, if the time of change can be written. -/
def toJson? (m : Metadata) : Option Json := do
  let modified ← timeToJson? m.lastModified
  return .object ([("size", Json.ofInt m.size), ("recordCount", Json.ofInt m.recordCount),
    ("lastModified", modified), ("isArray", .bool m.isArray)] ++
    (m.error.map fun e => ("error", Json.string e)).toList)

/-- The facts that a document writes; time and error may be missing. -/
def ofJson? (value : Json) : Option Metadata := do
  match ← Json.fields? ["size", "recordCount", "lastModified", "isArray", "error"] value with
  | [size, recordCount, lastModified, isArray, error] =>
    return {
      size := ← Json.required? Json.natural? size
      recordCount := ← Json.required? Json.natural? recordCount
      lastModified := ← Json.optional? timeOfJson? lastModified
      isArray := ← Json.required? Json.boolean? isArray
      error := ← Json.optional? Json.text? error }
  | _ => none

end Metadata

namespace Summary

/-- The document of a summary, if the time of change can be written. -/
def toJson? (s : Summary) : Option Json := do
  return .object [("filename", .string s.fileName), ("relativePath", .string s.path.text),
    ("metadata", ← s.metadata.toJson?)]

/-- The summary that a document writes.  Its path is taken as it stands. -/
def ofJson? (value : Json) : Option Summary := do
  match ← Json.fields? ["filename", "relativePath", "metadata"] value with
  | [fileName, path, metadata] =>
    return {
      fileName := ← Json.required? Json.text? fileName
      path := ⟨← Json.required? Json.text? path⟩
      metadata := ← Json.required? Metadata.ofJson? metadata }
  | _ => none

/-- The summary that a text writes. -/
def parse? (text : String) : Option Summary :=
  (Json.parseRaw text).toOption.bind ofJson?

/-- The document of several summaries. -/
def listToJson? (summaries : List Summary) : Option Json :=
  (summaries.mapM toJson?).map Json.array

/-- The summaries that a text writes. -/
def parseList? (text : String) : Option (List Summary) :=
  (Json.parseRaw text).toOption.bind (Json.listOf? ofJson?)

end Summary

namespace View

/-- Is the content an array? -/
def isArray (v : View) : Bool := v.data.items?.isSome

/-- The document of a view, if the time of change can be written. -/
def toJson? (v : View) : Option Json := do
  return .object [("filename", .string v.fileName), ("relativePath", .string v.path.text),
    ("data", v.data), ("isArray", .bool v.isArray), ("metadata", ← v.metadata.toJson?)]

/-- The view that a document writes, and whether it calls the content an array, which the content
need not be.  Its path is taken as it stands. -/
def ofJson? (value : Json) : Option (View × Bool) := do
  match ← Json.fields? ["filename", "relativePath", "data", "isArray", "metadata"] value with
  | [fileName, path, data, isArray, metadata] =>
    let view : View := {
      fileName := ← Json.required? Json.text? fileName
      path := ← Json.required? DocPath.ofJson? path
      data := (← data).canonical
      metadata := ← Json.required? Metadata.ofJson? metadata }
    return (view, ← Json.required? Json.boolean? isArray)
  | _ => none

/-- The view that a text writes, and whether the text calls the content an array. -/
def parse? (text : String) : Option (View × Bool) :=
  (Json.parseRaw text).toOption.bind ofJson?

end View

end JsonShelf
