/-
**Looking at documents.**

Main definitions:

* `Shelf.validate` — the issues of a document against its own shape;
* `Shelf.health`, `Shelf.healthOfAll` — what is wrong with one document, or with each;
* `Shelf.shape` — the shape of a document;
* `Shelf.schemaModule` — the module generated for all documents.
-/

import JsonShelf.Health
import JsonShelf.Shelf.Documents
import JsonShelf.Zod.Module

set_option autoImplicit false

namespace JsonShelf.Shelf

/-- The issues of a document against its own shape.  A text that does not parse is an issue and no
failure. -/
def validate (path : DocPath) : UseCase ValidationResult := do
  return validateText (← readText path)

/-- What is wrong with a document. -/
def health (path : DocPath) : UseCase HealthReport := do
  return HealthReport.ofText (← readText path)

/-- What is wrong with each document that can be read. -/
def healthOfAll : UseCase (List (DocPath × HealthReport)) := do
  forEachReadable health (← paths)

/-- The shape of a document. -/
def shape (path : DocPath) : UseCase Shape := do
  return Shape.infer (← load path)

/-- A generated module and the documents it covers. -/
structure SchemaModule where
  text : String
  paths : List DocPath
  deriving DecidableEq

/-- What a module declares about a document. -/
def source (path : DocPath) : UseCase Zod.Source := do
  let value ← load path
  return ⟨path, Shape.infer value, value⟩

/-- The module generated for all documents.  The time of generation is told if it can be
written. -/
def schemaModule (generatedAt : Option Timestamp) : UseCase SchemaModule := do
  let paths ← paths
  let sources ← paths.mapM source
  match Zod.moduleOf (generatedAt.bind Timestamp.toRfc3339?) sources with
  | .ok text => return ⟨text, paths⟩
  | .error clash => throw (.clash clash)

end JsonShelf.Shelf
