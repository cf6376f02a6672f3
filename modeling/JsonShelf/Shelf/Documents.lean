/-
**Working with whole documents.**

Main definitions:

* `Shelf.list` — the summaries of all documents;
* `Shelf.read`, `Shelf.save`, `Shelf.create`, `Shelf.delete` — one document;
* `Shelf.load` — the value that a stored text writes.
-/

import JsonShelf.Json.Printer
import JsonShelf.Listing
import JsonShelf.Shelf.Error

set_option autoImplicit false

namespace JsonShelf.Shelf

/-- The text of a document. -/
def readText (path : DocPath) : UseCase String :=
  .ofStore (Script.perform (StoreCall.readText path))

/-- Makes a text the whole text of a document. -/
def writeText (path : DocPath) (text : String) : UseCase Unit :=
  .ofStore (Script.perform (StoreCall.writeText path text))

/-- What is known of a document without reading it. -/
def facts (path : DocPath) : UseCase StoredFacts :=
  .ofStore (Script.perform (StoreCall.facts path))

/-- The paths of all documents that are listed. -/
def paths : UseCase (List DocPath) :=
  .ofStore (Script.perform StoreCall.list)

/-- The value that a stored text writes. -/
def load (path : DocPath) : UseCase Json := do
  match Json.parse (← readText path) with
  | .ok value => return value
  | .error e => throw (.parse path e)

/-- The summary of a document, which need not parse. -/
def summarize (path : DocPath) : UseCase Summary := do
  let facts ← facts path
  let value := (Json.parse (← readText path)).toOption
  return ⟨path.fileName, path, .describing facts.size facts.modified value⟩

/-- The results for the paths for which a use case does not fail. -/
def forEachReadable {α : Type} (useCase : DocPath → UseCase α) :
    List DocPath → UseCase (List (DocPath × α))
  | [] => return []
  | path :: rest => do
    match ← UseCase.outcome (useCase path) with
    | .ok result => return (path, result) :: (← forEachReadable useCase rest)
    | .error _ => forEachReadable useCase rest

/-- The summaries of all documents; those that cannot be read are left out. -/
def list : UseCase (List Summary) := do
  return (← forEachReadable summarize (← paths)).map Prod.snd

/-- A document with its content. -/
def read (path : DocPath) : UseCase View := do
  let facts ← facts path
  let value ← load path
  return ⟨path.fileName, path, value, .describing facts.size facts.modified (some value)⟩

/-- Writes a document, and tells whether it is new. -/
def save (path : DocPath) (value : Json) : UseCase Bool := do
  let wasThere ← UseCase.ofStore (Script.perform (StoreCall.contains path))
  writeText path value.pretty
  return !wasThere

/-- Makes a document that must not exist; an empty collection if no value is given. -/
def create (path : DocPath) (value : Option Json) : UseCase Unit :=
  .ofStore (Script.perform (StoreCall.createText path (value.getD (.array [])).pretty))

/-- Takes away a document. -/
def delete (path : DocPath) : UseCase Unit :=
  .ofStore (Script.perform (StoreCall.remove path))

end JsonShelf.Shelf
