/-
**Why work on a shelf fails.**

Main definitions:

* `ShelfError` — the causes, with the wording;
* `ShelfError.chain` — a failure and what caused it;
* `UseCase` — scripts of calls on a store that may fail.
-/

import JsonShelf.Json.ParseError
import JsonShelf.Records.Mutation
import JsonShelf.Store.Call
import JsonShelf.Zod.Names

set_option autoImplicit false

namespace JsonShelf

/-- Why work on a shelf fails. -/
inductive ShelfError where
  /-- A stored text does not parse. -/
  | parse (path : DocPath) (e : Json.ParseError)
  | record (e : RecordError)
  | clash (e : Zod.NameClash)
  | store (e : StoreError)

namespace ShelfError

/-- The wording of a failure. -/
def message : ShelfError → String
  | parse path e => "failed to parse " ++ path.text ++ ": " ++ e.message
  | record e => e.message
  | clash e => e.message
  | store e => e.message

/-- The failure and what caused it, outermost first. -/
def chain : ShelfError → List String
  | store e => e.chain
  | e => [e.message]

end ShelfError

/-- A script of calls on a store that may fail. -/
abbrev UseCase := ExceptT ShelfError StoreScript

namespace UseCase

/-- A script whose reply may be a failure of the store. -/
def ofStore {α : Type} (script : StoreScript (Except StoreError α)) : UseCase α :=
  ExceptT.mk do return (← script).mapError ShelfError.store

/-- A change of a collection that may be refused. -/
def ofRecords {α : Type} (result : Except RecordError α) : UseCase α :=
  ExceptT.mk (pure (result.mapError ShelfError.record))

/-- What comes of a use case, whether it fails or not. -/
def outcome {α : Type} (useCase : UseCase α) : UseCase (Except ShelfError α) :=
  ExceptT.lift useCase.run

end UseCase

end JsonShelf
