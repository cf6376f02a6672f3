/-
**Working with records.**

A collection is read, changed and written back; a change that is refused writes nothing.

Main definitions:

* `Shelf.addRecord`, `Shelf.updateRecordById`, `Shelf.updateRecordByIndex`, `Shelf.deleteRecord` —
  the changes, each with the record concerned as result.
-/

import JsonShelf.Shelf.Documents

set_option autoImplicit false

namespace JsonShelf.Shelf

/-- Reads a collection, changes it and writes it back. -/
def mutate (path : DocPath) (change : Json → Except RecordError Mutation) : UseCase Json := do
  let mutation ← UseCase.ofRecords (change (← load path))
  writeText path mutation.root.pretty
  return mutation.record

/-- Adds a record, with an id if it has none. -/
def addRecord (path : DocPath) (record : Json) : UseCase Json :=
  mutate path fun root => Records.append root record

/-- Writes a patch over the record with an id. -/
def updateRecordById (path : DocPath) (id : Int64) (patch : Json) : UseCase Json := do
  let patch ← UseCase.ofRecords (Records.patch? patch)
  mutate path fun root => Records.updateById root id patch

/-- Writes a patch over the record at a place. -/
def updateRecordByIndex (path : DocPath) (index : Nat) (patch : Json) : UseCase Json := do
  let patch ← UseCase.ofRecords (Records.patch? patch)
  mutate path fun root => Records.updateByIndex root index patch

/-- Takes out the record with an id. -/
def deleteRecord (path : DocPath) (id : Int64) : UseCase Json :=
  mutate path fun root => Records.deleteById root id

end JsonShelf.Shelf
