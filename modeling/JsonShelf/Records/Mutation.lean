/-
**Changing collections.**

A collection is an array of records.  Each operation gives the new collection and the record it
concerns, or says why there is none.

Main definitions:

* `RecordError` — why a change is refused;
* `Mutation` — the new collection and the record concerned;
* `Records.append`, `Records.updateById`, `Records.updateByIndex`, `Records.deleteById` — the
  changes;
* `Records.patch?` — the members that a patch writes.
-/

import JsonShelf.Records.Identity

set_option autoImplicit false

namespace JsonShelf

/-- Why a change is refused. -/
inductive RecordError where
  | notArray
  | indexOutOfBounds (index length : Nat)
  | recordNotFound (id : Int64)
  | patchNotObject
  deriving DecidableEq

/-- The wording of a refusal. -/
def RecordError.message : RecordError → String
  | notArray => "file is not an array"
  | indexOutOfBounds index length =>
    "record index " ++ toString index ++ " out of bounds (length " ++ toString length ++ ")"
  | recordNotFound id => "record not found: id " ++ toString id.toInt
  | patchNotObject => "record patch must be a JSON object"

/-- The collection after a change, and the record that was created, updated or removed. -/
structure Mutation where
  root : Json
  record : Json
  deriving DecidableEq

namespace Records

/-- The members that a patch writes. -/
def patch? : Json → Except RecordError (Members Json)
  | .object members => .ok members
  | _ => .error .patchNotObject

/-- The records of a collection. -/
def records? (root : Json) : Except RecordError (List Json) :=
  match root with
  | .array records => .ok records
  | _ => .error .notArray

/-- The record with the next id, if it is an object whose id is missing or null. -/
def withId (records : List Json) : Json → Json
  | .object members =>
    match Members.get? idField members with
    | none | some .null => .object (Members.put idField (nextId records) members)
    | some _ => .object members
  | record => record

/-- The record with the members of a patch written over its own; a record that is no object has
none. -/
def merged (record : Json) (patch : Members Json) : Members Json :=
  Members.merge (record.members?.getD []) patch

/-- Adds a record at the end. -/
def append (root record : Json) : Except RecordError Mutation := do
  let records ← records? root
  let record := withId records record
  return ⟨.array (records ++ [record]), record⟩

/-- Writes a patch over the first record with the id, which keeps its id. -/
def updateById (root : Json) (id : Int64) (patch : Members Json) : Except RecordError Mutation := do
  let records ← records? root
  match position? id records with
  | none => .error (.recordNotFound id)
  | some n =>
    let old := records[n]?.getD .null
    let kept := (old.get? idField).getD (.number (.ofInt64 id))
    let new := Json.object (Members.put idField kept (merged old patch))
    return ⟨.array (records.set n new), new⟩

/-- Writes a patch over the record at a place. -/
def updateByIndex (root : Json) (index : Nat) (patch : Members Json) :
    Except RecordError Mutation := do
  let records ← records? root
  match records[index]? with
  | none => .error (.indexOutOfBounds index records.length)
  | some old =>
    let new := Json.object (merged old patch)
    return ⟨.array (records.set index new), new⟩

/-- Takes out the first record with the id. -/
def deleteById (root : Json) (id : Int64) : Except RecordError Mutation := do
  let records ← records? root
  match position? id records with
  | none => .error (.recordNotFound id)
  | some n => return ⟨.array (records.eraseIdx n), records[n]?.getD .null⟩

end Records

end JsonShelf
