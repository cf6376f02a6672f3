/-
**The identity of records.**

A record is known by the number in its field `id`.  Ids are compared as numbers, whether they were
written as whole numbers or not.

Main definitions:

* `Records.id?` — the number that a record carries as id;
* `Records.hasId` — does a record carry an id?
* `Records.position?` — the first record with an id;
* `Records.nextId` — the id of a new record: one more than the greatest there is.
-/

import JsonShelf.Json.Basic

set_option autoImplicit false

namespace JsonShelf.Records

/-- The field that holds the id of a record. -/
def idField : String := "id"

/-- The number that a record carries as id. -/
def id? (record : Json) : Option Number :=
  match record.get? idField with
  | some (.number n) => some n
  | _ => none

/-- Does a number stand for the id?  A whole number of 64 signed bits is compared exactly, any
other number with the id as a binary64 number. -/
def matchesId (n : Number) (id : Int64) : Bool :=
  match n.toInt64? with
  | some value => value == id.toInt
  | none => n.toBinary64.sameValue (Binary64.ofInt id.toInt)

/-- Does the record carry the id? -/
def hasId (id : Int64) (record : Json) : Bool :=
  match id? record with
  | some n => matchesId n id
  | none => false

/-- The place of the first record with the id. -/
def position? (id : Int64) (records : List Json) : Option Nat :=
  records.findIdx? (hasId id)

/-- The greatest of some whole numbers. -/
def greatestInt (first : Int) (rest : List Int) : Int :=
  rest.foldl max first

/-- The greatest of some binary64 numbers. -/
def greatestFloat (first : Binary64) (rest : List Binary64) : Binary64 :=
  rest.foldl Binary64.max first

/-- The number by which a record counts for the next id: its own id, or else zero. -/
def idOrZero (record : Json) : Number :=
  (id? record).getD (.ofInt64 0)

/-- A binary64 number as an id: as a whole number if it is one of less than 63 bits. -/
def idOfFloat (x : Binary64) : Json :=
  match x.toInt? with
  | some value => if value.natAbs < 2 ^ 63 then Json.ofInt value else .number (.float x)
  | none => .number (.float x)

/-- One more than the greatest of some numbers, computed in binary64. -/
def successorFloat (first : Number) (rest : List Number) : Json :=
  match (greatestFloat first.toBinary64 (rest.map Number.toBinary64)).addOne? with
  | some next => idOfFloat next
  | none => .null

/-- The id of a new record: one more than the greatest id, exactly if all ids and the result are
whole numbers of 64 signed bits and otherwise in binary64.  The first record is number one. -/
def nextId (records : List Json) : Json :=
  match records.map idOrZero with
  | [] => Json.ofInt 1
  | first :: rest =>
    match (first :: rest).mapM Number.toInt64? with
    | some (n :: ns) =>
      if greatestInt n ns + 1 < 2 ^ 63 then Json.ofInt (greatestInt n ns + 1)
      else successorFloat first rest
    | _ => successorFloat first rest

end JsonShelf.Records
