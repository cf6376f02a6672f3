/-
**What each change of a collection does.**

One statement for each operation says when it succeeds and what it gives; proofs about changes start
from these and never look inside the operations.

Main definitions:

* `Records.patchedById` — a record after a patch that leaves its id alone;
* `RecordCommand` — the changes of a collection, with their arguments.

Main results:

* `Records.append_eq_ok`, `Records.updateById_eq_ok`, `Records.updateByIndex_eq_ok`,
  `Records.deleteById_eq_ok` — **the operations, when they succeed**;
* `Records.updateById_eq_recordNotFound`, `Records.deleteById_eq_recordNotFound`,
  `Records.updateByIndex_eq_indexOutOfBounds` — when no record is found;
* `Records.position?_eq_some` — the place of the first record with an id;
* `Records.withId_eq_or` — what a record becomes when it is added.
-/

import JsonShelf.Records.Mutation
import JsonShelf.Proofs.Computation
import JsonShelf.Proofs.Json.Nesting

set_option autoImplicit false

namespace JsonShelf

namespace Records

variable {root record old new : Json} {records : List Json} {id : Int64} {patch : Members Json}
  {mutation : Mutation}

/-! ### Ids -/

theorem get?_of_id? {n : Number} (h : id? record = some n) :
    record.get? idField = some (.number n) := by
  unfold id? at h
  split at h
  · next heq => cases h; exact heq
  · cases h

theorem id?_of_get? {n : Number} (h : record.get? idField = some (.number n)) :
    id? record = some n := by
  rw [id?, h]

theorem exists_id?_of_hasId (h : hasId id record = true) :
    ∃ n, id? record = some n ∧ matchesId n id = true := by
  unfold hasId at h
  cases hn : id? record with
  | none => rw [hn] at h; cases h
  | some n => rw [hn] at h; exact ⟨n, rfl, h⟩

theorem hasId_of_id? {n : Number} (h : id? record = some n) :
    hasId id record = matchesId n id := by
  rw [hasId, h]

/-- A record in the place of another that looks the same leaves the looks of all records. -/
theorem map_set {β : Type} {look : Json → β} {i : ℕ} (hold : records[i]? = some old)
    (hnew : look new = look old) : (records.set i new).map look = records.map look := by
  obtain ⟨hi, rfl⟩ := List.getElem?_eq_some_iff.1 hold
  have hi : i < (records.map look).length := by rwa [List.length_map]
  have hhere : (records.map look)[i] = look records[i] := List.getElem_map look
  rw [List.map_set, hnew, ← hhere, List.set_getElem_self]

/-- The place of the first record with a property. -/
theorem findIdx?_eq_some {p : Json → Bool} {n : ℕ} :
    records.findIdx? p = some n ↔
      ∃ old, records[n]? = some old ∧ p old = true ∧
        ∀ j < n, ∀ other, records[j]? = some other → p other = false := by
  rw [List.findIdx?_eq_some_iff_getElem]
  constructor
  · rintro ⟨hn, hhas, hfirst⟩
    refine ⟨records[n], List.getElem?_eq_getElem hn, hhas, ?_⟩
    intro j hj other hother
    obtain ⟨hlt, rfl⟩ := List.getElem?_eq_some_iff.1 hother
    exact Bool.eq_false_iff.2 (hfirst j hj)
  · rintro ⟨old, hold, hhas, hfirst⟩
    obtain ⟨hn, rfl⟩ := List.getElem?_eq_some_iff.1 hold
    refine ⟨hn, hhas, ?_⟩
    intro j hj
    rw [hfirst j hj _ (List.getElem?_eq_getElem (Nat.lt_trans hj hn))]
    exact Bool.false_ne_true

/-- The place of the first record with an id. -/
theorem position?_eq_some {n : ℕ} :
    position? id records = some n ↔
      ∃ old, records[n]? = some old ∧ hasId id old = true ∧
        ∀ j < n, ∀ other, records[j]? = some other → hasId id other = false :=
  findIdx?_eq_some

theorem hasId_of_position? {n : ℕ} (hn : position? id records = some n)
    (hold : records[n]? = some old) : hasId id old = true := by
  obtain ⟨found, hfound, hhas, -⟩ := position?_eq_some.1 hn
  rwa [Option.some.inj (hold.symm.trans hfound)]

/-! ### The operations -/

theorem records?_eq_ok : records? root = .ok records ↔ root = .array records := by
  cases root with
  | array items => exact ⟨fun h => by cases h; rfl, fun h => by cases h; rfl⟩
  | null | bool | number | string | object =>
      constructor
      · intro h
        cases h
      · intro h
        cases h

theorem patch?_eq_ok {value : Json} : patch? value = .ok patch ↔ value = .object patch := by
  cases value with
  | object members => exact ⟨fun h => by cases h; rfl, fun h => by cases h; rfl⟩
  | null | bool | number | string | array =>
      constructor
      · intro h
        cases h
      · intro h
        cases h

/-- A record after a patch that leaves its id alone; a record without one gets the id. -/
def patchedById (id : Int64) (old : Json) (patch : Members Json) : Json :=
  .object (Members.put idField ((old.get? idField).getD (.number (.ofInt64 id))) (merged old patch))

theorem patchedById_of_id? {n : Number} (h : id? old = some n) :
    patchedById id old patch = .object (Members.put idField (.number n) (merged old patch)) := by
  rw [patchedById, get?_of_id? h]
  rfl

theorem append_eq_ok :
    append root record = .ok mutation ↔ ∃ records, root = .array records ∧
      mutation = ⟨.array (records ++ [withId records record]), withId records record⟩ := by
  rw [append, bind_eq_ok]
  constructor
  · rintro ⟨records, hrecords, h⟩
    exact ⟨records, records?_eq_ok.1 hrecords, (Except.ok.inj h).symm⟩
  · rintro ⟨records, hrecords, rfl⟩
    exact ⟨records, records?_eq_ok.2 hrecords, rfl⟩

theorem updateById_eq_ok :
    updateById root id patch = .ok mutation ↔ ∃ records n old, root = .array records ∧
      position? id records = some n ∧ records[n]? = some old ∧
      mutation = ⟨.array (records.set n (patchedById id old patch)), patchedById id old patch⟩ := by
  rw [updateById, bind_eq_ok]
  constructor
  · rintro ⟨records, hrecords, h⟩
    cases hn : position? id records with
    | none => rw [hn] at h; cases h
    | some n =>
        obtain ⟨old, hold, _⟩ := position?_eq_some.1 hn
        rw [hn] at h
        have hmutation := Except.ok.inj h
        rw [hold] at hmutation
        exact ⟨records, n, old, records?_eq_ok.1 hrecords, hn, hold, hmutation.symm⟩
  · rintro ⟨records, n, old, hrecords, hn, hold, rfl⟩
    refine ⟨records, records?_eq_ok.2 hrecords, ?_⟩
    rw [hn]
    simp only [hold]
    rfl

theorem updateByIndex_eq_ok {index : ℕ} :
    updateByIndex root index patch = .ok mutation ↔ ∃ records old, root = .array records ∧
      records[index]? = some old ∧
      mutation = ⟨.array (records.set index (.object (merged old patch))),
        .object (merged old patch)⟩ := by
  rw [updateByIndex, bind_eq_ok]
  constructor
  · rintro ⟨records, hrecords, h⟩
    cases hold : records[index]? with
    | none => rw [hold] at h; cases h
    | some old =>
        rw [hold] at h
        exact ⟨records, old, records?_eq_ok.1 hrecords, hold, (Except.ok.inj h).symm⟩
  · rintro ⟨records, old, hrecords, hold, rfl⟩
    refine ⟨records, records?_eq_ok.2 hrecords, ?_⟩
    rw [hold]
    rfl

theorem deleteById_eq_ok :
    deleteById root id = .ok mutation ↔ ∃ records n old, root = .array records ∧
      position? id records = some n ∧ records[n]? = some old ∧
      mutation = ⟨.array (records.eraseIdx n), old⟩ := by
  rw [deleteById, bind_eq_ok]
  constructor
  · rintro ⟨records, hrecords, h⟩
    cases hn : position? id records with
    | none => rw [hn] at h; cases h
    | some n =>
        obtain ⟨old, hold, _⟩ := position?_eq_some.1 hn
        rw [hn] at h
        have hmutation := Except.ok.inj h
        rw [hold] at hmutation
        exact ⟨records, n, old, records?_eq_ok.1 hrecords, hn, hold, hmutation.symm⟩
  · rintro ⟨records, n, old, hrecords, hn, hold, rfl⟩
    refine ⟨records, records?_eq_ok.2 hrecords, ?_⟩
    rw [hn]
    simp only [hold]
    rfl

/-- A patch by id is refused just when no record is found. -/
theorem updateById_eq_recordNotFound :
    updateById (.array records) id patch = .error (.recordNotFound id) ↔
      position? id records = none := by
  cases hn : position? id records with
  | none => exact iff_of_true (by simp only [updateById, records?, bind, Except.bind, hn]) rfl
  | some n =>
      obtain ⟨old, hold, _⟩ := position?_eq_some.1 hn
      rw [updateById_eq_ok.2 ⟨records, n, old, rfl, hn, hold, rfl⟩]
      exact ⟨nofun, nofun⟩

/-- A deletion is refused just when no record is found. -/
theorem deleteById_eq_recordNotFound :
    deleteById (.array records) id = .error (.recordNotFound id) ↔
      position? id records = none := by
  cases hn : position? id records with
  | none => exact iff_of_true (by simp only [deleteById, records?, bind, Except.bind, hn]) rfl
  | some n =>
      obtain ⟨old, hold, _⟩ := position?_eq_some.1 hn
      rw [deleteById_eq_ok.2 ⟨records, n, old, rfl, hn, hold, rfl⟩]
      exact ⟨nofun, nofun⟩

/-- A patch by place is refused just when there is no such place. -/
theorem updateByIndex_eq_indexOutOfBounds {index : ℕ} :
    updateByIndex (.array records) index patch = .error (.indexOutOfBounds index records.length) ↔
      records.length ≤ index := by
  rcases Nat.lt_or_ge index records.length with hlt | hge
  · rw [updateByIndex_eq_ok.2 ⟨records, _, rfl, List.getElem?_eq_getElem hlt, rfl⟩]
    exact iff_of_false nofun (Nat.not_le.2 hlt)
  · have hnone : records[index]? = none := List.getElem?_eq_none hge
    exact iff_of_true (by simp only [updateByIndex, records?, bind, Except.bind, hnone]) hge

/-! ### Records that are added -/

theorem withId_object {members : Members Json}
    (hid : Members.get? idField members = none ∨ Members.get? idField members = some .null) :
    withId records (.object members) = .object (Members.put idField (nextId records) members) := by
  rcases hid with h | h <;> simp only [withId, h]

/-- An added record is as it was given, or has the next id in place of a missing or null one. -/
theorem withId_eq_or (records : List Json) (record : Json) :
    withId records record = record ∨ ∃ members, record = .object members ∧
      (Members.get? idField members = none ∨ Members.get? idField members = some .null) ∧
      withId records record = .object (Members.put idField (nextId records) members) := by
  cases record with
  | null | bool | number | string | array => exact .inl rfl
  | object members =>
      cases hget : Members.get? idField members with
      | none => exact .inr ⟨members, rfl, .inl hget, withId_object (.inl hget)⟩
      | some value =>
          cases value with
          | null => exact .inr ⟨members, rfl, .inr hget, withId_object (.inr hget)⟩
          | bool | number | string | array | object => exact .inl (by simp only [withId, hget])

end Records

/-! ### Changes as data -/

/-- A change of a collection, with its arguments. -/
inductive RecordCommand where
  | add (record : Json)
  | updateById (id : Int64) (patch : Json)
  | updateByIndex (index : ℕ) (patch : Json)
  | delete (id : Int64)

/-- The change on a root. -/
def RecordCommand.mutation (root : Json) : RecordCommand → Except RecordError Mutation
  | add record => Records.append root record
  | updateById id patch => do Records.updateById root id (← Records.patch? patch)
  | updateByIndex index patch => do Records.updateByIndex root index (← Records.patch? patch)
  | delete id => Records.deleteById root id

end JsonShelf
