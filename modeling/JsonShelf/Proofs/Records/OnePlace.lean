/-
**Each change touches one place.**

A change of a collection is refused for one reason only: there is no collection, or there is no
record at the place that is asked for.  Otherwise it puts a record at the end, puts one in the place
of another, or takes one out; all other records stay as they are, in their order.

Main definitions:

* `Records.IsFirst` — a record is the first with an id;
* `Records.NotFound`, `Records.OutOfBounds` — the faults of the changes;
* `Records.Replaces`, `Records.Removes` — what a change does to the records;
* `Records.Contract` — when a change is refused, and what it does otherwise.

Main results:

* `Records.missing_or_isFirst` — no record has an id, or there is a first one that has it;
* `Records.updateById_split`, `Records.updateByIndex_split`, `Records.deleteById_split` — what the
  changes do to a record that stands between others;
* `Records.contract_of_outcomes` — a contract is kept if it is kept by each outcome;
* `Records.changes_one_place` — **the contracts of the four changes**.
-/

import JsonShelf.Proofs.Records.Mutation

set_option autoImplicit false

namespace JsonShelf.Records

variable {records front back : List Json} {record old new : Json} {id : Int64} {index : ℕ}
  {patch : Members Json}
  {change : Json → Except RecordError Mutation} {fault : List Json → RecordError → Prop}
  {effect : List Json → List Json → Json → Prop}

/-! ### The record at a place -/

theorem exists_split (h : records[index]? = some old) :
    ∃ front back, records = front ++ old :: back ∧ front.length = index := by
  obtain ⟨hn, rfl⟩ := List.getElem?_eq_some_iff.1 h
  refine ⟨records.take index, records.drop (index + 1), ?_,
    List.length_take_of_le (Nat.le_of_lt hn)⟩
  rw [← List.drop_eq_getElem_cons hn, List.take_append_drop]

theorem getElem?_split (front : List Json) (old : Json) (back : List Json) :
    (front ++ old :: back)[front.length]? = some old := by
  rw [List.getElem?_append_right (Nat.le_refl _), Nat.sub_self, List.getElem?_cons_zero]

theorem set_split (front : List Json) (old new : Json) (back : List Json) :
    (front ++ old :: back).set front.length new = front ++ new :: back := by
  rw [List.set_append_right _ _ (Nat.le_refl _), Nat.sub_self, List.set_cons_zero]

theorem eraseIdx_split (front : List Json) (old : Json) (back : List Json) :
    (front ++ old :: back).eraseIdx front.length = front ++ back := by
  rw [List.eraseIdx_append_of_length_le (Nat.le_refl _), Nat.sub_self, List.eraseIdx_cons_zero]

/-- The record has the id, and none of those before it has. -/
structure IsFirst (id : Int64) (front : List Json) (record : Json) : Prop where
  hasId : Records.hasId id record = true
  before : ∀ other ∈ front, Records.hasId id other = false

/-- No record has the id, or there is a first one that has it. -/
theorem missing_or_isFirst (id : Int64) (records : List Json) :
    (∀ record ∈ records, hasId id record = false) ∨
      ∃ front old back, records = front ++ old :: back ∧ IsFirst id front old := by
  cases hfind : records.find? (hasId id) with
  | none =>
      have hnone := List.find?_eq_none.1 hfind
      exact .inl fun record hrecord => Bool.eq_false_iff.2 (hnone record hrecord)
  | some old =>
      obtain ⟨hhas, front, back, hsplit, hbefore⟩ := List.find?_eq_some_iff_append.1 hfind
      refine .inr ⟨front, old, back, hsplit, hhas, fun other hother => ?_⟩
      exact Bool.not_eq_true' _ ▸ hbefore other hother

theorem position?_of_missing (h : ∀ record ∈ records, hasId id record = false) :
    position? id records = none :=
  List.findIdx?_eq_none_iff.2 h

theorem position?_split (h : IsFirst id front old) :
    position? id (front ++ old :: back) = some front.length := by
  refine position?_eq_some.2 ⟨old, getElem?_split front old back, h.hasId, ?_⟩
  intro j hj other hother
  rw [List.getElem?_append_left hj] at hother
  exact h.before other (List.mem_of_getElem? hother)

/-! ### Changes at a place -/

theorem updateById_split (h : IsFirst id front old) :
    updateById (.array (front ++ old :: back)) id patch =
      .ok ⟨.array (front ++ patchedById id old patch :: back), patchedById id old patch⟩ := by
  have hhere := getElem?_split front old back
  refine updateById_eq_ok.2 ⟨_, _, old, rfl, position?_split h, hhere, ?_⟩
  rw [set_split]

theorem updateByIndex_split (front : List Json) (old : Json) (back : List Json) :
    updateByIndex (.array (front ++ old :: back)) front.length patch =
      .ok ⟨.array (front ++ .object (merged old patch) :: back), .object (merged old patch)⟩ := by
  refine updateByIndex_eq_ok.2 ⟨_, old, rfl, getElem?_split front old back, ?_⟩
  rw [set_split]

theorem deleteById_split (h : IsFirst id front old) :
    deleteById (.array (front ++ old :: back)) id = .ok ⟨.array (front ++ back), old⟩ := by
  have hhere := getElem?_split front old back
  refine deleteById_eq_ok.2 ⟨_, _, old, rfl, position?_split h, hhere, ?_⟩
  rw [eraseIdx_split]

/-! ### Faults and effects -/

/-- The fault of a change by id: no record has the id. -/
structure NotFound (id : Int64) (records : List Json) (e : RecordError) : Prop where
  error : e = .recordNotFound id
  missing : ∀ record ∈ records, hasId id record = false

theorem notFound_iff (h : ∀ record ∈ records, hasId id record = false) (e : RecordError) :
    NotFound id records e ↔ e = .recordNotFound id :=
  ⟨fun hfault => hfault.error, fun he => ⟨he, h⟩⟩

theorem IsFirst.not_notFound (h : IsFirst id front old) (e : RecordError) :
    ¬NotFound id (front ++ old :: back) e := by
  intro hfault
  have hnot := hfault.missing old (List.mem_append_right _ List.mem_cons_self)
  exact Bool.eq_false_iff.1 hnot h.hasId

/-- The fault of a change by place: the records end before it. -/
structure OutOfBounds (index : ℕ) (records : List Json) (e : RecordError) : Prop where
  error : e = .indexOutOfBounds index records.length
  beyond : records.length ≤ index

/-- The record `new` comes in the place of the record that `place` describes, by the records before
it; all others stay. -/
def Replaces (place : List Json → Json → Prop) (before after : List Json) (new : Json) : Prop :=
  ∃ front old back, before = front ++ old :: back ∧ place front old ∧ after = front ++ new :: back

/-- The record `old`, which `place` describes by the records before it, goes; all others stay. -/
def Removes (place : List Json → Json → Prop) (before after : List Json) (old : Json) : Prop :=
  ∃ front back, before = front ++ old :: back ∧ place front old ∧ after = front ++ back

/-! ### Contracts -/

/-- A root that is no array is refused as such, and nothing else is; records are refused with the
faults that they give cause for, and with no others; otherwise the change has its effect, which is
told by the records before and after it and the record that is returned. -/
structure Contract (change : Json → Except RecordError Mutation)
    (fault : List Json → RecordError → Prop) (effect : List Json → List Json → Json → Prop) :
    Prop where
  notArray : ∀ root, change root = .error .notArray ↔ root.items? = none
  refused : ∀ records e, change (.array records) = .error e ↔ fault records e
  done : ∀ records m, change (.array records) = .ok m →
    ∃ after, m.root = .array after ∧ effect records after m.record

/-- A change that begins with the records keeps to a contract if it refuses all records with their
one fault, or they have none and are changed. -/
theorem contract_of_outcomes {next : List Json → Except RecordError Mutation}
    (hchange : ∀ root, change root = records? root >>= next)
    (hrecords : ∀ records,
      (∃ e, change (.array records) = .error e ∧ e ≠ .notArray ∧ ∀ e', fault records e' ↔ e' = e) ∨
        ∃ after record, change (.array records) = .ok ⟨.array after, record⟩ ∧
          effect records after record ∧ ∀ e, ¬fault records e) :
    Contract change fault effect where
  notArray := by
    intro root
    cases root with
    | array records =>
        refine iff_of_false (fun h => ?_) nofun
        rcases hrecords records with ⟨e, he, hne, -⟩ | ⟨after, record, hok, -⟩
        · exact hne (Except.error.inj (he.symm.trans h))
        · cases hok.symm.trans h
    | null | bool | number | string | object => exact iff_of_true (hchange _) rfl
  refused := by
    intro records e
    rcases hrecords records with ⟨e', he, -, hfault⟩ | ⟨after, record, hok, -, hnone⟩
    · rw [he, hfault, eq_comm, Except.error.injEq]
    · rw [hok]
      exact iff_of_false nofun (hnone e)
  done := by
    intro records m hm
    rcases hrecords records with ⟨e, he, -⟩ | ⟨after, record, hok, heffect, -⟩
    · cases he.symm.trans hm
    · cases hok.symm.trans hm
      exact ⟨after, rfl, heffect⟩

theorem contract_append (record : Json) :
    Contract (append · record) (fun _ _ => False) fun before after new => after = before ++ [new] :=
  contract_of_outcomes (fun _ => rfl) fun records =>
    .inr ⟨records ++ [withId records record], withId records record, rfl, rfl, fun _ => False.elim⟩

theorem contract_updateById (id : Int64) (patch : Members Json) :
    Contract (updateById · id patch) (NotFound id) (Replaces (IsFirst id)) := by
  refine contract_of_outcomes (fun _ => rfl) fun records => ?_
  rcases missing_or_isFirst id records with hmissing | ⟨front, old, back, rfl, hfirst⟩
  · exact .inl ⟨_, updateById_eq_recordNotFound.2 (position?_of_missing hmissing), nofun,
      notFound_iff hmissing⟩
  · exact .inr ⟨_, _, updateById_split hfirst, ⟨front, old, back, rfl, hfirst, rfl⟩,
      hfirst.not_notFound⟩

theorem contract_updateByIndex (index : ℕ) (patch : Members Json) :
    Contract (updateByIndex · index patch) (OutOfBounds index)
      (Replaces fun front _ => front.length = index) := by
  refine contract_of_outcomes (fun _ => rfl) fun records => ?_
  cases hold : records[index]? with
  | none =>
      have hbeyond := List.getElem?_eq_none_iff.1 hold
      exact .inl ⟨_, updateByIndex_eq_indexOutOfBounds.2 hbeyond, nofun,
        fun e => ⟨fun h => h.error, fun h => ⟨h, hbeyond⟩⟩⟩
  | some old =>
      have hlt := (List.getElem?_eq_some_iff.1 hold).1
      obtain ⟨front, back, rfl, rfl⟩ := exists_split hold
      exact .inr ⟨_, _, updateByIndex_split front old back, ⟨front, old, back, rfl, rfl, rfl⟩,
        fun e he => Nat.not_le.2 hlt he.beyond⟩

theorem contract_deleteById (id : Int64) :
    Contract (deleteById · id) (NotFound id) (Removes (IsFirst id)) := by
  refine contract_of_outcomes (fun _ => rfl) fun records => ?_
  rcases missing_or_isFirst id records with hmissing | ⟨front, old, back, rfl, hfirst⟩
  · exact .inl ⟨_, deleteById_eq_recordNotFound.2 (position?_of_missing hmissing), nofun,
      notFound_iff hmissing⟩
  · exact .inr ⟨_, _, deleteById_split hfirst, ⟨front, back, rfl, hfirst, rfl⟩,
      hfirst.not_notFound⟩

/-- **A change fails just if there is no collection, or no record at the place that is asked for,
and otherwise it changes that place only:** a record is added behind all others, an update puts the
record that it returns in the place of the first one with the id or of the one with the index, and a
deletion takes out the first record with the id and returns it. -/
theorem changes_one_place :
    (∀ record, Contract (append · record) (fun _ _ => False)
      fun before after new => after = before ++ [new]) ∧
    (∀ id patch, Contract (updateById · id patch) (NotFound id) (Replaces (IsFirst id))) ∧
    (∀ index patch, Contract (updateByIndex · index patch) (OutOfBounds index)
      (Replaces fun front _ => front.length = index)) ∧
    ∀ id, Contract (deleteById · id) (NotFound id) (Removes (IsFirst id)) :=
  ⟨contract_append, contract_updateById, contract_updateByIndex, contract_deleteById⟩

end JsonShelf.Records
