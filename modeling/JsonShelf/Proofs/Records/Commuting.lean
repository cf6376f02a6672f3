/-
**Changes by different ids do not touch each other.**

A change by an id puts a record with the same id, or none, in the place of the first record that has
the id.  While all ids are whole numbers of 64 signed bits, no record is found by two of them.  So a
change finds the same record whatever was done by another id before it, and changes by different ids
may be made in any order.

Main definitions:

* `Records.editFirst` — the first record with an id replaced by others;
* `Records.KeepsId` — a replacement that brings no new ids;
* `Records.Apart` — no record is found by both of two ids;
* `RecordCommand.target?` — the id by which a change looks for its record;
* `RecordCommand.answer` — the record that a change returns, or its refusal;
* `RecordCommand.EditsFirst` — a change is a replacement.

Main results:

* `Records.editFirst_comm`, `Records.find?_editFirst` — replacements by ids that are apart;
* `RecordCommand.exists_editsFirst` — every change by an id is a replacement;
* `RecordCommand.changes_commute` — **two changes by different ids lead to the same root in either
  order, and each answers the same**;
* `RecordCommand.answer_run`, `RecordCommand.run_eq_of_perm` — so do runs of changes by different
  ids.
-/

import JsonShelf.Proofs.Records.Identified
import JsonShelf.Proofs.Records.OnePlace

set_option autoImplicit false

namespace JsonShelf

namespace Records

variable {records front back rest : List Json} {record old new : Json} {id a b : Int64}
  {edit f g : Json → List Json}

/-! ### Replacing the first record -/

/-- The records with the first one that has the id replaced by what `edit` makes of it. -/
def editFirst (id : Int64) (edit : Json → List Json) : List Json → List Json
  | [] => []
  | record :: rest =>
    if hasId id record then edit record ++ rest else record :: editFirst id edit rest

theorem editFirst_cons_of_hasId (h : hasId id record = true) :
    editFirst id edit (record :: rest) = edit record ++ rest :=
  if_pos h

theorem editFirst_cons_of_not_hasId (h : hasId id record = false) :
    editFirst id edit (record :: rest) = record :: editFirst id edit rest :=
  if_neg (Bool.eq_false_iff.1 h)

theorem editFirst_append (h : ∀ record ∈ front, hasId id record = false) :
    editFirst id edit (front ++ rest) = front ++ editFirst id edit rest := by
  induction front with
  | nil => rfl
  | cons record front ih =>
      have hfront : ∀ other ∈ front, hasId id other = false :=
        fun other hother => h other (List.mem_cons_of_mem _ hother)
      rw [List.cons_append, editFirst_cons_of_not_hasId (h record List.mem_cons_self), ih hfront,
        List.cons_append]

theorem editFirst_of_missing (h : ∀ record ∈ records, hasId id record = false) :
    editFirst id edit records = records := by
  have happend : editFirst id edit (records ++ []) = records ++ [] := editFirst_append h
  rwa [List.append_nil] at happend

theorem editFirst_split (h : IsFirst id front old) :
    editFirst id edit (front ++ old :: back) = front ++ (edit old ++ back) := by
  rw [editFirst_append h.before, editFirst_cons_of_hasId h.hasId]

/-- A record in its own place leaves the records as they are. -/
theorem editFirst_self (id : Int64) (records : List Json) :
    editFirst id (fun old => [old]) records = records := by
  rcases missing_or_isFirst id records with hmissing | ⟨front, old, back, rfl, hfirst⟩
  · exact editFirst_of_missing hmissing
  · rw [editFirst_split hfirst, List.singleton_append]

theorem find?_split (h : IsFirst id front old) :
    (front ++ old :: back).find? (hasId id) = some old :=
  List.find?_eq_some_iff_append.2
    ⟨h.hasId, front, back, rfl, fun other hother => by rw [h.before other hother, Bool.not_false]⟩

theorem find?_of_missing (h : ∀ record ∈ records, hasId id record = false) :
    records.find? (hasId id) = none :=
  List.find?_eq_none.2 fun record hrecord => Bool.eq_false_iff.1 (h record hrecord)

/-! ### Replacements by two ids -/

/-- What comes in the place of a record with the id has the same id. -/
def KeepsId (id : Int64) (edit : Json → List Json) : Prop :=
  ∀ old, hasId id old = true → ∀ new ∈ edit old, id? new = id? old

/-- No record is found by both ids. -/
def Apart (a b : Int64) (records : List Json) : Prop :=
  ∀ record ∈ records, hasId a record = true → hasId b record = false

theorem Apart.symm (h : Apart a b records) : Apart b a records := by
  intro record hrecord hb
  refine Bool.eq_false_iff.2 fun ha => ?_
  rw [h record hrecord ha] at hb
  cases hb

theorem Apart.tail (h : Apart a b (record :: rest)) : Apart a b rest :=
  fun other hother => h other (List.mem_cons_of_mem _ hother)

/-- No whole number of 64 signed bits stands for two ids. -/
theorem WholeIds.apart (h : WholeIds records) (hne : a ≠ b) : Apart a b records := by
  intro record hrecord ha
  refine Bool.eq_false_iff.2 fun hb => ?_
  obtain ⟨n, hn, hna⟩ := exists_id?_of_hasId ha
  obtain ⟨value, hvalue⟩ := h record hrecord n hn
  rw [hasId_of_id? hn] at hb
  rw [matchesId, hvalue] at hna hb
  exact hne (Int64.toInt_inj.1 ((beq_iff_eq.1 hna).symm.trans (beq_iff_eq.1 hb)))

/-- What comes in the place of a record is not found by an id by which the record is not found. -/
theorem KeepsId.not_hasId (h : KeepsId a edit) (ha : hasId a old = true)
    (hb : hasId b old = false) : ∀ new ∈ edit old, hasId b new = false := by
  intro new hnew
  rw [← hb, hasId, hasId, h old ha new hnew]

/-- **Replacements by ids that are apart may trade places.** -/
theorem editFirst_comm (hapart : Apart a b records) (hf : KeepsId a f) (hg : KeepsId b g) :
    editFirst a f (editFirst b g records) = editFirst b g (editFirst a f records) := by
  induction records with
  | nil => rfl
  | cons record rest ih =>
      cases ha : hasId a record with
      | true =>
          have hb := hapart record List.mem_cons_self ha
          rw [editFirst_cons_of_not_hasId hb, editFirst_cons_of_hasId ha,
            editFirst_cons_of_hasId ha, editFirst_append (hf.not_hasId ha hb)]
      | false =>
          rw [editFirst_cons_of_not_hasId ha]
          cases hb : hasId b record with
          | true =>
              rw [editFirst_cons_of_hasId hb, editFirst_cons_of_hasId hb,
                editFirst_append (hg.not_hasId hb ha)]
          | false =>
              rw [editFirst_cons_of_not_hasId hb, editFirst_cons_of_not_hasId hb,
                editFirst_cons_of_not_hasId ha, ih hapart.tail]

/-- A replacement by one id leaves the record that is found by the other. -/
theorem find?_editFirst (hapart : Apart a b records) (hg : KeepsId b g) :
    (editFirst b g records).find? (hasId a) = records.find? (hasId a) := by
  induction records with
  | nil => rfl
  | cons record rest ih =>
      cases hb : hasId b record with
      | true =>
          have ha := hapart.symm record List.mem_cons_self hb
          rw [editFirst_cons_of_hasId hb, List.find?_append,
            find?_of_missing (hg.not_hasId hb ha), Option.none_or,
            List.find?_cons_of_neg (Bool.eq_false_iff.1 ha)]
      | false =>
          rw [editFirst_cons_of_not_hasId hb, List.find?_cons, List.find?_cons, ih hapart.tail]

theorem mem_editFirst (h : new ∈ editFirst id edit records) :
    new ∈ records ∨ ∃ old ∈ records, hasId id old = true ∧ new ∈ edit old := by
  rcases missing_or_isFirst id records with hmissing | ⟨front, old, back, rfl, hfirst⟩
  · rw [editFirst_of_missing hmissing] at h
    exact .inl h
  · rw [editFirst_split hfirst, List.mem_append, List.mem_append] at h
    rcases h with h | h | h
    · exact .inl (List.mem_append_left _ h)
    · exact .inr ⟨old, List.mem_append_right _ List.mem_cons_self, hfirst.hasId, h⟩
    · exact .inl (List.mem_append_right _ (List.mem_cons_of_mem _ h))

theorem WholeIds.editFirst (h : WholeIds records) (hedit : KeepsId id edit) :
    WholeIds (editFirst id edit records) := by
  intro new hnew n hn
  rcases mem_editFirst hnew with hmem | ⟨old, hold, hhas, hmem⟩
  · exact h new hmem n hn
  · rw [hedit old hhas new hmem] at hn
    exact h old hold n hn

end Records

/-! ### Changes by an id -/

open Records

namespace RecordCommand

variable {root : Json} {records : List Json} {c d : RecordCommand} {id a b : Int64}
  {commands others : List RecordCommand} {e : RecordError} {m : Mutation}

/-- The id by which a change looks for its record. -/
def target? : RecordCommand → Option Int64
  | updateById id _ => some id
  | delete id => some id
  | add _ | updateByIndex _ _ => none

/-- The record that a change returns, or its refusal. -/
def answer (root : Json) (c : RecordCommand) : Except RecordError Json :=
  (c.mutation root).map Mutation.record

/-- The change replaces the first record with the id by what `edit` makes of it, and what it answers
is known from that record alone. -/
structure EditsFirst (c : RecordCommand) (id : Int64) (edit : Json → List Json)
    (reply : Option Json → Except RecordError Json) : Prop where
  keepsId : KeepsId id edit
  next : ∀ records, RecordCommand.next (.array records) c = .array (editFirst id edit records)
  answer : ∀ records, RecordCommand.answer (.array records) c = reply (records.find? (hasId id))

/-- A change that fails if the id is missing is a replacement if it is one at the first record with
the id. -/
theorem editsFirst_of_outcomes {edit : Json → List Json} {result : Json → Json}
    (hedit : KeepsId id edit)
    (hmissing : ∀ records, (∀ record ∈ records, hasId id record = false) →
      c.mutation (.array records) = .error (.recordNotFound id))
    (hfirst : ∀ front old back, IsFirst id front old →
      c.mutation (.array (front ++ old :: back)) =
        .ok ⟨.array (front ++ (edit old ++ back)), result old⟩) :
    EditsFirst c id edit fun found =>
      found.elim (.error (.recordNotFound id)) fun old => .ok (result old) where
  keepsId := hedit
  next := by
    intro records
    rcases missing_or_isFirst id records with h | ⟨front, old, back, rfl, h⟩
    · rw [RecordCommand.next, hmissing records h, editFirst_of_missing h]
    · rw [RecordCommand.next, hfirst front old back h, editFirst_split h]
  answer := by
    intro records
    rcases missing_or_isFirst id records with h | ⟨front, old, back, rfl, h⟩
    · rw [RecordCommand.answer, hmissing records h, find?_of_missing h]
      rfl
    · rw [RecordCommand.answer, hfirst front old back h, find?_split h]
      rfl

/-- A patch that is no object is refused, and all records stay. -/
theorem editsFirst_of_refused (h : ∀ root, c.mutation root = .error e) :
    EditsFirst c id (fun old => [old]) fun _ => .error e where
  keepsId := fun _ _ _ hnew => congrArg id? (List.mem_singleton.1 hnew)
  next := fun records => by rw [RecordCommand.next, h, editFirst_self]
  answer := fun records => by rw [RecordCommand.answer, h]; rfl

/-- Every change by an id is a replacement. -/
theorem exists_editsFirst (hc : c.target? = some id) :
    ∃ edit reply, EditsFirst c id edit reply := by
  cases c with
  | add record => cases hc
  | updateByIndex index patch => cases hc
  | updateById target patch =>
      obtain rfl : target = id := Option.some.inj hc
      cases patch with
      | object members =>
          refine ⟨fun old => [patchedById target old members], _, editsFirst_of_outcomes
            (fun old hhas new hnew => ?_) (fun records hmissing => ?_)
            fun front old back hfirst => updateById_split hfirst⟩
          · rw [List.mem_singleton.1 hnew, id?_patchedById hhas]
          · exact updateById_eq_recordNotFound.2 (position?_of_missing hmissing)
      | null | bool | number | string | array => exact ⟨_, _, editsFirst_of_refused fun _ => rfl⟩
  | delete target =>
      obtain rfl : target = id := Option.some.inj hc
      exact ⟨fun _ => [], _, editsFirst_of_outcomes nofun
        (fun records hmissing => deleteById_eq_recordNotFound.2 (position?_of_missing hmissing))
        fun front old back hfirst => deleteById_split hfirst⟩

/-! ### Changes by different ids -/

theorem next_next (h : WholeIds records) (hc : c.target? = some a) (hd : d.target? = some b)
    (hne : a ≠ b) :
    next (next (.array records) c) d = next (next (.array records) d) c := by
  obtain ⟨f, _, hf⟩ := exists_editsFirst hc
  obtain ⟨g, _, hg⟩ := exists_editsFirst hd
  rw [hf.next, hg.next, hg.next, hf.next,
    editFirst_comm (h.apart hne) hf.keepsId hg.keepsId]

theorem answer_next (h : WholeIds records) (hc : c.target? = some a) (hd : d.target? = some b)
    (hne : a ≠ b) : c.answer (next (.array records) d) = c.answer (.array records) := by
  obtain ⟨_, _, hf⟩ := exists_editsFirst hc
  obtain ⟨_, _, hg⟩ := exists_editsFirst hd
  rw [hg.next, hf.answer, hf.answer, find?_editFirst (h.apart hne) hg.keepsId]

/-- **Two changes by different ids lead to the same root in either order, and each returns the same
record or has the same fault, first or second,** if all ids are whole numbers of 64 signed bits. -/
theorem changes_commute (records : List Json) (c d : RecordCommand) (a b : Int64)
    (h : WholeIds records) (hc : c.target? = some a) (hd : d.target? = some b) (hne : a ≠ b) :
    next (next (.array records) c) d = next (next (.array records) d) c ∧
      c.answer (next (.array records) d) = c.answer (.array records) ∧
      d.answer (next (.array records) c) = d.answer (.array records) :=
  ⟨next_next h hc hd hne, answer_next h hc hd hne, answer_next h hd hc hne.symm⟩

/-- A record with the id two between two with the id one. -/
def twins : List Json :=
  [.object [("id", Json.ofInt 1)], .object [("id", Json.ofInt 2)], .object [("id", Json.ofInt 1)]]

/-- A patch by the id two that asks for the id one leaves the deletion by that as it is. -/
theorem changes_commute_twins :
    WholeIds twins ∧
      next (next (.array twins) (delete 1)) (updateById 2 (.object [("id", Json.ofInt 1)])) =
        .array [.object [("id", Json.ofInt 2)], .object [("id", Json.ofInt 1)]] ∧
      next (next (.array twins) (updateById 2 (.object [("id", Json.ofInt 1)]))) (delete 1) =
        .array [.object [("id", Json.ofInt 2)], .object [("id", Json.ofInt 1)]] := by
  have hwhole : WholeIds twins := by
    intro record hrecord n hn
    rw [twins, List.mem_cons, List.mem_cons, List.mem_singleton] at hrecord
    rcases hrecord with rfl | rfl | rfl
    · cases hn
      exact ⟨1, rfl⟩
    · cases hn
      exact ⟨2, rfl⟩
    · cases hn
      exact ⟨1, rfl⟩
  have hcommute := (changes_commute twins (delete 1)
    (updateById 2 (.object [("id", Json.ofInt 1)])) 1 2 hwhole rfl rfl (by decide)).1
  exact ⟨hwhole, rfl, hcommute.symm.trans rfl⟩

/-! ### Runs -/

theorem exists_next (h : WholeIds records) (hc : c.target? = some a) :
    ∃ after, next (.array records) c = .array after ∧ WholeIds after := by
  obtain ⟨_, _, hf⟩ := exists_editsFirst hc
  exact ⟨_, hf.next records, h.editFirst hf.keepsId⟩

/-- What a change by an id answers is not touched by a run of changes by other ids. -/
theorem answer_run (h : WholeIds records) (hc : c.target? = some a)
    (hcommands : ∀ d ∈ commands, ∃ b, d.target? = some b ∧ a ≠ b) :
    c.answer (run (.array records) commands) = c.answer (.array records) := by
  induction commands generalizing records with
  | nil => rfl
  | cons d rest ih =>
      obtain ⟨b, hd, hne⟩ := hcommands d List.mem_cons_self
      obtain ⟨after, hafter, hwhole⟩ := exists_next h hd
      have hstep : run (.array records) (d :: rest) = run (.array after) rest :=
        congrArg (run · rest) hafter
      rw [hstep, ih hwhole fun other hother => hcommands other (List.mem_cons_of_mem _ hother),
        ← hafter, answer_next h hc hd hne]

/-- **A run of changes by different ids leads to the same root in every order.** -/
theorem run_eq_of_perm (h : WholeIds records) (hperm : commands.Perm others)
    (htargets : ∀ c ∈ commands, ∃ id, c.target? = some id)
    (hdistinct : (commands.map target?).Nodup) :
    run (.array records) commands = run (.array records) others := by
  induction hperm generalizing records with
  | nil => rfl
  | cons c hperm ih =>
      rw [List.map_cons, List.nodup_cons] at hdistinct
      obtain ⟨id, hc⟩ := htargets c List.mem_cons_self
      obtain ⟨after, hafter, hwhole⟩ := exists_next h hc
      have hrest := ih hwhole (fun d hd => htargets d (List.mem_cons_of_mem _ hd)) hdistinct.2
      rw [← hafter] at hrest
      exact hrest
  | swap c d rest =>
      obtain ⟨a, hc⟩ := htargets c (List.mem_cons_of_mem _ List.mem_cons_self)
      obtain ⟨b, hd⟩ := htargets d List.mem_cons_self
      have hne : b ≠ a := by
        rintro rfl
        rw [List.map_cons, List.map_cons, hc, hd] at hdistinct
        exact (List.nodup_cons.1 hdistinct).1 List.mem_cons_self
      exact congrArg (run · rest) (next_next h hd hc hne)
  | trans hleft _ ihleft ihright =>
      rw [ihleft h htargets hdistinct]
      exact ihright h (fun c hc => htargets c (hleft.mem_iff.2 hc))
        ((hleft.map target?).nodup_iff.1 hdistinct)

end RecordCommand

end JsonShelf
