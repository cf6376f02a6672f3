/-
**Ids stay distinct.**

As long as records are added without an id, patched by their id and deleted by their id, the ids of
a collection stay whole numbers and no two of them are equal: a new record gets a number above all
others, a patched record keeps its own, and a deleted one takes its number away.  The one exception
is a collection whose greatest id is the greatest signed word; nothing may be added to it.

Main definitions:

* `Records.ids` — the whole numbers that are ids;
* `Records.greatestId` — the greatest id, a record without one counting for zero;
* `WellIdentified` — an array whose ids are whole numbers, no two of them equal;
* `RecordCommand.Admissible`, `RecordCommand.AdmissibleRun` — the changes in question, and runs of
  them.

Main results:

* `Records.exists_nextId` — the next id is one more than the greatest;
* `RecordCommand.wellIdentified_next` — one change keeps the ids distinct;
* `RecordCommand.wellIdentified_run` — **so does a run of any length, and every record that is added
  gets one more than the greatest id there is**.
-/

import JsonShelf.Proofs.Records.NextId
import Mathlib.Data.List.Nodup

set_option autoImplicit false

namespace JsonShelf

namespace Records

variable {records : List Json} {record old new : Json} {members patch : Members Json} {n : Number}
  {id : Int64} {value : ℤ}

/-! ### The ids of a collection -/

/-- The ids that are whole numbers of 64 signed bits, in their order. -/
def ids (records : List Json) : List ℤ :=
  records.filterMap fun record => (id? record).bind Number.toInt64?

theorem mem_ids :
    value ∈ ids records ↔ ∃ record ∈ records, ∃ n, id? record = some n ∧
      n.toInt64? = some value := by
  simp only [ids, List.mem_filterMap, Option.bind_eq_some_iff]

theorem ids_append (records : List Json) (record : Json) :
    ids (records ++ [record]) = ids records ++ ids [record] :=
  List.filterMap_append

theorem ids_eq_nil (h : id? record = none) : ids [record] = [] := by
  rw [ids, List.filterMap_cons_none (by rw [h, Option.bind_none]), List.filterMap_nil]

theorem ids_eq_singleton (hid : id? record = some n) (hn : n.toInt64? = some value) :
    ids [record] = [value] := by
  rw [ids, List.filterMap_cons_some (b := value) (by rw [hid, Option.bind_some, hn]),
    List.filterMap_nil]

/-- A record in the place of another with the same id leaves the ids as they are. -/
theorem ids_set {i : ℕ} (hold : records[i]? = some old) (hid : id? new = id? old) :
    ids (records.set i new) = ids records := by
  have hids (records : List Json) :
      ids records = (records.map id?).filterMap (·.bind Number.toInt64?) := by
    rw [List.filterMap_map]
    rfl
  rw [hids, hids, map_set hold hid]

/-! ### The next id among whole ids -/

theorem toInt64?_bounds (h : n.toInt64? = some value) : -2 ^ 63 ≤ value ∧ value < 2 ^ 63 := by
  obtain ⟨lower, _, _, hlt⟩ := Number.toInt64?_eq_some h
  exact ⟨lower, hlt⟩

/-- The whole number of a record is its id, or zero if it has none. -/
theorem wholeId_eq_zero_or (h : WholeIds records) (hmem : record ∈ records) :
    wholeId record = 0 ∨ wholeId record ∈ ids records := by
  cases hid : id? record with
  | none => exact .inl (by rw [wholeId, hid]; rfl)
  | some n =>
      obtain ⟨value, hvalue⟩ := h record hmem n hid
      rw [wholeId_of_id? hid hvalue]
      exact .inr (mem_ids.2 ⟨record, hmem, n, hid, hvalue⟩)

theorem ofInt_of_lt (hlower : -2 ^ 63 ≤ value) (hupper : value < 2 ^ 63) :
    ∃ n, Json.ofInt value = .number n ∧ n.toInt64? = some value := by
  have hwide : -2 ^ 63 ≤ value ∧ value < 2 ^ 64 := ⟨hlower, by omega⟩
  refine ⟨.whole value hwide.1 hwide.2, ?_, ?_⟩
  · rw [Json.ofInt, Number.ofInt?, dif_pos hwide]
    rfl
  · rw [Number.toInt64?, if_pos hupper]

/-- The greatest id; a record without one counts for zero, and so does an empty collection. -/
def greatestId (records : List Json) : ℤ :=
  (records.map wholeId).max?.getD 0

theorem le_greatestId (hvalue : value ∈ ids records) :
    value ≤ greatestId records := by
  obtain ⟨record, hmem, n, hid, hn⟩ := mem_ids.1 hvalue
  have hwhole : wholeId record ∈ records.map wholeId := List.mem_map_of_mem hmem
  rw [wholeId_of_id? hid hn] at hwhole
  cases hmax : (records.map wholeId).max? with
  | none =>
      rw [List.max?_eq_none_iff.1 hmax] at hwhole
      cases hwhole
  | some top =>
      rw [greatestId, hmax, Option.getD_some]
      exact (List.max?_eq_some_iff.1 hmax).2 value hwhole

theorem greatestId_eq {top : ℤ} (hmem : top ∈ records.map wholeId)
    (hle : ∀ record ∈ records, wholeId record ≤ top) : greatestId records = top := by
  have hmax : (records.map wholeId).max? = some top := by
    refine List.max?_eq_some_iff.2 ⟨hmem, ?_⟩
    intro other hother
    obtain ⟨record, hrecord, rfl⟩ := List.mem_map.1 hother
    exact hle record hrecord
  rw [greatestId, hmax, Option.getD_some]

/-- While the greatest signed word is no id, the next id is one more than the greatest. -/
theorem exists_nextId (h : WholeIds records) (hfree : 2 ^ 63 - 1 ∉ ids records) :
    ∃ n, nextId records = .number n ∧ n.toInt64? = some (greatestId records + 1) := by
  rcases eq_or_ne records [] with rfl | hne
  · exact ofInt_of_lt (by decide) (by decide)
  · obtain ⟨top, hmem, hle, hexact, -⟩ := nextId_of_wholeIds h hne
    obtain ⟨record, hrecord, htop⟩ := List.mem_map.1 hmem
    have hbounds : -2 ^ 63 ≤ top ∧ top + 1 < 2 ^ 63 := by
      rcases wholeId_eq_zero_or h hrecord with hzero | hid
      · omega
      · rw [htop] at hid
        obtain ⟨_, _, n, _, hn⟩ := mem_ids.1 hid
        obtain ⟨hlower, hupper⟩ := toInt64?_bounds hn
        have hlast : top ≠ 2 ^ 63 - 1 := by
          rintro rfl
          exact hfree hid
        omega
    rw [greatestId_eq hmem hle, hexact hbounds.2]
    exact ofInt_of_lt (by omega) hbounds.2

/-! ### What one change does to the ids -/

/-- The ids of a collection are whole numbers of 64 signed bits, and no two of them are equal. -/
structure Identified (records : List Json) : Prop where
  whole : WholeIds records
  distinct : (ids records).Nodup

/-- A record may be added if it has no number as id, or a whole one that is new. -/
theorem Identified.append (h : Identified records)
    (hnew : ∀ n, id? record = some n → ∃ value, n.toInt64? = some value ∧ value ∉ ids records) :
    Identified (records ++ [record]) where
  whole := by
    intro other hother n hn
    rcases List.mem_append.1 hother with hother | hother
    · exact h.whole other hother n hn
    · rw [List.mem_singleton.1 hother] at hn
      obtain ⟨value, hvalue, -⟩ := hnew n hn
      exact ⟨value, hvalue⟩
  distinct := by
    rw [ids_append]
    cases hid : id? record with
    | none =>
        rw [ids_eq_nil hid, List.append_nil]
        exact h.distinct
    | some n =>
        obtain ⟨value, hvalue, hfresh⟩ := hnew n hid
        rw [ids_eq_singleton hid hvalue]
        exact h.distinct.append (List.nodup_singleton value) (List.disjoint_singleton.2 hfresh)

theorem Identified.set {i : ℕ} (h : Identified records) (hold : records[i]? = some old)
    (hid : id? new = id? old) : Identified (records.set i new) where
  whole := by
    intro other hother n hn
    rcases List.mem_or_eq_of_mem_set hother with hother | rfl
    · exact h.whole other hother n hn
    · rw [hid] at hn
      exact h.whole old (List.mem_of_getElem? hold) n hn
  distinct := by
    rw [ids_set hold hid]
    exact h.distinct

theorem Identified.sublist {kept : List Json} (h : Identified records)
    (hkept : kept.Sublist records) : Identified kept where
  whole := fun other hother => h.whole other (hkept.subset hother)
  distinct := h.distinct.sublist (hkept.filterMap _)

theorem id?_put (members : Members Json) (n : Number) :
    id? (.object (Members.put idField (.number n) members)) = some n := by
  have hget : (Json.object (Members.put idField (.number n) members)).get? idField =
      some (.number n) := Members.get?_put_self idField (Json.number n) members
  exact id?_of_get? hget

/-- A patch by id leaves the id of the record as it was. -/
theorem id?_patchedById (hhas : hasId id old = true) :
    id? (patchedById id old patch) = id? old := by
  obtain ⟨n, hn, -⟩ := exists_id?_of_hasId hhas
  rw [patchedById_of_id? hn, id?_put, hn]

end Records

/-! ### Runs of changes -/

open Records

/-- An array whose ids are whole numbers of 64 signed bits, no two of them equal. -/
def WellIdentified (root : Json) : Prop :=
  ∃ records, root = .array records ∧ Identified records

namespace RecordCommand

variable {root : Json} {c : RecordCommand} {commands before after : List RecordCommand}
  {members : Members Json} {m : Mutation}

/-- The root after a change; a change that is refused keeps it. -/
def next (root : Json) (c : RecordCommand) : Json :=
  match c.mutation root with
  | .ok m => m.root
  | .error _ => root

/-- The root after some changes. -/
def run (root : Json) (commands : List RecordCommand) : Json :=
  commands.foldl next root

/-- The change leaves the ids to the collection: a record is added without one, and not while the
greatest signed word is in use, or a record is patched or deleted by its id. -/
def Admissible (root : Json) : RecordCommand → Prop
  | add record => ∀ members, record = .object members →
    (Members.get? idField members = none ∨ Members.get? idField members = some .null) ∧
      ∀ records, root = .array records → 2 ^ 63 - 1 ∉ ids records
  | updateById _ _ => True
  | updateByIndex _ _ => False
  | delete _ => True

/-- Every change is admissible where it happens. -/
def AdmissibleRun : Json → List RecordCommand → Prop
  | _, [] => True
  | root, c :: rest => c.Admissible root ∧ AdmissibleRun (next root c) rest

theorem next_eq_or (root : Json) (c : RecordCommand) :
    next root c = root ∨ ∃ m, c.mutation root = .ok m ∧ next root c = m.root := by
  unfold next
  cases hm : c.mutation root with
  | error e => exact .inl rfl
  | ok m => exact .inr ⟨m, rfl, rfl⟩

theorem admissibleRun_append :
    AdmissibleRun root (before ++ after) ↔
      AdmissibleRun root before ∧ AdmissibleRun (run root before) after := by
  induction before generalizing root with
  | nil => exact (true_and _).symm.to_iff
  | cons c rest ih =>
      exact (and_congr_right fun _ => ih).trans and_assoc.symm

/-- An object is added with one more than the greatest id. -/
theorem append_object {records : List Json} (h : Identified records)
    (hadmissible : (add (.object members)).Admissible (.array records)) :
    ∃ n, append (.array records) (.object members) =
        .ok ⟨.array (records ++ [.object (Members.put idField (.number n) members)]),
          .object (Members.put idField (.number n) members)⟩ ∧
      n.toInt64? = some (greatestId records + 1) := by
  obtain ⟨hid, hfree⟩ := hadmissible members rfl
  obtain ⟨n, hnext, hn⟩ := exists_nextId h.whole (hfree records rfl)
  refine ⟨n, append_eq_ok.2 ⟨records, rfl, ?_⟩, hn⟩
  rw [withId_object hid, hnext]

/-- An admissible change of identified records leaves them identified. -/
theorem wellIdentified_next (h : WellIdentified root) (hadmissible : c.Admissible root) :
    WellIdentified (next root c) := by
  obtain ⟨records, rfl, h⟩ := h
  rcases next_eq_or (.array records) c with hsame | ⟨m, hm, hnext⟩
  · rw [hsame]
    exact ⟨records, rfl, h⟩
  rw [hnext]
  cases c with
  | add record =>
      cases record with
      | object members =>
          obtain ⟨n, happend, hn⟩ := append_object h hadmissible
          obtain rfl := Except.ok.inj (happend.symm.trans hm)
          refine ⟨_, rfl, h.append ?_⟩
          intro m hm
          obtain rfl : n = m := Option.some.inj ((id?_put members n).symm.trans hm)
          -- the new id is above all that are in use
          refine ⟨_, hn, ?_⟩
          intro hmem
          have := le_greatestId hmem
          omega
      | null | bool | number | string | array =>
          obtain ⟨_, hrecords, rfl⟩ := append_eq_ok.1 hm
          obtain rfl := Json.array.inj hrecords
          exact ⟨_, rfl, h.append fun n (hn : none = some n) => nomatch hn⟩
  | updateById id patch =>
      obtain ⟨patch, -, hm⟩ := bind_eq_ok.1 hm
      obtain ⟨_, n, old, hrecords, hposition, hold, rfl⟩ := updateById_eq_ok.1 hm
      obtain rfl := Json.array.inj hrecords
      -- the record that is patched was found by its id, so it has one to keep
      have hhas := hasId_of_position? hposition hold
      exact ⟨_, rfl, h.set hold (id?_patchedById hhas)⟩
  | updateByIndex index patch => exact hadmissible.elim
  | delete id =>
      obtain ⟨_, n, old, hrecords, -, -, rfl⟩ := deleteById_eq_ok.1 hm
      obtain rfl := Json.array.inj hrecords
      exact ⟨_, rfl, h.sublist (List.eraseIdx_sublist records n)⟩

theorem wellIdentified_of_admissibleRun (h : WellIdentified root)
    (hrun : AdmissibleRun root commands) : WellIdentified (run root commands) := by
  induction commands generalizing root with
  | nil => exact h
  | cons c rest ih => exact ih (wellIdentified_next h hrun.1) hrun.2

/-- **From identified records, admissible changes lead to identified records, however many there
are; and every object that is added on the way is given one more than the greatest id.** -/
theorem wellIdentified_run (root : Json) (commands : List RecordCommand)
    (h : WellIdentified root) (hrun : AdmissibleRun root commands) :
    WellIdentified (run root commands) ∧
      ∀ before members after, commands = before ++ add (.object members) :: after →
        ∃ records n, run root before = .array records ∧
          append (.array records) (.object members) =
            .ok ⟨.array (records ++ [.object (Members.put idField (.number n) members)]),
              .object (Members.put idField (.number n) members)⟩ ∧
          n.toInt64? = some (greatestId records + 1) := by
  refine ⟨wellIdentified_of_admissibleRun h hrun, ?_⟩
  rintro before members after rfl
  obtain ⟨hbefore, hadd, -⟩ := admissibleRun_append.1 hrun
  obtain ⟨records, hrecords, hidentified⟩ := wellIdentified_of_admissibleRun h hbefore
  rw [hrecords] at hadd
  obtain ⟨n, happend, hn⟩ := append_object hidentified hadd
  exact ⟨records, n, hrecords, happend, hn⟩

/-- A record is added, the first one is patched with an id of its own and deleted, and another
record is added. -/
def threeRecords : List RecordCommand :=
  [add (.object []), updateById 1 (.object [("id", Json.ofInt 2)]), delete 1,
    add (.object [("id", .null)])]

/-- The two records that are left have the ids two and three. -/
theorem wellIdentified_run_threeRecords :
    WellIdentified (run (.array [.object [("id", Json.ofInt 1)]]) threeRecords) ∧
      run (.array [.object [("id", Json.ofInt 1)]]) threeRecords =
        .array [.object [("id", Json.ofInt 2)], .object [("id", Json.ofInt 3)]] := by
  have hstart : WellIdentified (.array [.object [("id", Json.ofInt 1)]]) := by
    refine ⟨_, rfl, ⟨?_, by decide⟩⟩
    intro record hrecord n hn
    obtain rfl := List.mem_singleton.1 hrecord
    cases hn
    exact ⟨1, rfl⟩
  have hfirst : (add (.object [])).Admissible (.array [.object [("id", Json.ofInt 1)]]) := by
    rintro _ ⟨⟩
    refine ⟨.inl rfl, ?_⟩
    rintro _ ⟨⟩
    decide
  have hsecond : (add (.object [("id", .null)])).Admissible
      (.array [.object [("id", Json.ofInt 2)]]) := by
    rintro _ ⟨⟩
    refine ⟨.inr rfl, ?_⟩
    rintro _ ⟨⟩
    decide
  have hrun : AdmissibleRun (.array [.object [("id", Json.ofInt 1)]]) threeRecords :=
    And.intro hfirst (And.intro trivial (And.intro trivial (And.intro hsecond trivial)))
  exact ⟨(wellIdentified_run _ _ hstart hrun).1, rfl⟩

end RecordCommand

end JsonShelf
