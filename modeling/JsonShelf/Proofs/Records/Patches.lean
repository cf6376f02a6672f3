/-
**What a patch writes.**

An update writes the members of a patch over those of a record: keys that are there keep their
place, new ones come last, and values are replaced as a whole.  An update by id leaves the id of the
record alone.  So the record stays where it was found, and patches in a row come to one patch.

Main definitions:

* `Records.Patched` — the members of a record after a patch that leaves some keys alone;
* `Records.Writes` — an update that finds a place and writes the record there anew;
* `Records.Composes` — patches in a row come to one patch.

Main results:

* `Records.position?_set` — a record with the same id is found in the place of another;
* `Records.updates_patched` — **what updates by id and by place make of a record**;
* `Records.Writes.composes` — patches compose if the record stays where it was found and is written
  from its members;
* `Records.patches_compose` — **updates by id and by place compose**.
-/

import JsonShelf.Proofs.Records.Identified

set_option autoImplicit false

namespace JsonShelf.Records

variable {root record old new : Json} {records : List Json} {id : Int64} {index : ℕ} {n : Number}
  {members patch first second : Members Json} {m : Mutation}

/-! ### Patched records -/

/-- The members of a record after a patch: the keys are those of the record and then those that come
with the patch, and the patch decides about the value of each key that it has, but for the pinned
ones. -/
structure Patched (pinned : List String) (old patch new : Members Json) : Prop where
  keys : Members.keys new =
    Members.keys old ++ (Members.keys patch).filter (· ∉ Members.keys old)
  kept : ∀ key ∈ pinned, Members.get? key new = Members.get? key old
  written : ∀ key, key ∉ pinned →
    Members.get? key new = (Members.get? key patch).or (Members.get? key old)

theorem patched_merge (hpatch : (Members.keys patch).Nodup) (members : Members Json) :
    Patched [] members patch (Members.merge members patch) where
  keys := Members.keys_merge hpatch
  kept := nofun
  written := fun _ _ => Members.get?_merge hpatch

theorem patched_put_merge {key : String} {value : Json} (hpatch : (Members.keys patch).Nodup)
    (hvalue : Members.get? key members = some value) :
    Patched [key] members patch (Members.put key value (Members.merge members patch)) where
  keys := by
    have hkey : key ∈ Members.keys members := Members.exists_get?_iff.1 ⟨value, hvalue⟩
    rw [Members.keys_put, if_pos (Members.mem_keys_merge.2 (.inl hkey)), Members.keys_merge hpatch]
  kept := by
    intro other hother
    rw [List.mem_singleton.1 hother, Members.get?_put_self, hvalue]
  written := by
    intro other hother
    rw [Members.get?_put, if_neg (fun e => hother (List.mem_singleton.2 e.symm)),
      Members.get?_merge hpatch]

/-- A record that is found by an id is an object, with a number as id. -/
theorem exists_members_of_hasId (h : hasId id record = true) :
    ∃ members n, record = .object members ∧
      Members.get? idField members = some (.number n) := by
  obtain ⟨n, hn, -⟩ := exists_id?_of_hasId h
  obtain ⟨members, rfl, hid⟩ := Json.exists_members_of_get? (get?_of_id? hn)
  exact ⟨members, n, rfl, hid⟩

theorem patchedById_object (hid : Members.get? idField members = some (.number n)) :
    patchedById id (.object members) patch =
      .object (Members.put idField (.number n) (Members.merge members patch)) :=
  patchedById_of_id? (id?_of_get? hid)

theorem merged_of_members? (hpatch : (Members.keys patch).Nodup) (h : record.members? = none) :
    merged record patch = patch := by
  rw [merged, h]
  exact Members.collapse_eq_self hpatch

/-- **An update by id writes the patch over the first record with the id, but for the id, and an
update by place writes it over the record there, or puts it in the place of what is no object.** -/
theorem updates_patched (root : Json) (patch : Members Json) (m : Mutation)
    (hpatch : (Members.keys patch).Nodup) :
    (∀ id, updateById root id patch = .ok m → ∃ records i members n new,
      root = .array records ∧ position? id records = some i ∧
      records[i]? = some (.object members) ∧ Members.get? idField members = some (.number n) ∧
      m = ⟨.array (records.set i (.object new)), .object new⟩ ∧
      Patched [idField] members patch new) ∧
    ∀ index, updateByIndex root index patch = .ok m → ∃ records old new,
      root = .array records ∧ records[index]? = some old ∧
      m = ⟨.array (records.set index (.object new)), .object new⟩ ∧
      (∀ members, old = .object members → Patched [] members patch new) ∧
      (old.members? = none → new = patch) := by
  constructor
  · intro id hm
    obtain ⟨records, i, old, rfl, hi, hold, rfl⟩ := updateById_eq_ok.1 hm
    obtain ⟨members, n, rfl, hid⟩ := exists_members_of_hasId (hasId_of_position? hi hold)
    refine ⟨records, i, members, n, _, rfl, hi, hold, hid, ?_, patched_put_merge hpatch hid⟩
    rw [patchedById_object hid]
  · intro index hm
    obtain ⟨records, old, rfl, hold, rfl⟩ := updateByIndex_eq_ok.1 hm
    refine ⟨records, old, merged old patch, rfl, hold, rfl, ?_, merged_of_members? hpatch⟩
    rintro members rfl
    exact patched_merge hpatch members

/-- A record whose id is neither its first nor its last member. -/
def person : Members Json :=
  [("name", .string "Ada"), ("id", Json.ofInt 5), ("profile", .object [("age", Json.ofInt 3)])]

/-- A patch with another id, a value for the profile and a new key. -/
def promotion : Members Json :=
  [("profile", .object [("level", Json.ofInt 2)]), ("id", Json.ofInt 99), ("dept", .bool true)]

/-- The person keeps the id in its place and gets the whole new profile; the new key comes last. -/
theorem updates_patched_person :
    (Members.keys promotion).Nodup ∧ ∃ new,
      updateById (.array [.null, .object person]) 5 promotion =
        .ok ⟨.array [.null, .object new], .object new⟩ ∧
      Members.keys new = ["name", "id", "profile", "dept"] ∧
      Patched [idField] person promotion new := by
  have hpatch : (Members.keys promotion).Nodup := by decide
  obtain ⟨records, i, members, n, new, ⟨⟩, hi, hold, -, hm, hpatched⟩ :=
    (updates_patched (.array [.null, .object person]) promotion _ hpatch).1 5 rfl
  obtain rfl : 1 = i := Option.some.inj hi
  cases hold
  refine ⟨hpatch, new, congrArg _ hm, ?_, hpatched⟩
  rw [hpatched.keys]
  decide

/-! ### Patches in a row -/

/-- A record in the place of another with the same id is found where that was. -/
theorem position?_set {i : ℕ} (hold : records[i]? = some old) (hid : id? new = id? old)
    (id : Int64) : position? id (records.set i new) = position? id records := by
  have hhas : hasId id new = hasId id old := by rw [hasId, hasId, hid]
  have hposition (records : List Json) :
      position? id records = (records.map (hasId id)).findIdx? fun found => found := by
    rw [List.findIdx?_map]
    rfl
  rw [hposition, hposition, map_set hold hhas]

/-- An update that finds a place by the records and writes there what `write` makes of the record
and the patch. -/
def Writes (update : Json → Members Json → Except RecordError Mutation)
    (place : List Json → Option ℕ) (write : Json → Members Json → Json) : Prop :=
  ∀ root patch m, update root patch = .ok m ↔ ∃ records i old, root = .array records ∧
    place records = some i ∧ records[i]? = some old ∧
    m = ⟨.array (records.set i (write old patch)), write old patch⟩

theorem writes_updateById (id : Int64) :
    Writes (updateById · id) (position? id) (patchedById id) :=
  fun _ _ _ => updateById_eq_ok

theorem writes_updateByIndex (index : ℕ) :
    Writes (updateByIndex · index) (fun _ => some index)
      fun old patch => .object (merged old patch) := by
  intro root patch m
  rw [updateByIndex_eq_ok]
  constructor
  · rintro ⟨records, old, hrecords, hold, hm⟩
    exact ⟨records, index, old, hrecords, rfl, hold, hm⟩
  · rintro ⟨records, _, old, hrecords, ⟨⟩, hold, hm⟩
    exact ⟨records, old, hrecords, hold, hm⟩

/-- A second patch after a first one does what the second, written over the first, does at once, and
the same patch again does nothing. -/
structure Composes (update : Json → Members Json → Except RecordError Mutation) (root : Json)
    (first : Members Json) : Prop where
  merged : ∀ second m, update root first = .ok m → ∃ after, update m.root second = .ok after ∧
    update root (Members.merge first second) = .ok after
  again : ∀ m, update root first = .ok m → update m.root first = .ok m

/-- Patches compose if the record that was written is found in the same place and written from its
members. -/
theorem Writes.composes {update : Json → Members Json → Except RecordError Mutation}
    {place : List Json → Option ℕ} {write : Json → Members Json → Json}
    (hupdate : Writes update place write) (hfirst : (Members.keys first).Nodup)
    (hwritten : ∀ records i old, place records = some i → records[i]? = some old →
      place (records.set i (write old first)) = some i ∧
      ∀ second, write (write old first) second = write old (Members.merge first second)) :
    Composes update root first := by
  have hmerged : ∀ second m, update root first = .ok m → ∃ after,
      update m.root second = .ok after ∧
      update root (Members.merge first second) = .ok after := by
    intro second m hm
    obtain ⟨records, i, old, rfl, hi, hold, rfl⟩ := (hupdate _ _ _).1 hm
    obtain ⟨hplace, hwrite⟩ := hwritten records i old hi hold
    have hlt : i < records.length := (List.getElem?_eq_some_iff.1 hold).1
    have hnew : (records.set i (write old first))[i]? = some (write old first) :=
      List.getElem?_set_self hlt
    refine ⟨_, (hupdate _ _ _).2 ⟨_, i, _, rfl, hplace, hnew, rfl⟩,
      (hupdate _ _ _).2 ⟨records, i, old, rfl, hi, hold, ?_⟩⟩
    rw [hwrite, List.set_set]
  refine ⟨hmerged, fun m hm => ?_⟩
  obtain ⟨after, hafter, hboth⟩ := hmerged first m hm
  rw [Members.merge_self hfirst, hm] at hboth
  rw [hafter, Except.ok.inj hboth]

theorem merged_merged (hfirst : (Members.keys first).Nodup) (old : Json)
    (second : Members Json) :
    merged (.object (merged old first)) second = merged old (Members.merge first second) :=
  Members.merge_merge hfirst

/-- The id that is kept by the first patch is kept by the second. -/
theorem patchedById_patchedById (hfirst : (Members.keys first).Nodup) (hhas : hasId id old = true)
    (second : Members Json) :
    patchedById id (patchedById id old first) second =
      patchedById id old (Members.merge first second) := by
  obtain ⟨members, n, rfl, hid⟩ := exists_members_of_hasId hhas
  have hmem : idField ∈ Members.keys (Members.merge members first) :=
    Members.mem_keys_merge.2 (.inl (Members.exists_get?_iff.1 ⟨_, hid⟩))
  rw [patchedById_object hid, patchedById_object hid,
    patchedById_object (Members.get?_put_self _ _ _), Members.put_merge_put hmem,
    Members.merge_merge hfirst]

/-- **Two patches in a row do what the second, written over the first, does at once, by id as by
place; and a patch that is given twice does what it does once.** -/
theorem patches_compose (root : Json) (first : Members Json)
    (hfirst : (Members.keys first).Nodup) :
    (∀ id, Composes (updateById · id) root first) ∧
      ∀ index, Composes (updateByIndex · index) root first := by
  constructor
  · intro id
    refine (writes_updateById id).composes hfirst fun records i old hi hold => ?_
    have hhas := hasId_of_position? hi hold
    exact ⟨(position?_set hold (id?_patchedById hhas) id).trans hi,
      patchedById_patchedById hfirst hhas⟩
  · intro index
    refine (writes_updateByIndex index).composes hfirst fun records i old hi _ => ⟨hi, ?_⟩
    intro second
    rw [merged_merged hfirst]

/-- The patch gives the person no other id, so that a second patch finds the person again. -/
theorem patches_compose_person :
    (Members.keys promotion).Nodup ∧ ∃ m after,
      updateById (.array [.object person]) 5 promotion = .ok m ∧
      updateById m.root 5 [("dept", .null), ("id", .null)] = .ok after ∧
      updateById (.array [.object person]) 5
        (Members.merge promotion [("dept", .null), ("id", .null)]) = .ok after := by
  have hfirst : (Members.keys promotion).Nodup := by decide
  obtain ⟨after, hafter, hboth⟩ :=
    ((patches_compose (.array [.object person]) promotion hfirst).1 5).merged
      [("dept", .null), ("id", .null)] _ rfl
  exact ⟨hfirst, _, after, rfl, hafter, hboth⟩

end JsonShelf.Records
