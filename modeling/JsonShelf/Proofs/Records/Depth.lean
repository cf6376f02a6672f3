/-
**How deep a changed collection nests.**

A collection that was read nests no deeper than the limit of the reader.  A change puts one record
into it, two containers below the top, and whether the new collection still can be read depends on
how deep that record nests, and on nothing else.

Main results:

* `Records.nesting_append_le_iff`, `Records.nesting_updateById_le_iff`,
  `Records.nesting_updateByIndex_le_iff`, `Records.nesting_deleteById_le` — **the new collection
  stays within a limit exactly when the record or patch leaves room for what is around it**;
* `Records.canonical_append` and its like — new collections hold each key once.
-/

import JsonShelf.Proofs.Records.Mutation
import Mathlib.Data.Int.Notation

set_option autoImplicit false

namespace JsonShelf.Records

open Json

variable {records : List Json} {record old : Json} {members patch : Members Json} {limit : ℕ}

/-! ### The next id -/

theorem nesting_idOfFloat (x : Binary64) : (idOfFloat x).nesting = 0 := by
  unfold idOfFloat
  split
  · split
    · exact nesting_ofInt _
    · rfl
  · rfl

theorem nesting_successorFloat (first : Number) (rest : List Number) :
    (successorFloat first rest).nesting = 0 := by
  unfold successorFloat
  split
  · exact nesting_idOfFloat _
  · rfl

theorem nesting_nextId (records : List Json) : (nextId records).nesting = 0 := by
  unfold nextId
  split
  · exact nesting_ofInt 1
  · split
    · split
      · exact nesting_ofInt _
      · exact nesting_successorFloat _ _
    · exact nesting_successorFloat _ _

/-! ### The records concerned -/

/-- The members of a record that holds each key once, at any depth. -/
theorem canonical_members (h : Canonical old) :
    (Members.keys (old.members?.getD [])).Nodup ∧ CanonicalMembers (old.members?.getD []) := by
  cases old with
  | object members => exact h
  | null | bool | number | string | array => exact ⟨List.nodup_nil, trivial⟩

theorem canonical_withId (h : Canonical record) : Canonical (withId records record) := by
  rcases withId_eq_or records record with heq | ⟨members, rfl, _, heq⟩
  · rw [heq]
    exact h
  · rw [heq]
    exact ⟨Members.nodup_keys_put _ _ h.1,
      canonicalMembers_put (canonical_of_nesting (nesting_nextId records)) h.2⟩

/-- An id adds no depth. -/
theorem nesting_withId_le_iff (records : List Json) (h : Canonical record) :
    (withId records record).nesting ≤ limit ↔ record.nesting ≤ limit := by
  rcases withId_eq_or records record with heq | ⟨members, rfl, hid, heq⟩
  · rw [heq]
  · rw [heq]
    cases limit with
    | zero => exact ⟨nofun, nofun⟩
    | succ n =>
        rw [nesting_object_le_iff, nesting_object_le_iff,
          Members.forall_mem_iff_get? (p := fun _ v => v.nesting ≤ n)
            (Members.nodup_keys_put idField (nextId records) h.1),
          Members.forall_mem_iff_get? (p := fun _ v => v.nesting ≤ n) h.1]
        constructor
        · intro hall key value hget
          by_cases hkey : idField = key
          · subst hkey
            rcases hid with hnone | hnull
            · rw [hnone] at hget
              cases hget
            · rw [hnull] at hget
              cases hget
              exact Nat.zero_le n
          · refine hall key value ?_
            rw [Members.get?_put, if_neg hkey, hget]
        · intro hall key value hget
          rw [Members.get?_put] at hget
          split at hget
          · -- the assigned id is a scalar, so it is never too deep
            cases hget
            rw [nesting_nextId]
            exact Nat.zero_le n
          · exact hall key value hget

theorem nesting_members_le {n : ℕ} (h : old.nesting ≤ n + 1) :
    ∀ member ∈ old.members?.getD [], member.2.nesting ≤ n := by
  cases old with
  | object members => exact nesting_object_le_iff.1 h
  | null | bool | number | string | array => exact nofun

/-- What a patch writes decides how deep the record nests, if the record was not too deep. -/
theorem nesting_merged_le_iff {n : ℕ} (hold : Canonical old) (hdeep : old.nesting ≤ n + 1)
    (hpatch : (Members.keys patch).Nodup) :
    nesting (.object (merged old patch)) ≤ n + 1 ↔ nesting (.object patch) ≤ n + 1 := by
  have hkeys := canonical_members hold
  have hmembers := nesting_members_le hdeep
  rw [nesting_object_le_iff, nesting_object_le_iff,
    Members.forall_mem_iff_get? (p := fun _ v => v.nesting ≤ n) hpatch, merged,
    Members.forall_mem_iff_get? (p := fun _ v => v.nesting ≤ n)
      (Members.nodup_keys_merge hkeys.1 patch)]
  rw [Members.forall_mem_iff_get? (p := fun _ v => v.nesting ≤ n) hkeys.1] at hmembers
  constructor
  · intro hall key value hget
    refine hall key value ?_
    rw [Members.get?_merge hpatch, hget]
    rfl
  · intro hall key value hget
    rw [Members.get?_merge hpatch] at hget
    rcases Option.or_eq_some_iff.1 hget with h | ⟨_, h⟩
    · exact hall key value h
    · exact hmembers key value h

/-- The values that a patch writes when the id is left alone. -/
theorem nesting_patchedById_le_iff {n : ℕ} {id : Int64} (hold : Canonical old)
    (hdeep : old.nesting ≤ n + 1) (hid : hasId id old = true)
    (hpatch : (Members.keys patch).Nodup) :
    (patchedById id old patch).nesting ≤ n + 1 ↔
      ∀ member ∈ patch, member.1 ≠ idField → member.2.nesting ≤ n := by
  obtain ⟨number, hnumber, _⟩ := exists_id?_of_hasId hid
  have hkeys := canonical_members hold
  have hmembers := nesting_members_le hdeep
  rw [patchedById_of_id? hnumber, nesting_object_le_iff,
    Members.forall_mem_iff_get? (p := fun k v => k ≠ idField → v.nesting ≤ n) hpatch, merged,
    Members.forall_mem_iff_get? (p := fun _ v => v.nesting ≤ n)
      (Members.nodup_keys_put _ _ (Members.nodup_keys_merge hkeys.1 patch))]
  rw [Members.forall_mem_iff_get? (p := fun _ v => v.nesting ≤ n) hkeys.1] at hmembers
  constructor
  · intro hall key value hget hne
    refine hall key value ?_
    rw [Members.get?_put, if_neg hne.symm, Members.get?_merge hpatch, hget]
    rfl
  · intro hall key value hget
    rw [Members.get?_put] at hget
    split at hget
    · cases hget
      exact Nat.zero_le n
    · next hne =>
      rw [Members.get?_merge hpatch] at hget
      -- a value of the new record was written by the patch or was there before
      rcases Option.or_eq_some_iff.1 hget with h | ⟨_, h⟩
      · exact hall key value h (Ne.symm hne)
      · exact hmembers key value h

theorem canonical_patchedById {id : Int64} (hold : Canonical old) (hid : hasId id old = true)
    (hpatch : CanonicalMembers patch) : Canonical (patchedById id old patch) := by
  obtain ⟨number, hnumber, _⟩ := exists_id?_of_hasId hid
  have hkeys := canonical_members hold
  rw [patchedById_of_id? hnumber]
  exact ⟨Members.nodup_keys_put _ _ (Members.nodup_keys_merge hkeys.1 patch),
    canonicalMembers_put trivial (canonicalMembers_merge hkeys.2 hpatch)⟩

theorem canonical_merged (hold : Canonical old) (hpatch : CanonicalMembers patch) :
    Canonical (.object (merged old patch)) := by
  have hkeys := canonical_members hold
  exact ⟨Members.nodup_keys_merge hkeys.1 patch, canonicalMembers_merge hkeys.2 hpatch⟩

/-! ### The new collections -/

section Collections

variable {root : Json} {mutation : Mutation} {n : ℕ} {id : Int64}

theorem nesting_set_le_iff {index : ℕ} {new : Json} (hroot : nesting (.array records) ≤ n + 1)
    (hold : records[index]? = some old) :
    nesting (.array (records.set index new)) ≤ n + 1 ↔ new.nesting ≤ n := by
  obtain ⟨hindex, -⟩ := List.getElem?_eq_some_iff.1 hold
  rw [nesting_array_le_iff] at hroot ⊢
  refine ⟨fun hall => hall new (List.mem_set hindex new), ?_⟩
  intro hnew record hrecord
  rcases List.mem_or_eq_of_mem_set hrecord with h | rfl
  · exact hroot record h
  · exact hnew

theorem canonical_set {index : ℕ} {new : Json} (hroot : Canonical (.array records))
    (hnew : Canonical new) : Canonical (.array (records.set index new)) := by
  rw [Canonical, canonicalItems_iff] at hroot ⊢
  intro record hrecord
  rcases List.mem_or_eq_of_mem_set hrecord with h | rfl
  · exact hroot record h
  · exact hnew

theorem canonical_of_getElem? {index : ℕ} (hroot : Canonical (.array records))
    (hold : records[index]? = some old) : Canonical old := by
  rw [Canonical, canonicalItems_iff] at hroot
  exact hroot old (List.mem_of_getElem? hold)

theorem nesting_of_getElem? {index : ℕ} (hroot : nesting (.array records) ≤ n + 1)
    (hold : records[index]? = some old) : old.nesting ≤ n :=
  nesting_array_le_iff.1 hroot old (List.mem_of_getElem? hold)

theorem nesting_append_le_iff (hroot : root.nesting ≤ n + 1) (hrecord : Canonical record)
    (h : append root record = .ok mutation) :
    mutation.root.nesting ≤ n + 1 ↔ record.nesting ≤ n := by
  obtain ⟨records, rfl, rfl⟩ := append_eq_ok.1 h
  rw [nesting_array_le_iff] at hroot ⊢
  rw [← nesting_withId_le_iff records hrecord]
  constructor
  · exact fun hall => hall _ (List.mem_append_right _ (List.mem_singleton_self _))
  · intro hnew r hr
    rcases List.mem_append.1 hr with hr | hr
    · exact hroot r hr
    · rw [List.mem_singleton.1 hr]
      exact hnew

theorem canonical_append (hroot : Canonical root) (hrecord : Canonical record)
    (h : append root record = .ok mutation) : Canonical mutation.root := by
  obtain ⟨records, rfl, rfl⟩ := append_eq_ok.1 h
  rw [Canonical, canonicalItems_iff] at hroot ⊢
  intro r hr
  rcases List.mem_append.1 hr with hr | hr
  · exact hroot r hr
  · rw [List.mem_singleton.1 hr]
    exact canonical_withId hrecord

theorem nesting_updateById_le_iff (hroot : root.nesting ≤ n + 2) (hcanonical : Canonical root)
    (hpatch : (Members.keys patch).Nodup) (h : updateById root id patch = .ok mutation) :
    mutation.root.nesting ≤ n + 2 ↔
      ∀ member ∈ patch, member.1 ≠ idField → member.2.nesting ≤ n := by
  obtain ⟨records, index, old, rfl, hindex, hold, rfl⟩ := updateById_eq_ok.1 h
  obtain ⟨found, hfound, hid, -⟩ := position?_eq_some.1 hindex
  obtain rfl := Option.some.inj (hfound.symm.trans hold)
  rw [nesting_set_le_iff hroot hold]
  exact nesting_patchedById_le_iff (canonical_of_getElem? hcanonical hold)
    (nesting_of_getElem? hroot hold) hid hpatch

theorem canonical_updateById (hcanonical : Canonical root) (hpatch : CanonicalMembers patch)
    (h : updateById root id patch = .ok mutation) : Canonical mutation.root := by
  obtain ⟨records, index, old, rfl, hindex, hold, rfl⟩ := updateById_eq_ok.1 h
  obtain ⟨found, hfound, hid, -⟩ := position?_eq_some.1 hindex
  obtain rfl := Option.some.inj (hfound.symm.trans hold)
  exact canonical_set hcanonical
    (canonical_patchedById (canonical_of_getElem? hcanonical hold) hid hpatch)

theorem nesting_updateByIndex_le_iff {index : ℕ} (hroot : root.nesting ≤ n + 2)
    (hcanonical : Canonical root) (hpatch : (Members.keys patch).Nodup)
    (h : updateByIndex root index patch = .ok mutation) :
    mutation.root.nesting ≤ n + 2 ↔ nesting (.object patch) ≤ n + 1 := by
  obtain ⟨records, old, rfl, hold, rfl⟩ := updateByIndex_eq_ok.1 h
  rw [nesting_set_le_iff hroot hold]
  exact nesting_merged_le_iff (canonical_of_getElem? hcanonical hold)
    (nesting_of_getElem? hroot hold) hpatch

theorem canonical_updateByIndex {index : ℕ} (hcanonical : Canonical root)
    (hpatch : CanonicalMembers patch) (h : updateByIndex root index patch = .ok mutation) :
    Canonical mutation.root := by
  obtain ⟨records, old, rfl, hold, rfl⟩ := updateByIndex_eq_ok.1 h
  exact canonical_set hcanonical (canonical_merged (canonical_of_getElem? hcanonical hold) hpatch)

theorem nesting_deleteById_le (h : deleteById root id = .ok mutation) :
    mutation.root.nesting ≤ root.nesting := by
  obtain ⟨records, index, old, rfl, -, -, rfl⟩ := deleteById_eq_ok.1 h
  refine nesting_array_le_iff.2 ?_
  intro record hrecord
  exact nestingItems_le_iff.1 (Nat.le_refl _) record (List.mem_of_mem_eraseIdx hrecord)

theorem canonical_deleteById (hcanonical : Canonical root)
    (h : deleteById root id = .ok mutation) : Canonical mutation.root := by
  obtain ⟨records, index, old, rfl, -, -, rfl⟩ := deleteById_eq_ok.1 h
  rw [Canonical, canonicalItems_iff] at hcanonical ⊢
  exact fun record hrecord => hcanonical record (List.mem_of_mem_eraseIdx hrecord)

end Collections

end JsonShelf.Records
