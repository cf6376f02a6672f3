/-
**How deep containers nest.**

The readers of JSON refuse a text by how deep its containers nest, so this depth is followed through
every way in which values are built here.

Main definitions:

* `Json.nesting` — how many containers lie inside one another at the deepest place of a value.

Main results:

* `Json.induction` — induction on values, with the contents of containers as members of lists;
* `Json.nesting_array_le_iff`, `Json.nesting_object_le_iff` — a container against its contents;
* `Json.canonical_eq_self` — a value that holds each key once is its own canonical form;
* `Json.nesting_canonical_le` — the canonical form nests no deeper.
-/

import JsonShelf.Json.Basic
import JsonShelf.Proofs.Json.Members

set_option autoImplicit false

namespace JsonShelf.Json

/-! ### Induction on values -/

/-- A property of all scalars, and of every container of whose contents it holds, holds of all
values. -/
theorem induction {motive : Json → Prop} (null : motive .null) (bool : ∀ b, motive (.bool b))
    (number : ∀ n, motive (.number n)) (string : ∀ s, motive (.string s))
    (array : ∀ items, (∀ item ∈ items, motive item) → motive (.array items))
    (object : ∀ members : Members Json, (∀ member ∈ members, motive member.2) →
      motive (.object members))
    (value : Json) : motive value := by
  refine @Json.rec motive (fun items => ∀ item ∈ items, motive item)
    (fun members => ∀ member ∈ members, motive member.2) (fun member => motive member.2)
    null bool number string array object ?_ ?_ ?_ ?_ ?_ value
  · exact nofun
  · exact fun item rest hitem hrest => List.forall_mem_cons.2 ⟨hitem, hrest⟩
  · exact nofun
  · exact fun member rest hmember hrest => List.forall_mem_cons.2 ⟨hmember, hrest⟩
  · exact fun key value hvalue => hvalue

/-! ### The contents of containers -/

variable {items : List Json} {members : Members Json}

/-- Only objects have members to look up. -/
theorem exists_members_of_get? {value inner : Json} {key : String}
    (h : value.get? key = some inner) :
    ∃ members, value = .object members ∧ Members.get? key members = some inner := by
  cases value with
  | object members => exact ⟨members, rfl, h⟩
  | null | bool | number | string | array => cases h

theorem canonicalItems_iff : CanonicalItems items ↔ ∀ item ∈ items, Canonical item := by
  induction items with
  | nil => exact ⟨fun _ => nofun, fun _ => trivial⟩
  | cons item rest ih => rw [CanonicalItems, ih, List.forall_mem_cons]

theorem canonicalMembers_iff :
    CanonicalMembers members ↔ ∀ member ∈ members, Canonical member.2 := by
  induction members with
  | nil => exact ⟨fun _ => nofun, fun _ => trivial⟩
  | cons member rest ih => rw [CanonicalMembers, ih, List.forall_mem_cons]

theorem canonicalItems_eq_map : canonicalItems items = items.map canonical := by
  induction items with
  | nil => rfl
  | cons item rest ih => rw [canonicalItems, ih, List.map_cons]

theorem canonicalMembers_eq_map :
    canonicalMembers members = members.map fun member => (member.1, canonical member.2) := by
  induction members with
  | nil => rfl
  | cons member rest ih => rw [canonicalMembers, ih, List.map_cons]

/-- A value that holds each key once is its own canonical form. -/
theorem canonical_eq_self {value : Json} (h : Canonical value) : canonical value = value := by
  induction value using Json.induction with
  | null | bool | number | string => rfl
  | array items ih =>
      rw [Canonical, canonicalItems_iff] at h
      rw [canonical, canonicalItems_eq_map,
        List.map_congr_left fun item hi => ih item hi (h item hi), List.map_id'']
      exact fun _ => rfl
  | object members ih =>
      rw [Canonical, canonicalMembers_iff] at h
      have hmap : canonicalMembers members = members := by
        rw [canonicalMembers_eq_map, List.map_congr_left (g := id), List.map_id]
        intro member hm
        rw [ih member hm (h.2 member hm)]
        rfl
      rw [canonical, hmap, Members.collapse_eq_self h.1]

/-! ### Nesting -/

mutual

/-- How many containers lie inside one another at the deepest place of a value. -/
def nesting : Json → ℕ
  | array items => nestingItems items + 1
  | object members => nestingMembers members + 1
  | null | bool _ | number _ | string _ => 0

/-- `Json.nesting` of the deepest item. -/
def nestingItems : List Json → ℕ
  | [] => 0
  | item :: rest => max (nesting item) (nestingItems rest)

/-- `Json.nesting` of the deepest value of a member. -/
def nestingMembers : List (String × Json) → ℕ
  | [] => 0
  | (_, value) :: rest => max (nesting value) (nestingMembers rest)

end

theorem nestingItems_le_iff {n : ℕ} :
    nestingItems items ≤ n ↔ ∀ item ∈ items, nesting item ≤ n := by
  induction items with
  | nil => exact ⟨fun _ => nofun, fun _ => Nat.zero_le n⟩
  | cons item rest ih => rw [nestingItems, Nat.max_le, ih, List.forall_mem_cons]

theorem nestingMembers_le_iff {n : ℕ} :
    nestingMembers members ≤ n ↔ ∀ member ∈ members, nesting member.2 ≤ n := by
  induction members with
  | nil => exact ⟨fun _ => nofun, fun _ => Nat.zero_le n⟩
  | cons member rest ih => rw [nestingMembers, Nat.max_le, ih, List.forall_mem_cons]

theorem nesting_array_le_iff {n : ℕ} :
    nesting (.array items) ≤ n + 1 ↔ ∀ item ∈ items, nesting item ≤ n := by
  rw [nesting, Nat.add_le_add_iff_right, nestingItems_le_iff]

theorem nesting_object_le_iff {n : ℕ} :
    nesting (.object members) ≤ n + 1 ↔ ∀ member ∈ members, nesting member.2 ≤ n := by
  rw [nesting, Nat.add_le_add_iff_right, nestingMembers_le_iff]

theorem nesting_ofInt (value : Int) : (ofInt value).nesting = 0 := by
  unfold ofInt
  cases Number.ofInt? value <;> rfl

/-- A scalar holds no key. -/
theorem canonical_of_nesting {value : Json} (h : value.nesting = 0) : Canonical value := by
  cases value with
  | null | bool | number | string => trivial
  | array | object => cases h

theorem canonical_ofInt (value : Int) : (ofInt value).Canonical :=
  canonical_of_nesting (nesting_ofInt value)

/-- The canonical form nests no deeper: of the members of one key, only the last is kept. -/
theorem nesting_canonical_le (value : Json) : nesting (canonical value) ≤ nesting value := by
  induction value using Json.induction with
  | null | bool | number | string => exact Nat.le_refl _
  | array items ih =>
      refine Nat.add_le_add_right (nestingItems_le_iff.2 ?_) 1
      intro item hi
      rw [canonicalItems_eq_map, List.mem_map] at hi
      obtain ⟨raw, hraw, rfl⟩ := hi
      exact Nat.le_trans (ih raw hraw) (nestingItems_le_iff.1 (Nat.le_refl _) raw hraw)
  | object members ih =>
      refine Nat.add_le_add_right (nestingMembers_le_iff.2 ?_) 1
      intro member hm
      rcases Members.mem_merge hm with h | h
      · cases h
      · rw [canonicalMembers_eq_map, List.mem_map] at h
        obtain ⟨raw, hraw, rfl⟩ := h
        exact Nat.le_trans (ih raw hraw) (nestingMembers_le_iff.1 (Nat.le_refl _) raw hraw)

end JsonShelf.Json
