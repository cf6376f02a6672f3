/-
**Following paths.**

Main definitions:

* `Json.Oversized` — some array, the value itself or one inside it, has more items than are looked
  at when its shape is inferred.

Main results:

* `Json.resolve?_append` — a path in two parts is followed part by part;
* `Json.Oversized.of_resolve?` — what is inside a value is inside what is around it;
* `Json.depth_lt_of_mem_items`, `Json.depth_lt_of_mem_members` — what is inside is less deep.
-/

import JsonShelf.Json.Path
import JsonShelf.Shape.Infer
import Mathlib.Data.Nat.Notation

set_option autoImplicit false

namespace JsonShelf.Json

variable {value inner : Json} {segment : Segment} {path : Path}

theorem resolve?_cons (value : Json) (segment : Segment) (path : Path) :
    value.resolve? (segment :: path) = (value.step? segment).bind (resolve? · path) := rfl

/-- A path in two parts is followed part by part. -/
theorem resolve?_append (value : Json) (front back : Path) :
    value.resolve? (front ++ back) = (value.resolve? front).bind (resolve? · back) := by
  induction front generalizing value with
  | nil => rfl
  | cons segment front ih =>
      rw [List.cons_append, resolve?_cons, resolve?_cons]
      cases value.step? segment with
      | none => rfl
      | some inner => exact ih inner

theorem step?_index_eq_some {n : ℕ} :
    value.step? (.index n) = some inner ↔
      ∃ items, value = .array items ∧ items[n]? = some inner := by
  cases value with
  | array items => exact ⟨fun h => ⟨items, rfl, h⟩, fun ⟨_, hitems, h⟩ => array.inj hitems ▸ h⟩
  | null | bool | number | string | object => exact ⟨nofun, nofun⟩

/-- Some array, the value itself or one inside it, has more items than are looked at when its shape
is inferred. -/
def Oversized (value : Json) : Prop :=
  ∃ path items, value.resolve? path = some (.array items) ∧ sampleSize < items.length

theorem Oversized.of_resolve? (h : value.resolve? path = some inner) (hinner : inner.Oversized) :
    value.Oversized := by
  obtain ⟨rest, items, hitems, hlength⟩ := hinner
  refine ⟨path ++ rest, items, ?_, hlength⟩
  rw [resolve?_append, h, Option.bind_some, hitems]

/-! ### Depth -/

variable {items : List Json} {members : Members Json}

theorem depth_array (items : List Json) :
    depth (.array items) = if items.length = 0 then 0 else depthOfItems items + 1 := by
  cases items <;> rfl

theorem depth_object (members : Members Json) :
    depth (.object members) = if members.length = 0 then 0 else depthOfMembers members + 1 := by
  cases members <;> rfl

theorem depthOfItems_le_iff {n : ℕ} : depthOfItems items ≤ n ↔ ∀ item ∈ items, depth item ≤ n := by
  induction items with
  | nil => simp [depthOfItems]
  | cons item rest ih => rw [depthOfItems, Nat.max_le, ih, List.forall_mem_cons]

theorem depthOfMembers_eq (members : Members Json) :
    depthOfMembers members = depthOfItems (members.map Prod.snd) := by
  induction members with
  | nil => rfl
  | cons member rest ih => rw [depthOfMembers, ih, List.map_cons, depthOfItems]

theorem depthOfMembers_le_iff {n : ℕ} :
    depthOfMembers members ≤ n ↔ ∀ member ∈ members, depth member.2 ≤ n := by
  rw [depthOfMembers_eq, depthOfItems_le_iff, List.forall_mem_map]

theorem depth_lt_of_mem_items {item : Json} (h : item ∈ items) :
    item.depth < (Json.array items).depth := by
  rw [depth_array, if_neg fun hnil => List.ne_nil_of_mem h (List.length_eq_zero_iff.1 hnil)]
  exact Nat.lt_succ_of_le (depthOfItems_le_iff.1 (Nat.le_refl _) item h)

theorem depth_lt_of_mem_members {member : String × Json} (h : member ∈ members) :
    member.2.depth < (Json.object members).depth := by
  rw [depth_object, if_neg fun hnil => List.ne_nil_of_mem h (List.length_eq_zero_iff.1 hnil)]
  exact Nat.lt_succ_of_le (depthOfMembers_le_iff.1 (Nat.le_refl _) member h)

end JsonShelf.Json
