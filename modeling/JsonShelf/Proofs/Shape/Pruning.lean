/-
**What pruning leaves.**

A shape is inferred from the first items of each array only, so nothing that inference looks at is
lost when the arrays are cut to as many items.

Main results:

* `Json.items_prune`, `Json.get?_prune` — what is left inside a container, pruned itself;
* `Shape.infer_prune` — **a pruned value has the shape of the value**.
-/

import JsonShelf.Json.Path
import JsonShelf.Proofs.Json.Nesting
import JsonShelf.Proofs.Shape.Union

set_option autoImplicit false

namespace JsonShelf

namespace Json

theorem pruneItems_eq_map (count left : ℕ) (items : List Json) :
    pruneItems count left items = (items.take left).map (prune count) := by
  induction items generalizing left with
  | nil => cases left <;> rfl
  | cons item rest ih =>
      cases left with
      | zero => rfl
      | succ left => rw [pruneItems, ih, List.take_succ_cons, List.map_cons]

theorem pruneMembers_eq_map (count : ℕ) (members : Members Json) :
    pruneMembers count members = members.map fun member => (member.1, prune count member.2) := by
  induction members with
  | nil => rfl
  | cons member rest ih => rw [pruneMembers, ih, List.map_cons]

theorem prune_array (count : ℕ) (items : List Json) :
    prune count (.array items) = .array ((items.take count).map (prune count)) := by
  rw [prune, pruneItems_eq_map]

theorem prune_object (count : ℕ) (members : Members Json) :
    prune count (.object members) =
      .object (members.map fun member => (member.1, prune count member.2)) := by
  rw [prune, pruneMembers_eq_map]

/-- The first items are left, each pruned. -/
theorem items_prune (count : ℕ) (value : Json) :
    (prune count value).items?.getD [] = ((value.items?.getD []).take count).map (prune count) := by
  cases value with
  | array items =>
      rw [prune_array]
      rfl
  | null | bool | number | string | object => simp [prune, items?]

/-- Every member is left, its value pruned. -/
theorem get?_prune (count : ℕ) (key : String) (value : Json) :
    (prune count value).get? key = (value.get? key).map (prune count) := by
  cases value with
  | object members =>
      rw [prune_object]
      exact Members.get?_map key (fun _ => prune count) members
  | null | bool | number | string | array => rfl

end Json

namespace Shape

/-- **A pruned value has the shape of the value.** -/
theorem infer_prune (value : Json) : infer (value.prune sampleSize) = infer value := by
  induction value using Json.induction with
  | null | bool | number | string => rfl
  | array items ih =>
      have hitems : ((items.take sampleSize).map (Json.prune sampleSize)).map infer =
          (items.take sampleSize).map infer := by
        rw [List.map_map]
        exact List.map_congr_left fun item hitem => ih item (List.mem_of_mem_take hitem)
      rw [Json.prune_array, infer, infer, inferFirst_eq_map, inferFirst_eq_map, List.map_take,
        hitems, ← List.map_take, List.take_take, Nat.min_self]
  | object members ih =>
      rw [Json.prune_object, infer, infer, inferMembers_eq_map, inferMembers_eq_map, List.map_map]
      refine congrArg object (List.map_congr_left ?_)
      intro member hmember
      exact congrArg (Prod.mk member.1) (ih member hmember)

end Shape

end JsonShelf
