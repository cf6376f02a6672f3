/-
**Values up to the order of their keys.**

Main definitions:

* `Json.Reordered` — two values differ at most in the order of the keys of objects, at any depth.

Main results:

* `Json.Reordered.of_perm` — the members of an object may come in any order;
* `Json.Reordered.depth_eq` — the values are equally deep;
* `Members.forall_mem_iff_of_perm` — what holds of all members does not depend on their order.
-/

import JsonShelf.Json.Path
import JsonShelf.Proofs.Json.Nesting
import JsonShelf.Proofs.Json.Paths
import Mathlib.Data.List.Forall2

set_option autoImplicit false

namespace JsonShelf

/-! ### Members in another order -/

namespace Members

variable {α : Type} {members other : Members α}

/-- The same keys are missing in another order, and the same are there. -/
theorem get?_of_perm (h : (keys members).Perm (keys other)) (key : String) :
    (get? key members = none ∧ get? key other = none) ∨
      ∃ value value', get? key members = some value ∧ get? key other = some value' := by
  have hiff : key ∈ keys members ↔ key ∈ keys other := h.mem_iff
  by_cases hkey : key ∈ keys members
  · obtain ⟨value, hvalue⟩ := exists_get?_iff.2 hkey
    obtain ⟨value', hvalue'⟩ := exists_get?_iff.2 (hiff.1 hkey)
    exact .inr ⟨value, value', hvalue, hvalue'⟩
  · exact .inl ⟨get?_eq_none_of_notMem hkey, get?_eq_none_of_notMem (mt hiff.2 hkey)⟩

/-- What holds of all members holds of all in another order, if it does not tell apart the values
that stand under one key. -/
theorem forall_mem_iff_of_perm {p q : String → α → Prop} (hkeys : (keys members).Nodup)
    (hperm : (keys members).Perm (keys other))
    (h : ∀ key value value', get? key members = some value → get? key other = some value' →
      (p key value ↔ q key value')) :
    (∀ member ∈ members, p member.1 member.2) ↔ ∀ member ∈ other, q member.1 member.2 := by
  rw [forall_mem_iff_get? hkeys, forall_mem_iff_get? (hperm.nodup_iff.1 hkeys)]
  refine forall_congr' fun key => ?_
  rcases get?_of_perm hperm key with ⟨hnone, hnone'⟩ | ⟨value, value', hvalue, hvalue'⟩
  · simp [hnone, hnone']
  · simp [hvalue, hvalue', h key value value' hvalue hvalue']

end Members

namespace Json

/-! ### Depths of contents -/

theorem depthOfItems_congr {items items' : List Json}
    (h : List.Forall₂ (fun item item' => depth item = depth item') items items') :
    depthOfItems items = depthOfItems items' := by
  induction h with
  | nil => rfl
  | cons hitem _ ih => rw [depthOfItems, depthOfItems, hitem, ih]

/-! ### Values in another order -/

/-- The values differ at most in the order of the keys of objects, at any depth. -/
inductive Reordered : Json → Json → Prop
  | refl (value : Json) : Reordered value value
  /-- Items stay in their places. -/
  | array {items items' : List Json} : items.length = items'.length →
      (∀ item item', (item, item') ∈ items.zip items' → Reordered item item') →
      Reordered (.array items) (.array items')
  /-- The same keys stand in some order, each with its value. -/
  | object {members members' : Members Json} :
      (Members.keys members).Perm (Members.keys members') →
      (∀ key value value', Members.get? key members = some value →
        Members.get? key members' = some value' → Reordered value value') →
      Reordered (.object members) (.object members')

namespace Reordered

variable {value value' : Json}

/-- In another order, the members of an object make a reordered one. -/
theorem of_perm {members members' : Members Json} (h : members.Perm members')
    (hkeys : (Members.keys members).Nodup) : Reordered (.object members) (.object members') := by
  refine .object (h.map Prod.fst) ?_
  intro key value value' hget hget'
  have hmem := h.symm.subset (Members.mem_of_get? hget')
  obtain rfl := Option.some.inj (hget.symm.trans (Members.get?_of_mem hkeys hmem))
  exact .refl value

/-- Items are compared place by place. -/
theorem forall₂_items {items items' : List Json} {r : Json → Json → Prop}
    (hlength : items.length = items'.length)
    (h : ∀ item item', (item, item') ∈ items.zip items' → item ∈ items → r item item') :
    List.Forall₂ r items items' :=
  List.forall₂_iff_zip.2 ⟨hlength, fun hmem => h _ _ hmem (List.of_mem_zip hmem).1⟩

/-- The values are equally deep. -/
theorem depth_eq (h : value.Reordered value') (hvalue : value.Canonical) :
    value.depth = value'.depth := by
  induction h with
  | refl => rfl
  | @array items items' hlength _ ih =>
      rw [Canonical, canonicalItems_iff] at hvalue
      have hdepth := depthOfItems_congr
        (forall₂_items hlength fun item item' hmem hitem => ih item item' hmem (hvalue item hitem))
      rw [depth_array, depth_array, hlength, hdepth]
  | @object members members' hperm _ ih =>
      rw [Canonical, canonicalMembers_iff] at hvalue
      have hlength : members.length = members'.length := by
        simpa [Members.keys] using hperm.length_eq
      -- the order does not matter to a bound on all members, and the bounds tell the depth
      have hle : ∀ n, depthOfMembers members ≤ n ↔ depthOfMembers members' ≤ n := by
        intro n
        rw [depthOfMembers_le_iff, depthOfMembers_le_iff]
        refine Members.forall_mem_iff_of_perm (p := fun _ value => value.depth ≤ n)
          (q := fun _ value => value.depth ≤ n) hvalue.1 hperm ?_
        intro key value value' hget hget'
        rw [ih key value value' hget hget' (hvalue.2 _ (Members.mem_of_get? hget))]
      have hdepth : depthOfMembers members = depthOfMembers members' :=
        Nat.le_antisymm ((hle _).2 (Nat.le_refl _)) ((hle _).1 (Nat.le_refl _))
      rw [depth_object, depth_object, hlength, hdepth]

end Reordered

end Json

end JsonShelf
