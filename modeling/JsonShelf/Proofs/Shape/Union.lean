/-
**The members of a union.**

Main results:

* `Shape.mem_distinctAlternatives` — the alternatives of a union are those of its parts;
* `Shape.nodup_distinctAlternatives` — none of them stands twice;
* `Shape.unionOf_cases` — a union is unknown, its only alternative, or the union of at least two;
* `Shape.infer_mem_distinctAlternatives` — the shapes of the samples of an array are among the
  alternatives of its elements.
-/

import JsonShelf.Shape.Infer
import Mathlib.Data.List.Basic
import Mathlib.Data.List.Nodup

set_option autoImplicit false

namespace JsonShelf.Shape

variable {shape : Shape} {shapes members : List Shape} {items : List Json} {item : Json}

/-! ### Alternatives -/

theorem mem_addDistinct {other : Shape} :
    other ∈ addDistinct shapes shape ↔ other ∈ shapes ∨ other = shape := by
  rw [addDistinct]
  split
  · next hmem =>
    exact ⟨.inl, fun h => h.elim id fun e => e ▸ hmem⟩
  · rw [List.mem_append, List.mem_singleton]

theorem mem_foldl_addDistinct (added : List Shape) :
    shape ∈ added.foldl addDistinct shapes ↔ shape ∈ shapes ∨ shape ∈ added := by
  induction added generalizing shapes with
  | nil => simp only [List.foldl_nil, List.not_mem_nil, or_false]
  | cons first rest ih => rw [List.foldl_cons, ih, mem_addDistinct, List.mem_cons, or_assoc]

/-- The alternatives of a union are those of its parts. -/
theorem mem_distinctAlternatives :
    shape ∈ distinctAlternatives members ↔ ∃ member ∈ members, shape ∈ alternatives member := by
  rw [distinctAlternatives, mem_foldl_addDistinct, List.mem_flatMap]
  exact or_iff_right List.not_mem_nil

theorem nodup_foldl_addDistinct (added : List Shape) (h : shapes.Nodup) :
    (added.foldl addDistinct shapes).Nodup := by
  induction added generalizing shapes with
  | nil => exact h
  | cons first rest ih =>
      refine ih ?_
      rw [addDistinct]
      split
      · exact h
      · next hnew =>
        rw [← List.concat_eq_append]
        exact h.concat hnew

/-- No alternative of a union stands twice. -/
theorem nodup_distinctAlternatives (members : List Shape) : (distinctAlternatives members).Nodup :=
  nodup_foldl_addDistinct _ List.nodup_nil

theorem length_foldl_addDistinct_le (added shapes : List Shape) :
    (added.foldl addDistinct shapes).length ≤ shapes.length + added.length := by
  induction added generalizing shapes with
  | nil => simp
  | cons first rest ih =>
      have hfirst : (addDistinct shapes first).length ≤ shapes.length + 1 := by
        rw [addDistinct]
        split <;> simp
      have hrest := ih (addDistinct shapes first)
      rw [List.foldl_cons, List.length_cons]
      omega

theorem length_distinctAlternatives_le (members : List Shape) :
    (distinctAlternatives members).length ≤ (members.flatMap alternatives).length := by
  have h := length_foldl_addDistinct_le (members.flatMap alternatives) []
  rwa [List.length_nil, Nat.zero_add] at h

/-- A union is unknown, its only alternative, or the union of at least two. -/
theorem unionOf_cases (members : List Shape) :
    (distinctAlternatives members = [] ∧ unionOf members = unknown) ∨
      (∃ shape, distinctAlternatives members = [shape] ∧ unionOf members = shape) ∨
      2 ≤ (distinctAlternatives members).length ∧
        unionOf members = union (distinctAlternatives members) := by
  rw [unionOf]
  match distinctAlternatives members with
  | [] => exact .inl ⟨rfl, rfl⟩
  | [shape] => exact .inr (.inl ⟨shape, rfl, rfl⟩)
  | first :: second :: rest => exact .inr (.inr ⟨by simp, rfl⟩)

theorem unionOf_eq_or (members : List Shape) :
    (distinctAlternatives members = [] ∧ unionOf members = unknown) ∨
      (∃ shape, distinctAlternatives members = [shape] ∧ unionOf members = shape) ∨
      unionOf members = union (distinctAlternatives members) :=
  (unionOf_cases members).imp_right (Or.imp_right And.right)

/-! ### Inferred shapes -/

/-- An inferred shape is no union. -/
theorem alternatives_infer (value : Json) : alternatives (infer value) = [infer value] := by
  cases value <;> rfl

theorem inferFirst_eq_map (count : ℕ) (items : List Json) :
    inferFirst count items = (items.take count).map infer := by
  induction items generalizing count with
  | nil => cases count <;> rfl
  | cons item rest ih =>
      cases count with
      | zero => rfl
      | succ count => rw [inferFirst, ih, List.take_succ_cons, List.map_cons]

theorem inferMembers_eq_map (members : Members Json) :
    inferMembers members = members.map fun member => (member.1, infer member.2) := by
  induction members with
  | nil => rfl
  | cons member rest ih => rw [inferMembers, ih, List.map_cons]

/-- The shapes of the samples of an array are among the alternatives of its elements. -/
theorem infer_mem_distinctAlternatives {n : ℕ} (hitem : items[n]? = some item)
    (hn : n < sampleSize) : infer item ∈ distinctAlternatives (inferFirst sampleSize items) := by
  have hsample : item ∈ items.take sampleSize := by
    refine List.mem_of_getElem? (i := n) ?_
    rw [List.getElem?_take_of_lt hn, hitem]
  refine mem_distinctAlternatives.2 ⟨infer item, ?_, ?_⟩
  · rw [inferFirst_eq_map]
    exact List.mem_map_of_mem hsample
  · rw [alternatives_infer]
    exact List.mem_singleton_self (infer item)

end JsonShelf.Shape
