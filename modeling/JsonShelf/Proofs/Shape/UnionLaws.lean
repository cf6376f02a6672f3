/-
**The laws of unions.**

A union of unions is the union of all their members: where a shape comes in, and whether some shapes
were joined before, is not seen in the result.  A union takes the values that some of its members
take.

Main results:

* `Shape.distinctAlternatives_eq_eraseDups` — the alternatives come in the order of their first
  places;
* `Shape.unionOf_map_unionOf` — **unions of groups make the union of all that is in the groups**;
* `Shape.takes_unionOf_iff` — a union takes what some member takes;
* `Shape.unionOf_laws` — all of this for shapes in normal form.
-/

import JsonShelf.Proofs.Shape.NormalUnion
import JsonShelf.Proofs.Validation.Findings
import Mathlib.Data.List.Induction

set_option autoImplicit false

namespace JsonShelf.Shape

variable {shape : Shape} {shapes members : List Shape} {taken : Option Json}

/-! ### The order of alternatives -/

/-- The alternatives come in the order of their first places. -/
theorem distinctAlternatives_eq_eraseDups (members : List Shape) :
    distinctAlternatives members = (members.flatMap alternatives).eraseDups := by
  rw [distinctAlternatives]
  induction members.flatMap alternatives using List.reverseRecOn with
  | nil => rfl
  | append_singleton front last ih =>
      rw [List.foldl_append, List.foldl_cons, List.foldl_nil, ih, List.eraseDups_append,
        addDistinct]
      by_cases hmem : last ∈ front
      · rw [if_pos (List.mem_eraseDups.2 hmem)]
        simp [List.removeAll, hmem]
      · rw [if_neg (mt List.mem_eraseDups.1 hmem)]
        simp [List.removeAll, hmem, List.eraseDups_cons]

/-- Shapes that were added to an empty list before are added as they were given. -/
theorem foldl_addDistinct_foldl (added shapes : List Shape) :
    (added.foldl addDistinct []).foldl addDistinct shapes = added.foldl addDistinct shapes := by
  induction added using List.reverseRecOn with
  | nil => rfl
  | append_singleton front last ih =>
      have hthere : last ∈ front → last ∈ front.foldl addDistinct shapes := by
        intro hmem
        exact (mem_foldl_addDistinct front).2 (.inr hmem)
      have hnew : last ∈ front.foldl addDistinct [] ↔ last ∈ front := by
        rw [mem_foldl_addDistinct]
        exact or_iff_right List.not_mem_nil
      rw [List.foldl_append, List.foldl_append, List.foldl_cons, List.foldl_nil, List.foldl_cons,
        List.foldl_nil]
      by_cases hmem : last ∈ front
      · have hfront : addDistinct (front.foldl addDistinct []) last = front.foldl addDistinct [] :=
          if_pos (hnew.2 hmem)
        rw [hfront, ih, addDistinct, if_pos (hthere hmem)]
      · have hfront : addDistinct (front.foldl addDistinct []) last =
            front.foldl addDistinct [] ++ [last] := if_neg (mt hnew.1 hmem)
        rw [hfront, List.foldl_append, ih, List.foldl_cons, List.foldl_nil]

/-! ### Unions of unions -/

theorem unionOf_congr {others : List Shape}
    (h : distinctAlternatives members = distinctAlternatives others) :
    unionOf members = unionOf others := by
  rw [unionOf, unionOf, h]

/-- **Unions of groups make the union of all that is in the groups.** -/
theorem unionOf_map_unionOf (groups : List (List Shape))
    (h : ∀ group ∈ groups, group ≠ [] ∧ ∀ member ∈ group, member.Normalised) :
    unionOf (groups.map unionOf) = unionOf groups.flatten := by
  refine unionOf_congr ?_
  rw [distinctAlternatives, distinctAlternatives]
  -- what was added from the groups before does not matter
  generalize [] = added
  induction groups generalizing added with
  | nil => rfl
  | cons group rest ih =>
      rw [List.forall_mem_cons] at h
      rw [List.map_cons, List.flatMap_cons, List.foldl_append, List.flatten_cons,
        List.flatMap_append,
        List.foldl_append, alternatives_unionOf h.1.1 h.1.2, distinctAlternatives,
        foldl_addDistinct_foldl]
      exact ih h.2 _

/-! ### What unions take -/

/-- A union takes what some member takes. -/
theorem takes_unionOf_iff (hne : members ≠ []) (h : ∀ member ∈ members, member.Normalised) :
    (unionOf members).Takes taken ↔ ∃ member ∈ members, member.Takes taken := by
  rw [takes_iff_alternatives, alternatives_unionOf hne h]
  constructor
  · rintro ⟨shape, hshape, htakes⟩
    obtain ⟨member, hmember, hmem⟩ := mem_distinctAlternatives.1 hshape
    exact ⟨member, hmember, takes_iff_alternatives.2 ⟨shape, hmem, htakes⟩⟩
  · rintro ⟨member, hmember, htakes⟩
    obtain ⟨shape, hmem, htakes⟩ := takes_iff_alternatives.1 htakes
    exact ⟨shape, mem_distinctAlternatives.2 ⟨member, hmember, hmem⟩, htakes⟩

/-- Nothing is wrong with the value just if the shape takes it. -/
theorem validateValue_eq_nil_iff {value : Json} :
    validateValue value shape = [] ↔ shape.Takes (some value) := by
  rw [validateValue, List.map_eq_nil_iff]
  rfl

/-- **Building unions is associative and keeps the meaning**: a union of two unions is the union of
all members, a union of one is this one, and the members come in the order of their first places.
Nothing is wrong with a value of a union just if nothing is wrong with it as one of some member, and
a key may be missing just if it may for some member. -/
theorem unionOf_laws (xs ys : List Shape) (hxs : xs ≠ []) (hys : ys ≠ [])
    (hx : ∀ shape ∈ xs, shape.Normalised) (hy : ∀ shape ∈ ys, shape.Normalised) :
    unionOf [unionOf xs, unionOf ys] = unionOf (xs ++ ys) ∧
      unionOf [unionOf xs] = unionOf xs ∧
      alternatives (unionOf xs) = (xs.flatMap alternatives).eraseDups ∧
      (∀ value, validateValue value (unionOf xs) = [] ↔ ∃ x ∈ xs, validateValue value x = []) ∧
      ((unionOf xs).acceptsMissing = true ↔ ∃ x ∈ xs, x.acceptsMissing = true) := by
  refine ⟨?_, ?_, ?_, ?_, ?_⟩
  · have htwo := unionOf_map_unionOf [xs, ys] (by simp [hxs, hys]; exact ⟨hx, hy⟩)
    simpa using htwo
  · have hone := unionOf_map_unionOf [xs] (by simp [hxs]; exact hx)
    simpa using hone
  · rw [alternatives_unionOf hxs hx, distinctAlternatives_eq_eraseDups]
  · intro value
    simp only [validateValue_eq_nil_iff]
    exact takes_unionOf_iff hxs hx
  · have hmissing : (unionOf xs).Takes none ↔ ∃ x ∈ xs, x.Takes none := takes_unionOf_iff hxs hx
    exact hmissing

/-- A null next to a number, and a union of two kinds. -/
def nullableMembers : List Shape :=
  [.null, .scalar .number, .union [.scalar .string, .array .null]]

/-- Numbers and texts stand in both lists, and come once. -/
theorem unionOf_laws_nullableMembers :
    unionOf [unionOf flatMembers, unionOf nullableMembers] =
        .union [.scalar .number, .scalar .string, .scalar .boolean, .null, .array .null] ∧
      (∀ value, validateValue value (unionOf nullableMembers) = [] ↔
        ∃ shape ∈ nullableMembers, validateValue value shape = []) := by
  have hflat : ∀ shape ∈ flatMembers, shape.Normalised := by
    simp [flatMembers, Normalised, IsUnion]
  have hnullable : ∀ shape ∈ nullableMembers, shape.Normalised := by
    simp [nullableMembers, Normalised, IsUnion]
  obtain ⟨hboth, -, -, -, -⟩ := unionOf_laws flatMembers nullableMembers (by decide) (by decide)
    hflat hnullable
  obtain ⟨-, -, -, htakes, -⟩ := unionOf_laws nullableMembers flatMembers (by decide) (by decide)
    hnullable hflat
  exact ⟨hboth.trans (by decide), htakes⟩

end JsonShelf.Shape
