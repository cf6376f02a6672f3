/-
**Key order and verdicts.**

A value is looked at through its keys alone, so the order of the keys decides neither what is found
in it nor what another value is told by its shape.  The shape that is inferred from a value does
depend on the order, even in how many kinds of items it tells apart; but reordered values have
shapes that take the same values, and that is all that a verdict asks.

Main definitions:

* `Shape.Alike` — two shapes take the same values.

Main results:

* `Shape.check_eq_of_reordered` — **the same is found in reordered values**;
* `Shape.alike_infer` — **reordered values have shapes that take the same values**;
* `HealthReport.verdicts_of_reordered` — all verdicts on reordered values are the same.
-/

import JsonShelf.Health
import JsonShelf.Proofs.Json.Reordering
import JsonShelf.Proofs.Shape.NormalForm
import JsonShelf.Proofs.Shape.Parts
import JsonShelf.Proofs.Shape.UnionLaws
import JsonShelf.Proofs.Validation.Findings
import JsonShelf.Proofs.Validation.Reasons

set_option autoImplicit false

namespace JsonShelf

namespace Shape

open Json (Reordered)

variable {shape kind : Shape} {shapes : List Shape} {fields : List (String × Shape)}
  {members members' : Members Json} {items items' : List Json} {value value' : Json}
  {taken : Option Json}

/-! ### The same findings -/

theorem check_array_congr {element : Shape}
    (h : List.Forall₂ (fun item item' => check element item = check element item') items items') :
    check (array element) (.array items) = check (array element) (.array items') := by
  rw [check, check]
  -- the places are counted from zero, and further on from any number
  generalize 0 = n
  induction h generalizing n with
  | nil => rfl
  | cons hitem _ ih =>
      rw [List.zipIdx_cons, List.zipIdx_cons, List.flatMap_cons, List.flatMap_cons, ih]
      exact congrArg (· ++ _) (congrArg _ hitem)

theorem checkFields_congr (hperm : (Members.keys members).Perm (Members.keys members'))
    (h : ∀ field ∈ fields, ∀ value value', Members.get? field.1 members = some value →
      Members.get? field.1 members' = some value' → check field.2 value = check field.2 value') :
    checkFields fields members = checkFields fields members' := by
  induction fields with
  | nil => rfl
  | cons field rest ih =>
      rw [List.forall_mem_cons] at h
      rw [checkFields, checkFields, ih h.2]
      congr 1
      rcases Members.get?_of_perm hperm field.1 with
        ⟨hnone, hnone'⟩ | ⟨value, value', hvalue, hvalue'⟩
      · rw [hnone, hnone']
      · rw [hvalue, hvalue']
        exact congrArg _ (h.1 value value' hvalue hvalue')

/-- **The same is found in reordered values**, in the same order. -/
theorem check_eq_of_reordered (h : value.Reordered value') :
    check shape value = check shape value' := by
  induction shape using Shape.induction generalizing value value' with
  | null | undefined | unknown => cases h <;> rfl
  | scalar kind => cases kind <;> cases h <;> rfl
  | array element ih =>
      cases h with
      | refl => rfl
      | array hlength hitems =>
          exact check_array_congr
            (Reordered.forall₂_items hlength fun item item' hmem _ => ih (hitems item item' hmem))
      | object => rfl
  | object fields ih =>
      cases h with
      | refl => rfl
      | array => rfl
      | object hperm hvalues =>
          exact checkFields_congr hperm fun field hfield value value' hget hget' =>
            ih field hfield (hvalues field.1 value value' hget hget')
  | union shapes ih =>
      have htaken : takenByAny shapes value = takenByAny shapes value' := by
        rw [Bool.eq_iff_iff, takenByAny_iff, takenByAny_iff]
        exact exists_congr fun shape => and_congr_right fun hshape => by rw [ih shape hshape h]
      rw [check, check, htaken]

/-! ### Shapes that take the same values -/

/-- The shapes take the same values, and the one may be missing where the other may. -/
def Alike (shape other : Shape) : Prop :=
  ∀ taken, shape.Takes taken ↔ other.Takes taken

/-- The element of an array takes what the shape of some sample takes, and without samples
everything. -/
theorem takes_unionOf_infer_iff (items : List Json) :
    (unionOf (items.map infer)).Takes taken ↔
      items = [] ∨ ∃ item ∈ items, (infer item).Takes taken := by
  by_cases hnil : items = []
  · rw [unionOf_infer_eq_unknown_iff.2 hnil]
    exact iff_of_true (takes_unknown taken) (.inl hnil)
  · rw [takes_unionOf_iff (mt List.map_eq_nil_iff.1 hnil) normalised_of_mem_map_infer,
      or_iff_right hnil]
    simp only [List.mem_map, exists_exists_and_eq_and]

theorem exists_mem_iff_of_forall₂ {p q : Json → Prop}
    (h : List.Forall₂ (fun item item' => p item ↔ q item') items items') :
    (∃ item ∈ items, p item) ↔ ∃ item ∈ items', q item := by
  induction h with
  | nil => simp
  | cons hitem _ ih => rw [List.exists_mem_cons_iff, List.exists_mem_cons_iff, hitem, ih]

/-- Samples with shapes that take the same values make elements that take the same values. -/
theorem alike_unionOf_infer
    (h : List.Forall₂ (fun item item' => Alike (infer item) (infer item')) items items') :
    Alike (unionOf (items.map infer)) (unionOf (items'.map infer)) := by
  intro taken
  have hnil : items = [] ↔ items' = [] := by
    rw [← List.length_eq_zero_iff, ← List.length_eq_zero_iff, h.length_eq]
  rw [takes_unionOf_infer_iff, takes_unionOf_infer_iff, hnil]
  exact or_congr_right (exists_mem_iff_of_forall₂ (h.imp fun _ _ halike => halike taken))

theorem Alike.array {element other : Shape} (h : Alike element other) :
    Alike (array element) (array other) := by
  intro taken
  simp only [takes_array_iff, h (some _)]

/-- **Reordered values have shapes that take the same values.** -/
theorem alike_infer (h : value.Reordered value') (hvalue : value.Canonical) :
    Alike (infer value) (infer value') := by
  induction h with
  | refl => exact fun _ => Iff.rfl
  | @array items items' hlength _ ih =>
      rw [Json.Canonical, Json.canonicalItems_iff] at hvalue
      have halike := Reordered.forall₂_items hlength
        fun item item' hmem hitem => ih item item' hmem (hvalue item hitem)
      rw [infer, infer, inferFirst_eq_map, inferFirst_eq_map]
      exact (alike_unionOf_infer (List.forall₂_take sampleSize halike)).array
  | @object members members' hperm _ ih =>
      rw [Json.Canonical, Json.canonicalMembers_iff] at hvalue
      intro taken
      rw [infer, infer, takes_object_iff, takes_object_iff, inferMembers_eq_map,
        inferMembers_eq_map]
      refine exists_congr fun others => and_congr_right fun _ => ?_
      rw [List.forall_mem_map, List.forall_mem_map]
      refine Members.forall_mem_iff_of_perm
        (p := fun key value => (infer value).Takes (Members.get? key others))
        (q := fun key value => (infer value).Takes (Members.get? key others)) hvalue.1 hperm ?_
      intro key value value' hget hget'
      exact ih key value value' hget hget' (hvalue.2 _ (Members.mem_of_get? hget)) _

/-- Whether a value is of its own shape does not depend on the order of its keys. -/
theorem validateValue_infer_eq_nil_iff (h : value.Reordered value') (hvalue : value.Canonical) :
    validateValue value (infer value) = [] ↔ validateValue value' (infer value') = [] := by
  rw [validateValue, validateValue, List.map_eq_nil_iff, List.map_eq_nil_iff,
    check_eq_of_reordered h]
  exact alike_infer h hvalue (some value')

end Shape

namespace HealthReport

open Json (Reordered)

variable {value value' : Json}

/-- **The order of keys decides no verdict**: reordered values have the same issues with any shape,
in the same order; one is of its own shape just if the other is; and both are healthy or neither
is. -/
theorem verdicts_of_reordered (h : value.Reordered value') (hvalue : value.Canonical) :
    (∀ shape, validateValue value shape = validateValue value' shape) ∧
      (validateValue value (Shape.infer value) = [] ↔
        validateValue value' (Shape.infer value') = []) ∧
      (ofValue value).hasIssues = (ofValue value').hasIssues := by
  have hown := Shape.validateValue_infer_eq_nil_iff h hvalue
  refine ⟨?_, hown, ?_⟩
  · intro shape
    rw [validateValue, validateValue, Shape.check_eq_of_reordered h]
  · rw [Bool.eq_iff_iff, hasIssues_ofValue_iff, hasIssues_ofValue_iff, h.depth_eq hvalue]
    refine or_congr (not_congr hown) (or_congr_right ?_)
    cases h with
    | refl => rfl
    | array hlength => simp [hlength]
    | object => simp

/-- Two points with the second one turned round, and a third that has lost a coordinate. -/
def turnedPoints : Json :=
  .array [.object [("x", Json.ofInt 1), ("y", .null)], .object [("y", .null), ("x", Json.ofInt 2)],
    .object [("x", Json.ofInt 3), ("y", .null)], .object [("x", Json.ofInt 4)]]

/-- The same points, with the second one turned back. -/
def straightPoints : Json :=
  .array [.object [("x", Json.ofInt 1), ("y", .null)], .object [("x", Json.ofInt 2), ("y", .null)],
    .object [("x", Json.ofInt 3), ("y", .null)], .object [("x", Json.ofInt 4)]]

theorem reordered_turnedPoints : turnedPoints.Reordered straightPoints := by
  refine .array rfl ?_
  intro item item' hmem
  simp only [List.zip_cons_cons, List.zip_nil_right, List.mem_cons, Prod.mk.injEq,
    List.not_mem_nil, or_false] at hmem
  rcases hmem with ⟨rfl, rfl⟩ | ⟨rfl, rfl⟩ | ⟨rfl, rfl⟩ | ⟨rfl, rfl⟩
  · exact .refl _
  · exact .of_perm (List.Perm.swap _ _ _) (by decide)
  · exact .refl _
  · exact .refl _

/-- The shapes differ, in one a union of two object shapes and in the other one object shape; both
refuse the fourth point. -/
theorem verdicts_of_reordered_turnedPoints :
    Shape.infer turnedPoints ≠ Shape.infer straightPoints ∧
      validateValue turnedPoints (Shape.infer turnedPoints) = [⟨[.index 3], "Invalid input"⟩] ∧
      validateValue straightPoints (Shape.infer straightPoints) =
        [⟨[.index 3, .key "y"], "Required"⟩] ∧
      (ofValue turnedPoints).hasIssues = (ofValue straightPoints).hasIssues ∧
      ∀ shape, validateValue turnedPoints shape = validateValue straightPoints shape := by
  have hcanonical : turnedPoints.Canonical := by
    simp [turnedPoints, Json.Canonical, Json.CanonicalItems, Json.CanonicalMembers, Json.ofInt,
      Number.ofInt?]
  obtain ⟨hshape, -, hhealth⟩ := verdicts_of_reordered reordered_turnedPoints hcanonical
  exact ⟨by decide, by decide, by decide, hhealth, hshape⟩

end HealthReport

end JsonShelf
