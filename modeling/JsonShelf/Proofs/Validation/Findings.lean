/-
**What a check finds.**

One statement for each kind of composed shape says which findings there are; proofs about checks
start from these.  A shape takes a value if there are none.

Main definitions:

* `Shape.Takes` — nothing is wrong with a value, or it may be missing.

Main results:

* `Shape.mem_check_array` — the findings of an array are those of its items;
* `Shape.mem_checkFields` — the findings of an object are those of its members, and missing fields;
* `Shape.mem_check_union` — a union finds one thing, if all its members find something;
* `Shape.mem_check_unionOf` — so does a union in normal form, unless it has one alternative;
* `Shape.takes_array_iff`, `Shape.takes_object_iff`, `Shape.takes_union_iff` — a composed shape
  takes a value if its parts take the parts of the value.
-/

import JsonShelf.Proofs.Shape.Union
import JsonShelf.Validation.Check

set_option autoImplicit false

namespace JsonShelf.Shape

variable {shape element : Shape} {shapes : List Shape} {value : Json} {items : List Json}
  {fields : List (String × Shape)} {members : Members Json} {f : Finding} {taken : Option Json}

/-- The findings of an array are those of its items. -/
theorem mem_check_array :
    f ∈ check (array element) (.array items) ↔
      ∃ n item, items[n]? = some item ∧ ∃ g ∈ check element item, g.under (.index n) = f := by
  rw [check, List.mem_flatMap]
  simp only [Prod.exists, List.mem_zipIdx_iff_getElem?, List.mem_map]
  exact exists_comm

/-- The findings of an object are those of its members, and missing fields. -/
theorem mem_checkFields :
    f ∈ checkFields fields members ↔ ∃ field ∈ fields,
      (∃ value, Members.get? field.1 members = some value ∧
        ∃ g ∈ check field.2 value, g.under (.key field.1) = f) ∨
      (Members.get? field.1 members = none ∧ field.2.acceptsMissing = false ∧
        f = ⟨[.key field.1], .required⟩) := by
  induction fields with
  | nil => simp only [checkFields, List.not_mem_nil, false_and, exists_false]
  | cons field rest ih =>
      rw [checkFields, List.mem_append, ih, List.exists_mem_cons_iff]
      refine or_congr_left ?_
      cases hget : Members.get? field.1 members with
      | none =>
          cases hmissing : field.2.acceptsMissing <;> simp
      | some value => simp

theorem takenByAny_iff :
    takenByAny shapes value = true ↔ ∃ shape ∈ shapes, check shape value = [] := by
  induction shapes with
  | nil => simp only [takenByAny, Bool.false_eq_true, List.not_mem_nil, false_and, exists_false]
  | cons shape rest ih =>
      rw [takenByAny, Bool.or_eq_true, ih, List.isEmpty_iff, List.exists_mem_cons_iff]

/-- A union finds one thing, if all its members find something. -/
theorem mem_check_union :
    f ∈ check (union shapes) value ↔
      (∀ shape ∈ shapes, check shape value ≠ []) ∧ f = ⟨[], .noMember⟩ := by
  rw [check]
  split
  · next htaken =>
    obtain ⟨shape, hshape, hcheck⟩ := takenByAny_iff.1 htaken
    exact ⟨nofun, fun h => absurd hcheck (h.1 shape hshape)⟩
  · next htaken =>
    rw [List.mem_singleton]
    refine ⟨fun h => ⟨?_, h⟩, fun h => h.2⟩
    intro shape hshape hcheck
    exact htaken (takenByAny_iff.2 ⟨shape, hshape, hcheck⟩)

/-- What a union in normal form finds is found by each of its alternatives, or it is one finding for
all that they find. -/
theorem mem_check_unionOf (hshape : shape ∈ distinctAlternatives shapes)
    (hf : f ∈ check (unionOf shapes) value) :
    f ∈ check shape value ∨ (f = ⟨[], .noMember⟩ ∧ check shape value ≠ []) := by
  rcases unionOf_eq_or shapes with ⟨hnone, -⟩ | ⟨only, honly, hunion⟩ | hunion
  · rw [hnone] at hshape
    cases hshape
  · rw [honly, List.mem_singleton] at hshape
    rw [hunion, ← hshape] at hf
    exact .inl hf
  · rw [hunion] at hf
    obtain ⟨hall, rfl⟩ := mem_check_union.1 hf
    exact .inr ⟨rfl, hall shape hshape⟩

/-! ### Values without findings -/

/-- Nothing is wrong with the value, or it is missing and may be. -/
def Takes (shape : Shape) : Option Json → Prop
  | some value => check shape value = []
  | none => shape.acceptsMissing = true

theorem check_array_eq_nil_iff :
    check (array element) (.array items) = [] ↔ ∀ item ∈ items, check element item = [] := by
  simp only [List.eq_nil_iff_forall_not_mem]
  constructor
  · intro h item hitem g hg
    obtain ⟨n, hn⟩ := List.getElem?_of_mem hitem
    exact h _ (mem_check_array.2 ⟨n, item, hn, g, hg, rfl⟩)
  · intro h f hf
    obtain ⟨n, item, hn, g, hg, -⟩ := mem_check_array.1 hf
    exact h item (List.mem_of_getElem? hn) g hg

theorem checkFields_eq_nil_iff :
    checkFields fields members = [] ↔
      ∀ field ∈ fields, field.2.Takes (Members.get? field.1 members) := by
  constructor
  · intro h field hfield
    have hnone : ∀ f, f ∉ checkFields fields members := List.eq_nil_iff_forall_not_mem.1 h
    cases hget : Members.get? field.1 members with
    | some value =>
        refine List.eq_nil_iff_forall_not_mem.2 ?_
        intro g hg
        exact hnone _ (mem_checkFields.2 ⟨field, hfield, .inl ⟨value, hget, g, hg, rfl⟩⟩)
    | none =>
        refine Bool.of_not_eq_false ?_
        intro hmissing
        exact hnone _ (mem_checkFields.2 ⟨field, hfield, .inr ⟨hget, hmissing, rfl⟩⟩)
  · intro h
    refine List.eq_nil_iff_forall_not_mem.2 ?_
    intro f hf
    obtain ⟨field, hfield, ⟨value, hget, g, hg, -⟩ | ⟨hget, hmissing, -⟩⟩ := mem_checkFields.1 hf
    · have htakes := h field hfield
      rw [hget] at htakes
      rw [htakes] at hg
      cases hg
    · have htakes := h field hfield
      rw [hget] at htakes
      exact Bool.false_ne_true (hmissing.symm.trans htakes)

theorem takes_null_iff : null.Takes taken ↔ taken = some .null := by
  rcases taken with _ | value
  · exact ⟨nofun, nofun⟩
  · simp [Takes, check, mismatch]

theorem takes_undefined_iff : undefined.Takes taken ↔ taken = none := by
  cases taken <;> simp [Takes, check, mismatch, acceptsMissing]

theorem takes_unknown (taken : Option Json) : unknown.Takes taken := by
  cases taken <;> rfl

theorem takes_scalar_iff {kind : Scalar} :
    (scalar kind).Takes taken ↔ ∃ value, taken = some value ∧ scalarAdmits kind value = true := by
  rcases taken with _ | value
  · exact ⟨nofun, nofun⟩
  · simp [Takes, check, mismatch]

theorem takes_array_iff :
    (array element).Takes taken ↔
      ∃ items, taken = some (.array items) ∧ ∀ item ∈ items, element.Takes (some item) := by
  rcases taken with _ | (_ | _ | _ | _ | items | _)
  case some.array =>
    simp only [Option.some.injEq, Json.array.injEq, exists_eq_left']
    exact check_array_eq_nil_iff
  all_goals exact ⟨nofun, nofun⟩

theorem takes_object_iff :
    (object fields).Takes taken ↔
      ∃ members, taken = some (.object members) ∧
        ∀ field ∈ fields, field.2.Takes (Members.get? field.1 members) := by
  rcases taken with _ | (_ | _ | _ | _ | _ | members)
  case some.object =>
    simp only [Option.some.injEq, Json.object.injEq, exists_eq_left']
    exact checkFields_eq_nil_iff
  all_goals exact ⟨nofun, nofun⟩

theorem anyAcceptsMissing_iff :
    anyAcceptsMissing shapes = true ↔ ∃ shape ∈ shapes, shape.acceptsMissing = true := by
  induction shapes with
  | nil => simp only [anyAcceptsMissing, Bool.false_eq_true, List.not_mem_nil, false_and,
      exists_false]
  | cons shape rest ih =>
      rw [anyAcceptsMissing, Bool.or_eq_true, ih, List.exists_mem_cons_iff]

theorem takes_union_iff :
    (union shapes).Takes taken ↔ ∃ shape ∈ shapes, shape.Takes taken := by
  cases taken with
  | some value => simp [Takes, check, ← takenByAny_iff]
  | none => exact anyAcceptsMissing_iff

theorem takes_iff_alternatives :
    shape.Takes taken ↔ ∃ kind ∈ alternatives shape, kind.Takes taken := by
  cases shape with
  | union members => exact takes_union_iff
  | null | undefined | scalar | unknown | array | object => simp [alternatives]

end JsonShelf.Shape
