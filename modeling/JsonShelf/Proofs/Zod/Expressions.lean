/-
**The text of an expression determines the shape.**

The text reads back, so it determines the expression.  An expression in turn keeps all of the shape:
the samples add only which numbers are whole.

Main definitions:

* `Zod.shape` — the shape of an expression.

Main results:

* `Zod.shape_ofShape` — **the expression of a shape keeps the shape**;
* `Zod.shape_eq_of_chars_eq` — **equal texts are of equal shapes**, whatever the samples.
-/

import JsonShelf.Proofs.Shape.Parts
import JsonShelf.Proofs.Zod.Reading

set_option autoImplicit false

namespace JsonShelf.Zod

mutual

/-- The shape of an expression. -/
def shape : Zod → Shape
  | null => .null
  | undefined => .undefined
  | unknown => .unknown
  | string => .scalar .string
  | boolean => .scalar .boolean
  | number _ => .scalar .number
  | array element => .array element.shape
  | object fields => .object (fieldShapes fields)
  | union members => .union (memberShapes members)

/-- The shapes of the fields of an object. -/
def fieldShapes : List (String × Zod) → List (String × Shape)
  | [] => []
  | (name, value) :: rest => (name, value.shape) :: fieldShapes rest

/-- The shapes of the members of a union. -/
def memberShapes : List Zod → List Shape
  | [] => []
  | value :: rest => value.shape :: memberShapes rest

end

theorem fieldShapes_ofFields {fields : List (String × Shape)} {samples : List Json}
    (ih : ∀ field ∈ fields, ∀ samples, (ofShape field.2 samples).shape = field.2) :
    fieldShapes (ofFields fields samples) = fields := by
  induction fields with
  | nil => rfl
  | cons field rest ihrest =>
      obtain ⟨hfield, hrest⟩ := List.forall_mem_cons.1 ih
      rw [ofFields, fieldShapes, hfield, ihrest hrest]

theorem memberShapes_ofMembers {members : List Shape} {samples : List Json}
    (ih : ∀ member ∈ members, ∀ samples, (ofShape member samples).shape = member) :
    memberShapes (ofMembers members samples) = members := by
  induction members with
  | nil => rfl
  | cons member rest ihrest =>
      obtain ⟨hmember, hrest⟩ := List.forall_mem_cons.1 ih
      rw [ofMembers, memberShapes, hmember, ihrest hrest]

/-- **The expression of a shape keeps the shape.** -/
theorem shape_ofShape (s : Shape) (samples : List Json) : (ofShape s samples).shape = s := by
  induction s using Shape.induction generalizing samples with
  | null | undefined | unknown => rfl
  | scalar kind => cases kind <;> rfl
  | array element ih => rw [ofShape, shape, ih]
  | object fields ih => rw [ofShape, shape, fieldShapes_ofFields ih]
  | union members ih => rw [ofShape, shape, memberShapes_ofMembers ih]

/-- **Equal texts are of equal shapes**, whatever the samples that they were made from. -/
theorem shape_eq_of_chars_eq (level : ℕ) (s₁ s₂ : Shape) (samples₁ samples₂ : List Json)
    (h : chars level (ofShape s₁ samples₁) = chars level (ofShape s₂ samples₂)) : s₁ = s₂ := by
  have hvalue : ofShape s₁ samples₁ = ofShape s₂ samples₂ := chars_injective level h
  rw [← shape_ofShape s₁ samples₁, hvalue, shape_ofShape]

/-- Two documents of the same text: records under a quoted key, next to texts. -/
theorem shape_eq_of_chars_eq_records :
    Shape.infer (.array [.object [("it's", Json.ofInt 1)], .string "a"]) =
      Shape.infer (.array [.object [("it's", Json.ofInt 2)], .string "b", .string "c"]) :=
  shape_eq_of_chars_eq 1 _ _ [.array [.object [("it's", Json.ofInt 1)], .string "a"]]
    [.array [.object [("it's", Json.ofInt 2)], .string "b", .string "c"]] (by decide +kernel)

end JsonShelf.Zod
