/-
**What an expression accepts.**

An expression is a validator of its own, and here it is read as one, without its shape: an object
needs what its fields name and may hold more, a key may be missing if the expression under it
accepts that nothing is there, and a union accepts what one of its members accepts.  Apart from the
marks of whole numbers this is the check against the shape that the expression was made from.

Main definitions:

* `Zod.accepts` — does an expression accept a value, or that nothing is there?
* `Zod.unmarked` — the expression without the marks of whole numbers.

Main results:

* `Zod.acceptsFields_iff`, `Zod.acceptsAny_iff` — fields are accepted each, members one of them;
* `Zod.unmarked_ofShape` — without the marks the samples make no difference;
* `Zod.accepts_unmarked_iff` — **the text of an expression accepts, marks apart, just the values
  without an issue**.
-/

import JsonShelf.Proofs.Shape.Parts
import JsonShelf.Proofs.Validation.Findings
import JsonShelf.Proofs.Zod.Reading

set_option autoImplicit false

namespace JsonShelf

/-- Is the number a whole one, however it was written? -/
def Number.isIntegral : Number → Bool
  | whole .. => true
  | float value => value.toInt?.isSome

theorem Number.isIntegral_of_isWhole {n : Number} (h : n.isWhole = true) : n.isIntegral = true := by
  cases n with
  | whole => rfl
  | float => cases h

namespace Zod

variable {fields : List (String × Zod)} {members : Members Json} {value : Option Json}

/-! ### Acceptance -/

mutual

/-- Does the expression accept the value, or that nothing is there? -/
def accepts : Zod → Option Json → Bool
  | unknown, _ => true
  | undefined, value => value.isNone
  | null, value => value = some .null
  | string, value => match value with
    | some (.string _) => true
    | _ => false
  | boolean, value => match value with
    | some (.bool _) => true
    | _ => false
  | number isWhole, value => match value with
    | some (.number n) => !isWhole || n.isIntegral
    | _ => false
  | array element, value => match value with
    | some (.array items) => items.all fun item => accepts element (some item)
    | _ => false
  | object fields, value => match value with
    | some (.object members) => acceptsFields fields members
    | _ => false
  | union members, value => acceptsAny members value

/-- Are the members under the names of the fields accepted?  Of two fields of one name the last one
stands. -/
def acceptsFields : List (String × Zod) → Members Json → Bool
  | [], _ => true
  | (name, value) :: rest, members =>
    (rest.any (·.1 == name) || accepts value (Members.get? name members)) &&
      acceptsFields rest members

/-- Does one of the expressions accept the value? -/
def acceptsAny : List Zod → Option Json → Bool
  | [], _ => false
  | member :: rest, value => accepts member value || acceptsAny rest value

end

/-- Fields of different names are accepted each. -/
theorem acceptsFields_iff (h : (Members.keys fields).Nodup) :
    acceptsFields fields members = true ↔
      ∀ field ∈ fields, accepts field.2 (Members.get? field.1 members) = true := by
  induction fields with
  | nil => simp [acceptsFields]
  | cons field rest ih =>
      rw [Members.keys_cons, List.nodup_cons] at h
      -- no later field takes the place of this one
      have hlast : rest.any (·.1 == field.1) = false := by
        rw [List.any_eq_false]
        intro other hother hname
        exact h.1 (beq_iff_eq.1 hname ▸ List.mem_map_of_mem hother)
      rw [acceptsFields, hlast, Bool.false_or, Bool.and_eq_true, ih h.2, List.forall_mem_cons]

theorem acceptsAny_iff {members : List Zod} :
    acceptsAny members value = true ↔ ∃ member ∈ members, accepts member value = true := by
  induction members with
  | nil => simp [acceptsAny]
  | cons member rest ih => rw [acceptsAny, Bool.or_eq_true, ih, List.exists_mem_cons_iff]

theorem accepts_array_iff {element : Zod} :
    accepts (array element) value = true ↔
      ∃ items, value = some (.array items) ∧
        ∀ item ∈ items, accepts element (some item) = true := by
  rcases value with _ | (_ | _ | _ | _ | items | _)
  case some.array => simp [accepts]
  all_goals exact ⟨nofun, nofun⟩

theorem accepts_object_iff (h : (Members.keys fields).Nodup) :
    accepts (object fields) value = true ↔
      ∃ members, value = some (.object members) ∧
        ∀ field ∈ fields, accepts field.2 (Members.get? field.1 members) = true := by
  rcases value with _ | (_ | _ | _ | _ | _ | members)
  case some.object => simp [accepts, acceptsFields_iff h]
  all_goals exact ⟨nofun, nofun⟩

/-! ### Expressions without marks -/

mutual

/-- The expression without the marks of whole numbers. -/
def unmarked : Zod → Zod
  | number _ => number false
  | array element => array element.unmarked
  | object fields => object (unmarkedFields fields)
  | union members => union (unmarkedMembers members)
  | null => null
  | undefined => undefined
  | unknown => unknown
  | string => string
  | boolean => boolean

/-- The fields without the marks of whole numbers. -/
def unmarkedFields : List (String × Zod) → List (String × Zod)
  | [] => []
  | (name, value) :: rest => (name, value.unmarked) :: unmarkedFields rest

/-- The members without the marks of whole numbers. -/
def unmarkedMembers : List Zod → List Zod
  | [] => []
  | value :: rest => value.unmarked :: unmarkedMembers rest

end

theorem unmarkedFields_ofFields {fields : List (String × Shape)} {samples : List Json}
    (ih : ∀ field ∈ fields, ∀ samples, (ofShape field.2 samples).unmarked = ofShape field.2 []) :
    unmarkedFields (ofFields fields samples) = ofFields fields [] := by
  induction fields with
  | nil => rfl
  | cons field rest ihrest =>
      obtain ⟨hfield, hrest⟩ := List.forall_mem_cons.1 ih
      rw [ofFields, unmarkedFields, hfield, ihrest hrest]
      rfl

theorem unmarkedMembers_ofMembers {members : List Shape} {samples : List Json}
    (ih : ∀ member ∈ members, ∀ samples, (ofShape member samples).unmarked = ofShape member []) :
    unmarkedMembers (ofMembers members samples) = ofMembers members [] := by
  induction members with
  | nil => rfl
  | cons member rest ihrest =>
      obtain ⟨hmember, hrest⟩ := List.forall_mem_cons.1 ih
      rw [ofMembers, unmarkedMembers, hmember, ihrest hrest]
      rfl

/-- Without the marks the samples make no difference: the expression is that of no samples. -/
theorem unmarked_ofShape (s : Shape) (samples : List Json) :
    (ofShape s samples).unmarked = ofShape s [] := by
  induction s using Shape.induction generalizing samples with
  | null | undefined | unknown => rfl
  | scalar kind => cases kind <;> rfl
  | array element ih => rw [ofShape, unmarked, ih, ofShape]; rfl
  | object fields ih => rw [ofShape, unmarked, unmarkedFields_ofFields ih, ofShape]
  | union members ih => rw [ofShape, unmarked, unmarkedMembers_ofMembers ih, ofShape]

/-! ### Agreement with the check -/

theorem accepts_ofScalar_nil {kind : Scalar} :
    accepts (ofScalar [] kind) value = true ↔
      ∃ w, value = some w ∧ Shape.scalarAdmits kind w = true := by
  cases kind <;> rcases value with _ | (_ | _ | _ | _ | _ | _) <;>
    simp [ofScalar, allWhole, accepts, Shape.scalarAdmits]

/-- The expression of a shape without samples accepts what the shape takes. -/
theorem accepts_ofShape_nil {s : Shape} (h : s.Distinct) :
    accepts (ofShape s []) value = true ↔ s.Takes value := by
  induction s using Shape.induction generalizing value with
  | null => rw [Shape.takes_null_iff, ofShape, accepts, decide_eq_true_eq]
  | undefined => rw [Shape.takes_undefined_iff, ofShape, accepts, Option.isNone_iff_eq_none]
  | unknown => exact iff_of_true rfl (Shape.takes_unknown value)
  | scalar kind => exact accepts_ofScalar_nil.trans Shape.takes_scalar_iff.symm
  | array element ih =>
      rw [Shape.takes_array_iff, ofShape, accepts_array_iff]
      refine exists_congr fun items => and_congr_right fun _ => ?_
      exact forall₂_congr fun item _ => ih (Shape.distinct_array_iff.1 h)
  | object fields ih =>
      obtain ⟨hkeys, hfields⟩ := Shape.distinct_object_iff.1 h
      have hnames : (Members.keys (ofFields fields [])).Nodup := by rwa [keys_ofFields]
      rw [Shape.takes_object_iff, ofShape, accepts_object_iff hnames, ofFields_eq_map]
      refine exists_congr fun members => and_congr_right fun _ => ?_
      rw [List.forall_mem_map]
      exact forall₂_congr fun field hfield => ih field hfield (hfields field hfield)
  | union members ih =>
      have hmembers := Shape.distinct_union_iff.1 h
      rw [Shape.takes_union_iff, ofShape, accepts, acceptsAny_iff, ofMembers_eq_map]
      simp only [List.mem_map, exists_exists_and_eq_and]
      exact exists_congr fun member => and_congr_right fun hmember =>
        ih member hmember (hmembers member hmember)

/-- **The generated validator and the check agree.**  Read back from its text and without the marks
of whole numbers, the expression of a shape accepts just the values that the check against the shape
finds nothing wrong with, whatever the samples. -/
theorem accepts_unmarked_iff (level : ℕ) (s : Shape) (samples : List Json) (w : Json)
    (h : s.Distinct) :
    ∃ value, ofText? (chars level (ofShape s samples)) = some value ∧
      (value.unmarked.accepts (some w) = true ↔ validateValue w s = []) := by
  refine ⟨ofShape s samples, ofText?_chars level _, ?_⟩
  rw [unmarked_ofShape, accepts_ofShape_nil h, validateValue, List.map_eq_nil_iff]
  rfl

/-- Records with a field that may be missing, next to texts. -/
def optionalField : Shape :=
  .array (.union [.object [("id", .scalar .number), ("note", .union [.undefined, .scalar .string])],
    .scalar .string])

/-- The text of the expression, with a whole number as sample. -/
def optionalFieldText : List Char :=
  chars 0 (ofShape optionalField [.array [.object [("id", Json.ofInt 1)]]])

/-- A record without the field is accepted, and one with a null in it is not. -/
theorem accepts_unmarked_iff_optionalField :
    (∃ value, ofText? optionalFieldText = some value ∧
      value.unmarked.accepts (some (.array [.object [("id", Json.ofInt 2)], .string "a"])) = true) ∧
    ∃ value, ofText? optionalFieldText = some value ∧
      value.unmarked.accepts (some (.array [.object [("id", Json.ofInt 2), ("note", .null)]])) =
        false := by
  have hdistinct : optionalField.Distinct := by
    simp only [optionalField, Shape.distinct_array_iff, Shape.distinct_union_iff,
      Shape.distinct_object_iff, List.forall_mem_cons]
    exact ⟨⟨by decide, nofun, ⟨nofun, nofun, nofun⟩, nofun⟩, nofun, nofun⟩
  constructor
  · obtain ⟨value, hread, hiff⟩ := accepts_unmarked_iff 0 optionalField
      [.array [.object [("id", Json.ofInt 1)]]]
      (.array [.object [("id", Json.ofInt 2)], .string "a"]) hdistinct
    exact ⟨value, hread, hiff.2 (by decide)⟩
  · obtain ⟨value, hread, hiff⟩ := accepts_unmarked_iff 0 optionalField
      [.array [.object [("id", Json.ofInt 1)]]]
      (.array [.object [("id", Json.ofInt 2), ("note", .null)]]) hdistinct
    refine ⟨value, hread, Bool.eq_false_iff.2 ?_⟩
    exact mt hiff.1 (by decide)

end Zod

end JsonShelf
