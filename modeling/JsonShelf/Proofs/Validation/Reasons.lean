/-
**What a report on a document says.**

A document that parses and one that does not are looked at in different ways, and both ways give
reasons to complain: first what validation says, in its own words, and then what is said of the
structure.

Main results:

* `HealthReport.ofValue_eq_ofReasons` — the reasons of a report on a value, in order;
* `HealthReport.issues_ofText`, `HealthReport.suggestions_ofText` — **what a report on a text says
  is what validation says, and what is said of the structure**;
* `HealthReport.hasIssues_ofText_iff` — there are issues just if there are suggestions;
* `HealthReport.hasIssues_ofValue_iff` — what makes a value unhealthy.
-/

import JsonShelf.Health
import Mathlib.Data.List.Basic
import Mathlib.Logic.Basic

set_option autoImplicit false

namespace JsonShelf

/-- A text is valid just if validation finds nothing. -/
theorem valid_validateText_iff (text : String) :
    (validateText text).valid = true ↔ (validateText text).errors = [] := by
  rw [validateText]
  cases Json.parse text with
  | ok value => exact List.isEmpty_iff
  | error e => exact iff_of_false Bool.false_ne_true (List.cons_ne_nil _ _)

/-! ### Reasons -/

namespace Reason

theorem toList_ofValidation (suggestion : String) (errors : List Issue) :
    (ofValidation suggestion (.ofIssues errors)).toList =
      if errors.isEmpty then [] else [⟨errors.map Issue.dotted, suggestion⟩] := by
  rw [ofValidation, ValidationResult.ofIssues]
  split <;> rfl

theorem toList_ofDepth (value : Json) : (ofDepth value).toList =
    if 10 < value.depth then
      [⟨["JSON structure is very deeply nested (>10 levels)"],
        "Consider flattening the structure for better performance"⟩]
    else [] := by
  rw [ofDepth, healthyDepth]
  split <;> rfl

theorem toList_ofLength (value : Json) : (ofLength value).toList =
    if value.items?.any (1000 < ·.length) then
      [⟨["Large array detected (>1000 items)"],
        "Consider paginating or splitting into multiple files"⟩]
    else [] := by
  cases value with
  | array items =>
      rw [ofLength, healthyLength, Json.items?, Option.any_some]
      by_cases h : 1000 < items.length <;> simp [h]
  | null | bool | number | string | object => rfl

end Reason

/-! ### Reports -/

namespace HealthReport

/-- The reasons of a report on a value, in order. -/
theorem ofValue_eq_ofReasons (value : Json) :
    ofValue value = ofReasons
      ((Reason.ofValidation "Normalize records so every element shares the same fields and types"
        (.ofIssues (validateValue value (Shape.infer value)))).toList ++
        ((Reason.ofDepth value).toList ++ (Reason.ofLength value).toList)) := by
  have hcons : ∀ (reason : Option Reason) rest,
      (reason :: rest).filterMap id = reason.toList ++ rest.filterMap id := by
    intro reason rest
    cases reason <;> rfl
  rw [ofValue, hcons, hcons, hcons, List.filterMap_nil, List.append_nil]

theorem issues_ofValue (value : Json) :
    (ofValue value).issues = (validateValue value (Shape.infer value)).map Issue.dotted ++
      ((if 10 < value.depth then ["JSON structure is very deeply nested (>10 levels)"] else []) ++
        (if value.items?.any (1000 < ·.length) then ["Large array detected (>1000 items)"]
          else [])) := by
  have hvalidation : ∀ (suggestion : String) (errors : List Issue),
      (if errors.isEmpty then [] else [(⟨errors.map Issue.dotted, suggestion⟩ : Reason)]).flatMap
        Reason.issues = errors.map Issue.dotted := by
    intro suggestion errors
    cases errors <;> simp
  rw [ofValue_eq_ofReasons, ofReasons]
  simp only [List.flatMap_append, Reason.toList_ofValidation, Reason.toList_ofDepth,
    Reason.toList_ofLength, hvalidation]
  congr 2 <;> split <;> rfl

theorem suggestions_ofValue (value : Json) :
    (ofValue value).suggestions =
      (if (validateValue value (Shape.infer value)).isEmpty then []
        else ["Normalize records so every element shares the same fields and types"]) ++
      ((if 10 < value.depth then ["Consider flattening the structure for better performance"]
          else []) ++
        (if value.items?.any (1000 < ·.length) then
          ["Consider paginating or splitting into multiple files"] else [])) := by
  rw [ofValue_eq_ofReasons, ofReasons]
  simp only [List.map_append, Reason.toList_ofValidation, Reason.toList_ofDepth,
    Reason.toList_ofLength]
  congr 1
  · split <;> rfl
  · congr 1 <;> split <;> rfl

theorem hasIssues_ofReasons_iff (reasons : List Reason) :
    (ofReasons reasons).hasIssues = true ↔ (ofReasons reasons).issues ≠ [] := by
  simp [ofReasons]

/-- A value is unhealthy if it is not of its own shape, is deep, or is a long array. -/
theorem hasIssues_ofValue_iff (value : Json) :
    (ofValue value).hasIssues = true ↔
      validateValue value (Shape.infer value) ≠ [] ∨ healthyDepth < value.depth ∨
        ∃ items, value = .array items ∧ healthyLength < items.length := by
  have hlong : value.items?.any (1000 < ·.length) = true ↔
      ∃ items, value = .array items ∧ healthyLength < items.length := by
    cases value <;> simp [Json.items?, healthyLength]
  rw [ofValue, hasIssues_ofReasons_iff, ← ofValue, issues_ofValue, ← hlong, healthyDepth]
  simp [imp_iff_not_or]

/-- A value is given suggestions just if it is unhealthy. -/
theorem suggestions_ofValue_ne_nil_iff (value : Json) :
    (ofValue value).suggestions ≠ [] ↔ (ofValue value).issues ≠ [] := by
  rw [suggestions_ofValue, issues_ofValue]
  simp

/-- **The issues of a text are those of its validation**, and then those of its structure. -/
theorem issues_ofText (text : String) :
    (ofText text).issues = (validateText text).errors.map Issue.dotted ++
      match Json.parse text with
      | .ok value =>
        (if 10 < value.depth then ["JSON structure is very deeply nested (>10 levels)"] else []) ++
          (if value.items?.any (1000 < ·.length) then ["Large array detected (>1000 items)"]
            else [])
      | .error _ => [] := by
  rw [ofText, validateText]
  cases Json.parse text with
  | ok value => exact issues_ofValue value
  | error e => rfl

/-- **The suggestions for a text** are one for its syntax or its errors, and then those for its
structure. -/
theorem suggestions_ofText (text : String) :
    (ofText text).suggestions =
      match Json.parse text with
      | .ok value =>
        (if (validateText text).valid then []
          else ["Normalize records so every element shares the same fields and types"]) ++
        ((if 10 < value.depth then ["Consider flattening the structure for better performance"]
            else []) ++
          (if value.items?.any (1000 < ·.length) then
            ["Consider paginating or splitting into multiple files"] else []))
      | .error _ => ["Fix the JSON syntax before editing this file"] := by
  rw [ofText, validateText]
  cases Json.parse text with
  | ok value => exact suggestions_ofValue value
  | error e => rfl

/-- There are issues just if there are suggestions, and the report says so. -/
theorem hasIssues_ofText_iff (text : String) :
    ((ofText text).hasIssues = true ↔ (ofText text).issues ≠ []) ∧
      ((ofText text).hasIssues = true ↔ (ofText text).suggestions ≠ []) := by
  rw [ofText]
  cases Json.parse text with
  | ok value =>
      have hissues : (ofValue value).hasIssues = true ↔ (ofValue value).issues ≠ [] :=
        hasIssues_ofReasons_iff _
      exact ⟨hissues, hissues.trans (suggestions_ofValue_ne_nil_iff value).symm⟩
  | error e =>
      exact ⟨iff_of_true rfl (List.cons_ne_nil _ _), iff_of_true rfl (List.cons_ne_nil _ _)⟩

/-- A text that is not valid is not healthy. -/
theorem hasIssues_ofText_of_not_valid {text : String} (h : ¬(validateText text).valid = true) :
    (ofText text).hasIssues = true := by
  rw [(hasIssues_ofText_iff text).1, issues_ofText]
  exact List.append_ne_nil_of_left_ne_nil
    (mt List.map_eq_nil_iff.1 (mt (valid_validateText_iff text).2 h)) _

end HealthReport

end JsonShelf
