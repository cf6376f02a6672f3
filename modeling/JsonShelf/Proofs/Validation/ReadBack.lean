/-
**Shapes and validation results read back.**

The steps of a path are written plain, an index as a number and a key as a string, so a key that
looks like a number stays a key.

Main definitions:

* `Json.Segment.Counted`, `ValidationResult.Counted` — indices are 64-bit words.

Main results:

* `Issue.segmentOfJson?_segmentToJson` — an index and a key are told apart;
* `documents_read_back` — **what is written of a shape or of a validation result reads back**.
-/

import JsonShelf.Proofs.Json.Nesting
import JsonShelf.Proofs.Json.Payload
import JsonShelf.Proofs.Shape.ReadBack
import JsonShelf.Validation.Issue

set_option autoImplicit false

namespace JsonShelf

open Json (Segment)

/-- An index is a word of 64 bits. -/
def Json.Segment.Counted : Segment → Prop
  | .index n => n < 2 ^ 64
  | .key _ => True

/-! ### Issues -/

namespace Issue

variable {segment : Segment} {issue : Issue}

/-- All indices in the path are words of 64 bits. -/
def Counted (issue : Issue) : Prop := ∀ segment ∈ issue.path, segment.Counted

theorem segmentOfJson?_of_natural? {value : Json} {n : ℕ} (h : value.natural? = some n) :
    segmentOfJson? value = some (.index n) := by
  cases value with
  | string s => cases h
  | number number => rw [segmentOfJson?, h, Option.map_some]; exact nofun
  | null | bool | array | object => cases h

/-- A number that was written reads as an index and a string as a key, whatever it spells. -/
theorem segmentOfJson?_segmentToJson (h : segment.Counted) :
    segmentOfJson? (segmentToJson segment) = some segment := by
  cases segment with
  | key k => rfl
  | index n =>
      rw [segmentToJson]
      exact segmentOfJson?_of_natural? (Json.natural?_ofInt h)

theorem canonical_segmentToJson (segment : Segment) : (segmentToJson segment).Canonical := by
  cases segment with
  | key k => trivial
  | index n =>
      -- as any whole number: the bounds of a word are not to be computed with
      rw [segmentToJson]
      generalize (n : Int) = value
      exact Json.canonical_ofInt value

theorem ofJson?_toJson (h : issue.Counted) : ofJson? issue.toJson = some issue := by
  have hfields : Json.fields? ["path", "message"] issue.toJson =
      some [some (.array (issue.path.map segmentToJson)), some (.string issue.message)] :=
    Json.fields?_keys (by simp)
  have hpath : Json.listOf? segmentOfJson? (.array (issue.path.map segmentToJson)) =
      some issue.path :=
    Json.listOf?_map fun segment hsegment => segmentOfJson?_segmentToJson (h segment hsegment)
  rw [ofJson?, hfields]
  simp [Json.required?, hpath, Json.text?]

theorem canonical_toJson (issue : Issue) : issue.toJson.Canonical := by
  refine ⟨by simp, Json.canonicalItems_iff.2 ?_, trivial, trivial⟩
  intro item hitem
  obtain ⟨segment, -, rfl⟩ := List.mem_map.1 hitem
  exact canonical_segmentToJson segment

end Issue

/-! ### Results -/

namespace ValidationResult

variable {result : ValidationResult}

/-- All indices in the paths of the issues are words of 64 bits. -/
def Counted (result : ValidationResult) : Prop := ∀ issue ∈ result.errors, issue.Counted

theorem ofJson?_toJson (h : result.Counted) : ofJson? result.toJson = some result := by
  have hfields : Json.fields? ["valid", "errors"] result.toJson =
      some [some (.bool result.valid), some (.array (result.errors.map Issue.toJson))] :=
    Json.fields?_keys (by simp)
  have herrors : Json.listOf? Issue.ofJson? (.array (result.errors.map Issue.toJson)) =
      some result.errors :=
    Json.listOf?_map fun issue hissue => Issue.ofJson?_toJson (h issue hissue)
  rw [ofJson?, hfields]
  simp [Json.required?, Json.boolean?, herrors]

theorem canonical_toJson (result : ValidationResult) : result.toJson.Canonical := by
  refine ⟨by simp, trivial, Json.canonicalItems_iff.2 ?_, trivial⟩
  intro item hitem
  obtain ⟨issue, -, rfl⟩ := List.mem_map.1 hitem
  exact issue.canonical_toJson

end ValidationResult

/-- **What is written of a shape or of a validation result reads back.**  Shapes need not have the
form that they are inferred in, and the keys and indices of a path may come in any order.  The
documents hold each key once. -/
theorem documents_read_back :
    (∀ shape : Shape, shape.toJson.Canonical ∧ Shape.ofJson? shape.toJson = some shape) ∧
      ∀ result : ValidationResult, result.Counted →
        result.toJson.Canonical ∧ ValidationResult.ofJson? result.toJson = some result :=
  ⟨fun shape => ⟨shape.canonical_toJson, shape.ofJson?_toJson⟩,
    fun result h => ⟨result.canonical_toJson, ValidationResult.ofJson?_toJson h⟩⟩

/-- A result that is called valid although it lists an issue, at a path with an index and a key of
the same text and the greatest index. -/
def numeralsResult : ValidationResult :=
  ⟨true, [⟨[.index 3, .key "3", .index (2 ^ 64 - 1), .key ""], "Required"⟩]⟩

/-- It is read back. -/
theorem documents_read_back_numerals :
    numeralsResult.Counted ∧
      ValidationResult.ofJson? numeralsResult.toJson = some numeralsResult := by
  have hcounted : numeralsResult.Counted := by
    intro issue hissue segment hsegment
    obtain rfl := List.mem_singleton.1 hissue
    simp only [List.mem_cons, List.not_mem_nil, or_false] at hsegment
    rcases hsegment with rfl | rfl | rfl | rfl
    · exact (by decide : 3 < 2 ^ 64)
    · trivial
    · exact (by decide : 2 ^ 64 - 1 < 2 ^ 64)
    · trivial
  exact ⟨hcounted, (documents_read_back.2 numeralsResult hcounted).2⟩

end JsonShelf
