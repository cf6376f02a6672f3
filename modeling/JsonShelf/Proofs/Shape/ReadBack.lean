/-
**Shapes read back.**

The document of a shape names the constructor and holds the parts, so the shape is read back from
it, whether or not it has the form that shapes are inferred in.

Main results:

* `Shape.opened?_tagged` — a tag is found, and what is written beside it;
* `Shape.ofJson?_toJson` — **the document of a shape writes this shape**;
* `Shape.canonical_toJson` — the document holds each key once.
-/

import JsonShelf.Proofs.Json.Nesting
import JsonShelf.Proofs.Json.Paths
import JsonShelf.Proofs.Json.Payload
import JsonShelf.Proofs.Shape.Parts
import JsonShelf.Shape.Document

set_option autoImplicit false

namespace JsonShelf.Shape

variable {kind name : String} {members : Members Json}

/-! ### Documents of parts -/

/-- The document of a field of an object shape. -/
def fieldToJson (field : String × Shape) : Json :=
  .object [("name", .string field.1), ("shape", toJson field.2)]

theorem fieldsToJson_eq_map (fields : List (String × Shape)) :
    fieldsToJson fields = fields.map fieldToJson := by
  induction fields with
  | nil => rfl
  | cons field rest ih => rw [fieldsToJson, ih, List.map_cons, fieldToJson]

theorem membersToJson_eq_map (members : List Shape) :
    membersToJson members = members.map toJson := by
  induction members with
  | nil => rfl
  | cons member rest ih => rw [membersToJson, ih, List.map_cons]

/-- A document is deeper than what is written beside its tag. -/
theorem depth_lt_tagged (kind name : String) (value : Json) :
    value.depth < (tagged kind [(name, value)]).depth := by
  have hmem : (name, value) ∈ [("kind", .string kind), (name, value)] := by simp
  exact Json.depth_lt_of_mem_members hmem

theorem depth_lt_fieldToJson (field : String × Shape) :
    field.2.toJson.depth < (fieldToJson field).depth := by
  have hmem : ("shape", field.2.toJson) ∈
      [("name", .string field.1), ("shape", field.2.toJson)] := by simp
  exact Json.depth_lt_of_mem_members hmem

/-! ### Readers -/

/-- A tag is found, and what is written beside it. -/
theorem opened?_tagged {tag : Tag} (htag : Tag.ofName? kind = some tag)
    (hkeys : (Members.keys (("kind", Json.string kind) :: members)).Nodup) (isInner : Bool) :
    opened? isInner (tagged kind members) = some (tag, .object members) := by
  have hbeside : (("kind", Json.string kind) :: members).filter (·.1 != "kind") = members := by
    rw [List.filter_cons_of_neg (by simp), List.filter_eq_self]
    intro member hmember
    rw [bne_iff_ne]
    intro heq
    have hnew : "kind" ∉ Members.keys members := (List.nodup_cons.1 hkeys).1
    exact hnew (heq ▸ List.mem_map_of_mem (f := Prod.fst) hmember)
  have hread : tagOf? isInner (.string kind) = some tag := htag
  simp only [opened?, tagged, Json.single?_of_nodup hkeys, Members.get?_cons, if_pos, hbeside,
    Option.bind_eq_bind, Option.bind_some, hread, Option.pure_def]

theorem onlyField?_singleton (name : String) (value : Json) :
    onlyField? name (.object [(name, value)]) = some value := by
  have hfields : Json.fields? [name] (.object [(name, value)]) = some [some value] :=
    Json.fields?_keys (List.nodup_singleton name)
  rw [onlyField?, hfields]
  rfl

theorem scalarOf?_name (kind : Scalar) : scalarOf? (.string kind.name) = some kind := by
  cases kind <;> rfl

/-! ### Reading back -/

/-- The document of a shape is read back, as a whole and inside another one. -/
theorem read?_toJson (shape : Shape) {bound : ℕ} (hb : shape.toJson.depth < bound)
    (isInner : Bool) : read? bound isInner shape.toJson = some shape := by
  induction shape using Shape.induction generalizing bound isInner with
  | null | undefined | unknown =>
      obtain ⟨b, rfl⟩ : ∃ b, bound = b + 1 := ⟨bound - 1, by omega⟩
      rw [toJson, read?, opened?_tagged rfl (by simp)]
      rfl
  | scalar kind =>
      obtain ⟨b, rfl⟩ : ∃ b, bound = b + 1 := ⟨bound - 1, by omega⟩
      rw [toJson, read?, opened?_tagged rfl (by simp)]
      simp [onlyField?_singleton, scalarOf?_name]
  | array element ih =>
      obtain ⟨b, rfl⟩ : ∃ b, bound = b + 1 := ⟨bound - 1, by omega⟩
      rw [toJson] at hb
      have hdepth := depth_lt_tagged "array" "element" element.toJson
      have hread : read? b true element.toJson = some element := ih (by omega) true
      rw [toJson, read?, opened?_tagged rfl (by simp)]
      simp [onlyField?_singleton, hread]
  | object fields ih =>
      obtain ⟨b, rfl⟩ : ∃ b, bound = b + 1 := ⟨bound - 1, by omega⟩
      rw [toJson, fieldsToJson_eq_map] at hb
      have hdepth := depth_lt_tagged "object" "fields" (.array (fields.map fieldToJson))
      rw [toJson, read?, opened?_tagged rfl (by simp), fieldsToJson_eq_map]
      simp only [Option.bind_eq_bind, Option.bind_some, onlyField?_singleton]
      rw [Json.listOf?_map]
      · rfl
      · intro field hfield
        have hitem := Json.depth_lt_of_mem_items (List.mem_map_of_mem (f := fieldToJson) hfield)
        have hshape := depth_lt_fieldToJson field
        have hread : read? b true field.2.toJson = some field.2 := ih field hfield (by omega) true
        have hparts : Json.fields? ["name", "shape"] (fieldToJson field) =
            some [some (.string field.1), some field.2.toJson] := Json.fields?_keys (by simp)
        rw [hparts]
        simp [Json.text?, hread]
  | union members ih =>
      obtain ⟨b, rfl⟩ : ∃ b, bound = b + 1 := ⟨bound - 1, by omega⟩
      rw [toJson, membersToJson_eq_map] at hb
      have hdepth := depth_lt_tagged "union" "members" (.array (members.map toJson))
      have hread : Json.listOf? (read? b true) (.array (members.map toJson)) = some members := by
        refine Json.listOf?_map fun member hmember => ih member hmember ?_ true
        have hitem := Json.depth_lt_of_mem_items (List.mem_map_of_mem (f := toJson) hmember)
        omega
      rw [toJson, read?, opened?_tagged rfl (by simp), membersToJson_eq_map]
      simp [onlyField?_singleton, hread]

/-- **The document of a shape writes this shape.** -/
theorem ofJson?_toJson (shape : Shape) : ofJson? shape.toJson = some shape :=
  read?_toJson shape (Nat.lt_succ_self _) false

/-! ### Keys -/

theorem canonical_tagged (kind : String) {name : String} {value : Json} (hname : name ≠ "kind")
    (h : value.Canonical) : (tagged kind [(name, value)]).Canonical :=
  ⟨by simpa using hname.symm, trivial, h, trivial⟩

/-- The document of a shape holds each key once. -/
theorem canonical_toJson (shape : Shape) : shape.toJson.Canonical := by
  induction shape using Shape.induction with
  | null | undefined | unknown => exact ⟨List.nodup_singleton _, trivial, trivial⟩
  | scalar kind => exact canonical_tagged "scalar" (by decide) trivial
  | array element ih => exact canonical_tagged "array" (by decide) ih
  | object fields ih =>
      rw [toJson, fieldsToJson_eq_map]
      refine canonical_tagged "object" (by decide) (Json.canonicalItems_iff.2 ?_)
      intro item hitem
      obtain ⟨field, hfield, rfl⟩ := List.mem_map.1 hitem
      exact ⟨by simp, trivial, ih field hfield, trivial⟩
  | union members ih =>
      rw [toJson, membersToJson_eq_map]
      refine canonical_tagged "union" (by decide) (Json.canonicalItems_iff.2 ?_)
      intro item hitem
      obtain ⟨member, hmember, rfl⟩ := List.mem_map.1 hitem
      exact ih member hmember

end JsonShelf.Shape
