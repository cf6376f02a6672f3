/-
**What a check is about.**

A check is measured here against a plain reading of shapes: which values are of a shape, and which
part of a shape speaks about the values at a path.  Nothing is found exactly in the values of the
shape; a finding stands at a value that its own part of the shape refuses; and a shape that names
no field twice is never blamed twice for one place.

Main definitions:

* `Shape.Conforms` — the values of a shape;
* `Shape.Governs` — the part of a shape that speaks about the values at a path;
* `Shape.Justified` — a finding names a place where something is wrong, and says what;
* `Shape.blamed` — where the findings with some complaints stand.

Main results:

* `Shape.check_eq_nil_iff` — **nothing is found exactly in the values of the shape**;
* `Shape.justified_of_mem_check` — every finding is justified;
* `Shape.check_induction` — induction along a check, which goes into arrays and objects only;
* `Shape.blamed_array`, `Shape.blamed_object` — where findings stand in a container, step by step;
* `Shape.nodup_paths_check` — no two findings have one path;
* `Shape.validateValue_justified` — all of this of the issues that are reported.
-/

import JsonShelf.Proofs.Json.ReadingOrder
import JsonShelf.Proofs.Shape.Parts
import JsonShelf.Proofs.Validation.Findings
import Mathlib.Data.List.Basic
import Mathlib.Data.List.Nodup

set_option autoImplicit false

namespace JsonShelf.Shape

open Json (Segment)

variable {part shape element : Shape} {shapes : List Shape} {value inner : Json}
  {fields : List (String × Shape)} {members : Members Json} {path : Json.Path}
  {segment : Segment} {f : Finding}

/-! ### Conformance -/

mutual

/-- Is the value of the shape? -/
def Conforms : Shape → Json → Prop
  | unknown, _ => True
  | undefined, _ => False
  | null, value => value.kind = "null"
  | scalar kind, value => value.kind = kind.name
  | array element, value =>
    ∃ items, value = .array items ∧ ∀ item ∈ items, Conforms element item
  | object fields, value => ∃ members, value = .object members ∧ FieldsConform fields members
  | union shapes, value => SomeConforms shapes value

/-- Is each field there with a value of its shape, or missing with a shape that allows it? -/
def FieldsConform : List (String × Shape) → Members Json → Prop
  | [], _ => True
  | (name, shape) :: rest, members =>
    ((∃ value, Members.get? name members = some value ∧ Conforms shape value) ∨
      Members.get? name members = none ∧ shape.acceptsMissing = true) ∧
    FieldsConform rest members

/-- Is the value of one of the shapes? -/
def SomeConforms : List Shape → Json → Prop
  | [], _ => False
  | shape :: rest, value => Conforms shape value ∨ SomeConforms rest value

end

theorem fieldsConform_iff :
    FieldsConform fields members ↔ ∀ field ∈ fields,
      (∃ value, Members.get? field.1 members = some value ∧ Conforms field.2 value) ∨
        Members.get? field.1 members = none ∧ field.2.acceptsMissing = true := by
  induction fields with
  | nil => simp [FieldsConform]
  | cons field rest ih => rw [FieldsConform, ih, List.forall_mem_cons]

theorem someConforms_iff : SomeConforms shapes value ↔ ∃ shape ∈ shapes, Conforms shape value := by
  induction shapes with
  | nil => simp [SomeConforms]
  | cons shape rest ih => rw [SomeConforms, ih, List.exists_mem_cons_iff]

theorem kind_eq_null_iff : value.kind = "null" ↔ value = .null := by
  cases value <;> simp [Json.kind]

theorem kind_eq_name_iff {kind : Scalar} :
    value.kind = kind.name ↔ scalarAdmits kind value = true := by
  cases kind <;> cases value <;> simp [Json.kind, Scalar.name, scalarAdmits]

/-- **Nothing is found exactly in the values of the shape.** -/
theorem check_eq_nil_iff : check shape value = [] ↔ shape.Conforms value := by
  -- a value that is there is taken just if nothing is found in it
  suffices h : ∀ value, shape.Takes (some value) ↔ shape.Conforms value from h value
  induction shape using Shape.induction with
  | null =>
      intro value
      rw [takes_null_iff, Conforms, kind_eq_null_iff, Option.some_inj]
  | undefined =>
      intro value
      simp [takes_undefined_iff, Conforms]
  | scalar kind =>
      intro value
      simp [takes_scalar_iff, Conforms, kind_eq_name_iff]
  | unknown =>
      intro value
      simp [takes_unknown, Conforms]
  | array element ih =>
      intro value
      simp only [takes_array_iff, Conforms, Option.some_inj, ih]
  | object fields ih =>
      intro value
      simp only [takes_object_iff, Conforms, Option.some_inj, fieldsConform_iff]
      refine exists_congr fun members => and_congr_right fun _ => ?_
      refine forall₂_congr fun field hfield => ?_
      cases hget : Members.get? field.1 members with
      | none => simp [Takes]
      | some inner => simp [ih field hfield]
  | union shapes ih =>
      intro value
      rw [takes_union_iff, Conforms, someConforms_iff]
      exact exists_congr fun shape => and_congr_right fun hshape => ih shape hshape value

/-! ### Who speaks about a place -/

/-- The part of the shape speaks about the values at the path.  A name that stands twice among the
fields leads to both. -/
inductive Governs (part : Shape) : Json.Path → Shape → Prop
  | self : Governs part [] part
  | item {path : Json.Path} {element : Shape} (n : ℕ) :
    Governs part path element → Governs part (.index n :: path) (.array element)
  | field {path : Json.Path} {fields : List (String × Shape)} {field : String × Shape} :
    field ∈ fields → Governs part path field.2 →
      Governs part (.key field.1 :: path) (.object fields)

/-- What a complaint calls the kind of values it expects. -/
def title : Shape → String
  | null => "null"
  | undefined => "undefined"
  | scalar kind => kind.name
  | unknown => "unknown"
  | array _ => "array"
  | object _ => "object"
  | union _ => "union"

/-- The finding names a place where something is wrong, and says what: an object in which a field
that may not be missing is missing, or a value that the part of the shape for it refuses. -/
def Justified (shape : Shape) (value : Json) (f : Finding) : Prop :=
  match f.complaint with
  | .required => ∃ front key members field, f.path = front ++ [.key key] ∧
      value.resolve? front = some (.object members) ∧ Members.get? key members = none ∧
      Governs field f.path shape ∧ field.acceptsMissing = false
  | .mismatch expected received => ∃ inner part, value.resolve? f.path = some inner ∧
      Governs part f.path shape ∧ ¬part.Conforms inner ∧
      part.title = expected ∧ inner.kind = received
  | .noMember => ∃ inner shapes, value.resolve? f.path = some inner ∧
      Governs (union shapes) f.path shape ∧ ∀ member ∈ shapes, ¬member.Conforms inner

/-- What is justified one step further in is justified, if the step leads to the value in the value
and to the shape in the shape. -/
theorem Justified.under (hvalue : value.step? segment = some inner)
    (hshape : ∀ part path, Governs part path element → Governs part (segment :: path) shape)
    (h : Justified element inner f) : Justified shape value (f.under segment) := by
  have hresolve : ∀ path, value.resolve? (segment :: path) = inner.resolve? path := by
    intro path
    rw [Json.resolve?_cons, hvalue, Option.bind_some]
  obtain ⟨path, complaint⟩ := f
  cases complaint with
  | required =>
      obtain ⟨front, key, members, field, rfl, hfront, hget, hgoverns, hmissing⟩ := h
      exact ⟨segment :: front, key, members, field, rfl, (hresolve front).trans hfront, hget,
        hshape _ _ hgoverns, hmissing⟩
  | mismatch expected received =>
      obtain ⟨value, part, hpath, hgoverns, hrefuses⟩ := h
      exact ⟨value, part, (hresolve path).trans hpath, hshape _ _ hgoverns, hrefuses⟩
  | noMember =>
      obtain ⟨value, shapes, hpath, hgoverns, hrefuses⟩ := h
      exact ⟨value, shapes, (hresolve path).trans hpath, hshape _ _ hgoverns, hrefuses⟩

/-- A mismatch is justified where the shape refuses the value. -/
theorem justified_of_mem_mismatch (hcheck : check shape value = mismatch shape.title value)
    (hf : f ∈ check shape value) : Justified shape value f := by
  have hrefuses : ¬shape.Conforms value := by
    intro hconforms
    rw [check_eq_nil_iff.2 hconforms] at hf
    cases hf
  rw [hcheck, mismatch, List.mem_singleton] at hf
  subst hf
  exact ⟨value, shape, rfl, .self, hrefuses, rfl, rfl⟩

theorem justified_of_mem_checkFields
    (ih : ∀ field ∈ fields, ∀ value, ∀ f ∈ check field.2 value, Justified field.2 value f)
    (hf : f ∈ checkFields fields members) : Justified (object fields) (.object members) f := by
  obtain ⟨field, hfield, ⟨inner, hget, g, hg, rfl⟩ | ⟨hnone, hmissing, rfl⟩⟩ := mem_checkFields.1 hf
  · exact (ih field hfield inner g hg).under hget fun _ _ => .field hfield
  · exact ⟨[], field.1, members, field.2, rfl, rfl, hnone, .field hfield .self, hmissing⟩

/-- Every finding is justified. -/
theorem justified_of_mem_check : ∀ f ∈ check shape value, Justified shape value f := by
  induction shape using Shape.induction generalizing value with
  | null =>
      intro f hf
      by_cases h : value = .null
      · simp [check, h] at hf
      · exact justified_of_mem_mismatch (by simp [check, h, title]) hf
  | undefined => exact fun f hf => justified_of_mem_mismatch rfl hf
  | scalar kind =>
      intro f hf
      by_cases h : scalarAdmits kind value = true
      · simp [check, h] at hf
      · exact justified_of_mem_mismatch (by simp [check, h, title]) hf
  | unknown => simp [check]
  | array element ih =>
      intro f hf
      cases value with
      | array items =>
          obtain ⟨n, item, hitem, g, hg, rfl⟩ := mem_check_array.1 hf
          exact (ih g hg).under hitem fun _ _ => .item n
      | null | bool | number | string | object => exact justified_of_mem_mismatch rfl hf
  | object fields ih =>
      intro f hf
      cases value with
      | object members =>
          exact justified_of_mem_checkFields (fun field hfield _ => ih field hfield) hf
      | null | bool | number | string | array => exact justified_of_mem_mismatch rfl hf
  | union shapes ih =>
      intro f hf
      obtain ⟨hall, rfl⟩ := mem_check_union.1 hf
      exact ⟨value, shapes, rfl, .self, fun shape hshape hconforms =>
        hall shape hshape (check_eq_nil_iff.2 hconforms)⟩

/-! ### Where something is found -/

/-- Where the findings with some complaints stand. -/
def blamed (about : Complaint → Bool) (shape : Shape) (value : Json) : List Json.Path :=
  ((check shape value).filter (about ·.complaint)).map Finding.path

/-- Where findings about a field stand, seen from its value. -/
def blamedAt (about : Complaint → Bool) (members : Members Json) (field : String × Shape) :
    List Json.Path :=
  match Members.get? field.1 members with
  | some inner => blamed about field.2 inner
  | none => if field.2.acceptsMissing then [] else if about .required then [[]] else []

variable {about : Complaint → Bool}

theorem blamed_under (shape : Shape) (value : Json) (segment : Segment) :
    (((check shape value).map (.under segment)).filter (about ·.complaint)).map Finding.path =
      (blamed about shape value).map (segment :: ·) := by
  rw [blamed, List.filter_map, List.map_map, List.map_map]
  rfl

theorem blamed_array (element : Shape) (items : List Json) :
    blamed about (array element) (.array items) =
      Json.blocks (Json.itemParts (blamed about element) items) := by
  rw [blamed, check, List.filter_flatMap, List.map_flatMap, Json.blocks, Json.itemParts,
    List.flatMap_map]
  exact congrArg (List.flatMap · _) (funext fun item => blamed_under _ _ _)

theorem blamed_object (fields : List (String × Shape)) (members : Members Json) :
    blamed about (object fields) (.object members) =
      Json.blocks (Json.keyParts (blamedAt about members) fields) := by
  rw [blamed, check]
  induction fields with
  | nil => rfl
  | cons field rest ih =>
      rw [checkFields, List.filter_append, List.map_append, ih, Json.blocks_keyParts_cons, blamedAt]
      congr 1
      cases Members.get? field.1 members with
      | some inner => exact blamed_under _ _ _
      | none =>
          cases field.2.acceptsMissing <;> cases hrequired : about .required <;> simp [hrequired]

/-- A check of the value looks at nothing inside it. -/
structure Flat (shape : Shape) (value : Json) : Prop where
  findings : check shape value = [] ∨ ∃ complaint, check shape value = [⟨[], complaint⟩]
  no_object : ∀ path fields members, Governs (object fields) path shape →
    value.resolve? path ≠ some (.object members)

/-- What holds wherever nothing inside is looked at, and carries over from the items of an array and
the members of an object, holds of all checks. -/
theorem check_induction {motive : Shape → Json → Prop}
    (flat : ∀ shape value, Flat shape value → motive shape value)
    (array : ∀ element items, (∀ item, motive element item) →
      motive (.array element) (.array items))
    (object : ∀ fields members, (∀ field ∈ fields, ∀ inner, motive field.2 inner) →
      motive (.object fields) (.object members))
    (shape : Shape) (value : Json) : motive shape value := by
  induction shape using Shape.induction generalizing value with
  | null | scalar | union =>
      refine flat _ _ ⟨?_, ?_⟩
      · rw [check]
        split
        · exact .inl rfl
        · exact .inr ⟨_, rfl⟩
      · rintro _ _ _ ⟨⟩
  | undefined =>
      refine flat _ _ ⟨.inr ⟨_, rfl⟩, ?_⟩
      rintro _ _ _ ⟨⟩
  | unknown =>
      refine flat _ _ ⟨.inl rfl, ?_⟩
      rintro _ _ _ ⟨⟩
  | array element ih =>
      cases value with
      | array items => exact array element items ih
      | null | bool | number | string | object =>
          refine flat _ _ ⟨.inr ⟨_, rfl⟩, ?_⟩
          rintro _ _ _ (_ | n) hresolve
          cases hresolve
  | object fields ih =>
      cases value with
      | object members => exact object fields members ih
      | null | bool | number | string | array =>
          refine flat _ _ ⟨.inr ⟨_, rfl⟩, ?_⟩
          rintro _ _ _ (_ | _ | hfield) hresolve
          all_goals cases hresolve

theorem Flat.blamed_sublist (h : Flat shape value) : (blamed about shape value).Sublist [[]] := by
  have hfilter : (blamed about shape value).Sublist ((check shape value).map Finding.path) :=
    List.filter_sublist.map _
  obtain hnone | ⟨complaint, hone⟩ := h.findings
  · rw [hnone] at hfilter
    exact hfilter.trans (List.nil_sublist _)
  · rw [hone] at hfilter
    exact hfilter

/-! ### No place twice -/

theorem nodup_blamed (h : shape.Distinct) : (blamed about shape value).Nodup := by
  induction shape, value using check_induction with
  | flat shape value hflat => exact (List.nodup_singleton _).sublist hflat.blamed_sublist
  | array element items ih =>
      rw [blamed_array]
      refine Json.nodup_blocks (Json.nodup_itemParts _ _) ?_
      intro part hpart
      obtain ⟨_, item, _, rfl⟩ := Json.mem_itemParts.1 hpart
      exact ih item (distinct_array_iff.1 h)
  | object fields members ih =>
      obtain ⟨hnames, hfields⟩ := distinct_object_iff.1 h
      rw [blamed_object]
      refine Json.nodup_blocks (Json.nodup_keyParts _ hnames) ?_
      intro part hpart
      obtain ⟨field, hfield, rfl⟩ := Json.mem_keyParts.1 hpart
      dsimp only
      rw [blamedAt]
      split
      · exact ih field hfield _ (hfields field hfield)
      · split_ifs <;> simp

/-- No two findings have one path, if the shape names no two fields of an object alike. -/
theorem nodup_paths_check (h : shape.Distinct) : ((check shape value).map Finding.path).Nodup := by
  have hall : blamed (fun _ => true) shape value = (check shape value).map Finding.path := by
    rw [blamed, List.filter_true]
  rw [← hall]
  exact nodup_blamed h

/-! ### Wordings -/

theorem comma_notMem_title (shape : Shape) : ',' ∉ shape.title.toList := by
  cases shape with
  | scalar kind => cases kind <;> decide
  | null | undefined | unknown | array | object | union => simp [title]

theorem comma_notMem_kind (value : Json) : ',' ∉ value.kind.toList := by
  cases value <;> simp [Json.kind]

/-- The first letter tells a mismatch from the other complaints. -/
theorem message_mismatch_ne {text : String} (expected received : String)
    (h : text.toList.head? ≠ some 'E') : (Complaint.mismatch expected received).message ≠ text := by
  rintro rfl
  refine h ?_
  simp only [Complaint.message, String.toList_append, List.append_assoc]
  rfl

theorem eq_required_of_message {complaint : Complaint} (h : complaint.message = "Required") :
    complaint = .required := by
  cases complaint with
  | required => rfl
  | noMember => exact absurd h (by decide)
  | mismatch expected received => exact absurd h (message_mismatch_ne _ _ (by decide))

theorem eq_noMember_of_message {complaint : Complaint} (h : complaint.message = "Invalid input") :
    complaint = .noMember := by
  cases complaint with
  | noMember => rfl
  | required => exact absurd h (by decide)
  | mismatch expected received => exact absurd h (message_mismatch_ne _ _ (by decide))

theorem exists_mismatch_of_message {complaint : Complaint} {expected received : String}
    (h : complaint.message = "Expected " ++ expected ++ ", received " ++ received) :
    ∃ left right, complaint = .mismatch left right := by
  cases complaint with
  | mismatch left right => exact ⟨left, right, rfl⟩
  | required | noMember => exact absurd h.symm (message_mismatch_ne _ _ (by decide))

/-- The wording of a mismatch tells what is expected from what is there, since neither has a comma
in its name. -/
theorem eq_of_message_mismatch {expected received left right : String}
    (hexpected : ',' ∉ expected.toList) (hreceived : ',' ∉ received.toList)
    (h : (Complaint.mismatch expected received).message =
      "Expected " ++ left ++ ", received " ++ right) :
    expected = left ∧ received = right := by
  have hchars := congrArg String.toList h
  have hcomma : ", received ".toList = ',' :: " received ".toList := rfl
  simp only [Complaint.message, String.toList_append, List.append_assoc,
    List.append_cancel_left_eq, hcomma, List.cons_append] at hchars
  have hnone : ',' ∉ " received ".toList ++ received.toList := by
    rw [List.mem_append, not_or]
    exact ⟨by decide, hreceived⟩
  obtain ⟨hleft, -, hright⟩ :=
    (List.append_cons_inj_of_notMem hexpected hnone).1 hchars
  exact ⟨String.toList_inj.1 hleft, String.toList_inj.1 (List.append_cancel_left hright)⟩

/-! ### Issues -/

/-- **An issue is reported just if the value is not of the shape, and each stands where something is
wrong.**  A field is required of an object that lacks it; a mismatch stands at a value of the kind
that was received, which the part of the shape for it refuses; a value that is no input is refused
by each member of the union for it.  No place is blamed twice if the shape names no field twice. -/
theorem validateValue_justified (value : Json) (shape : Shape) :
    (validateValue value shape = [] ↔ shape.Conforms value) ∧
      (∀ issue ∈ validateValue value shape,
        (issue.message = "Required" ∨ issue.message = "Invalid input" ∨ ∃ expected received,
          issue.message = "Expected " ++ expected ++ ", received " ++ received) ∧
        (issue.message = "Required" → ∃ front key members, issue.path = front ++ [.key key] ∧
          value.resolve? front = some (.object members) ∧ Members.get? key members = none) ∧
        (∀ expected received,
          issue.message = "Expected " ++ expected ++ ", received " ++ received →
            ∃ inner part, value.resolve? issue.path = some inner ∧ inner.kind = received ∧
              Governs part issue.path shape ∧ part.title = expected ∧ ¬part.Conforms inner) ∧
        (issue.message = "Invalid input" → ∃ inner shapes, value.resolve? issue.path = some inner ∧
          Governs (union shapes) issue.path shape ∧ ∀ member ∈ shapes, ¬member.Conforms inner)) ∧
      (shape.Distinct → ((validateValue value shape).map Issue.path).Nodup) := by
  refine ⟨?_, ?_, ?_⟩
  · rw [validateValue, List.map_eq_nil_iff, check_eq_nil_iff]
  · intro issue hissue
    obtain ⟨⟨path, complaint⟩, hf, rfl⟩ := List.mem_map.1 hissue
    have hjustified := justified_of_mem_check _ hf
    refine ⟨?_, ?_, ?_, ?_⟩
    · cases complaint with
      | required => exact .inl rfl
      | noMember => exact .inr (.inl rfl)
      | mismatch expected received => exact .inr (.inr ⟨expected, received, rfl⟩)
    · intro hmessage
      obtain rfl := eq_required_of_message hmessage
      obtain ⟨front, key, members, _, hpath, hfront, hget, -⟩ := hjustified
      exact ⟨front, key, members, hpath, hfront, hget⟩
    · intro expected received hmessage
      obtain ⟨left, right, rfl⟩ := exists_mismatch_of_message hmessage
      obtain ⟨inner, part, hinner, hgoverns, hrefuses, rfl, rfl⟩ := hjustified
      obtain ⟨rfl, rfl⟩ :=
        eq_of_message_mismatch (comma_notMem_title part) (comma_notMem_kind inner) hmessage
      exact ⟨inner, part, hinner, rfl, hgoverns, rfl, hrefuses⟩
    · intro hmessage
      obtain rfl := eq_noMember_of_message hmessage
      exact hjustified
  · intro hdistinct
    rw [validateValue, List.map_map]
    exact nodup_paths_check hdistinct

/-- A shape of records with a name, an age and a mark that is null or a number. -/
def recordShape : Shape :=
  .object [("name", .scalar .string), ("age", .scalar .number),
    ("mark", .union [.null, .scalar .number])]

/-- A record whose name is a number, whose age is missing and whose mark is a text. -/
def wrongRecord : Json :=
  .object [("name", Json.ofInt 1), ("mark", .string "A")]

theorem distinct_recordShape : recordShape.Distinct := by
  have hleaf : ∀ shape, shape = Shape.null ∨ (∃ kind, shape = .scalar kind) → shape.Distinct := by
    rintro shape (rfl | ⟨kind, rfl⟩) fields (_ | _)
  rw [recordShape, distinct_object_iff]
  refine ⟨by decide, ?_⟩
  simp only [List.mem_cons, List.not_mem_nil, or_false, forall_eq_or_imp, forall_eq,
    distinct_union_iff]
  exact ⟨hleaf _ (.inr ⟨_, rfl⟩), hleaf _ (.inr ⟨_, rfl⟩), hleaf _ (.inl rfl),
    hleaf _ (.inr ⟨_, rfl⟩)⟩

/-- Each of the three issues stands in its place. -/
theorem validateValue_justified_wrongRecord :
    validateValue wrongRecord recordShape =
        [⟨[.key "name"], "Expected string, received number"⟩, ⟨[.key "age"], "Required"⟩,
          ⟨[.key "mark"], "Invalid input"⟩] ∧
      ¬recordShape.Conforms wrongRecord ∧
      (∃ inner part, wrongRecord.resolve? [.key "name"] = some inner ∧ inner.kind = "number" ∧
        Governs part [.key "name"] recordShape ∧ part.title = "string" ∧ ¬part.Conforms inner) ∧
      (∃ front key members, [Segment.key "age"] = front ++ [.key key] ∧
        wrongRecord.resolve? front = some (.object members) ∧ Members.get? key members = none) ∧
      (∃ inner shapes, wrongRecord.resolve? [.key "mark"] = some inner ∧
        Governs (union shapes) [.key "mark"] recordShape ∧
          ∀ member ∈ shapes, ¬member.Conforms inner) ∧
      ((validateValue wrongRecord recordShape).map Issue.path).Nodup := by
  have hissues : validateValue wrongRecord recordShape =
      [⟨[.key "name"], "Expected string, received number"⟩, ⟨[.key "age"], "Required"⟩,
        ⟨[.key "mark"], "Invalid input"⟩] := by decide
  obtain ⟨hempty, hplaces, hnodup⟩ := validateValue_justified wrongRecord recordShape
  rw [hissues] at hempty hplaces
  refine ⟨hissues, ?_, ?_, ?_, ?_, hnodup distinct_recordShape⟩
  · exact fun hconforms => List.cons_ne_nil _ _ (hempty.2 hconforms)
  · exact (hplaces ⟨[.key "name"], "Expected string, received number"⟩ (by simp)).2.2.1
      "string" "number" rfl
  · exact (hplaces ⟨[.key "age"], "Required"⟩ (by simp)).2.1 rfl
  · exact (hplaces ⟨[.key "mark"], "Invalid input"⟩ (by simp)).2.2.2 rfl

end JsonShelf.Shape
