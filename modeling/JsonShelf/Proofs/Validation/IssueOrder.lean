/-
**The order of mismatches.**

A check goes through an object in the order in which the shape names the fields, and the object may
list them in another.  So mismatches come in the order in which the values are read just if each
object lists the fields with a mismatch in the order of its shape.

Main definitions:

* `Shape.mismatches` — where the issues of a value stand, those about missing fields apart;
* `Shape.mismatchedFields` — the fields of an object in whose values there is a mismatch;
* `Shape.FieldsInOrder` — each object lists these fields in the order of its shape.

Main results:

* `Shape.mismatches_array`, `Shape.mismatches_object` — the mismatches of a container, step by step;
* `Shape.mismatches_in_order_iff` — **mismatches come in the order of the values just if the fields
  do**.
-/

import JsonShelf.Proofs.Json.ReadingOrder
import JsonShelf.Proofs.Validation.Conformance

set_option autoImplicit false

namespace JsonShelf.Shape

open Json (Segment Path blocks itemParts keyParts)

variable {shape element : Shape} {value : Json} {items : List Json}
  {fields : List (String × Shape)} {members : Members Json}

/-- Where the issues of a value stand, those about missing fields apart. -/
def mismatches (value : Json) (shape : Shape) : List Path :=
  ((validateValue value shape).filter (·.message ≠ "Required")).map Issue.path

/-- Where the mismatches in the value of a field stand, seen from that value. -/
def mismatchesAt (members : Members Json) (field : String × Shape) : List Path :=
  ((Members.get? field.1 members).map (mismatches · field.2)).getD []

/-- The names of the fields in whose values there is a mismatch, in the order of the shape. -/
def mismatchedFields (fields : List (String × Shape)) (members : Members Json) : List String :=
  Members.keys (fields.filter (mismatchesAt members · ≠ []))

/-- Each object lists the fields in whose values there is a mismatch in the order of its shape. -/
def FieldsInOrder (shape : Shape) (value : Json) : Prop :=
  ∀ path fields members, Governs (object fields) path shape →
    value.resolve? path = some (.object members) →
      (mismatchedFields fields members).Sublist (Members.keys members)

/-! ### Mismatches as findings -/

theorem mismatches_eq_blamed (value : Json) (shape : Shape) :
    mismatches value shape = blamed (· ≠ .required) shape value := by
  have hwording : ∀ f : Finding, f.toIssue.message ≠ "Required" ↔ f.complaint ≠ .required :=
    fun f => not_congr ⟨eq_required_of_message, fun h => congrArg Complaint.message h⟩
  rw [mismatches, validateValue, List.filter_map, List.map_map, blamed]
  refine congrArg (List.map _) (List.filter_congr fun f _ => ?_)
  exact decide_eq_decide.2 (hwording f)

theorem mismatchesAt_eq_blamedAt (members : Members Json) (field : String × Shape) :
    mismatchesAt members field = blamedAt (· ≠ .required) members field := by
  rw [mismatchesAt, blamedAt]
  cases Members.get? field.1 members with
  | some inner => exact mismatches_eq_blamed inner field.2
  | none => exact (ite_self _).symm

theorem mismatches_array (element : Shape) (items : List Json) :
    mismatches (.array items) (array element) =
      blocks (itemParts (mismatches · element) items) := by
  have hitem : blamed (· ≠ .required) element = (mismatches · element) :=
    funext fun item => (mismatches_eq_blamed item element).symm
  rw [mismatches_eq_blamed, blamed_array, hitem]

theorem mismatches_object (fields : List (String × Shape)) (members : Members Json) :
    mismatches (.object members) (object fields) =
      blocks (keyParts (mismatchesAt members) fields) := by
  have hat : blamedAt (· ≠ .required) members = mismatchesAt members :=
    funext fun field => (mismatchesAt_eq_blamedAt members field).symm
  rw [mismatches_eq_blamed, blamed_object, hat]

/-- Each mismatch stands at a value. -/
theorem resolve?_isSome_of_mem_mismatches {path : Path} (h : path ∈ mismatches value shape) :
    (value.resolve? path).isSome := by
  rw [mismatches_eq_blamed] at h
  obtain ⟨⟨path, complaint⟩, hf, rfl⟩ := List.mem_map.1 h
  obtain ⟨hmem, hcomplaint⟩ := List.mem_filter.1 hf
  have hjustified := justified_of_mem_check _ hmem
  cases complaint with
  | required => exact absurd rfl (of_decide_eq_true hcomplaint)
  | mismatch expected received =>
      obtain ⟨inner, _, hinner, -⟩ := hjustified
      exact Option.isSome_of_eq_some hinner
  | noMember =>
      obtain ⟨inner, _, hinner, -⟩ := hjustified
      exact Option.isSome_of_eq_some hinner

/-! ### The order of the fields -/

theorem fieldsInOrder_array_iff :
    FieldsInOrder (array element) (.array items) ↔ ∀ item ∈ items, FieldsInOrder element item := by
  constructor
  · intro h item hitem path fields members hgoverns hresolve
    obtain ⟨n, hn⟩ := List.getElem?_of_mem hitem
    refine h (.index n :: path) fields members (.item n hgoverns) ?_
    rw [Json.resolve?_cons, show (Json.array items).step? (.index n) = some item from hn,
      Option.bind_some, hresolve]
  · rintro h _ fields members (_ | ⟨n, hgoverns⟩) hresolve
    rw [Json.resolve?_cons] at hresolve
    obtain ⟨item, hitem, hrest⟩ := Option.bind_eq_some_iff.1 hresolve
    exact h item (List.mem_of_getElem? hitem) _ fields members hgoverns hrest

theorem fieldsInOrder_object_iff :
    FieldsInOrder (object fields) (.object members) ↔
      (mismatchedFields fields members).Sublist (Members.keys members) ∧
        ∀ field ∈ fields, ∀ inner, Members.get? field.1 members = some inner →
          FieldsInOrder field.2 inner := by
  constructor
  · intro h
    refine ⟨h [] fields members .self rfl, ?_⟩
    intro field hfield inner hinner path fields' members' hgoverns hresolve
    refine h (.key field.1 :: path) fields' members' (.field hfield hgoverns) ?_
    rw [Json.resolve?_cons,
      show (Json.object members).step? (.key field.1) = some inner from hinner,
      Option.bind_some, hresolve]
  · rintro ⟨hself, hfields⟩ _ fields' members' (_ | _ | ⟨hfield, hgoverns⟩) hresolve
    · cases hresolve
      exact hself
    · rw [Json.resolve?_cons] at hresolve
      obtain ⟨inner, hinner, hrest⟩ := Option.bind_eq_some_iff.1 hresolve
      exact hfields _ hfield inner hinner _ fields' members' hgoverns hrest

/-! ### The order of the values -/

/-- Items are checked in the order in which they are read. -/
theorem mismatches_array_sublist_iff :
    (mismatches (.array items) (array element)).Sublist (Json.array items).places ↔
      ∀ item ∈ items, (mismatches item element).Sublist item.places := by
  have hsteps : (((itemParts (mismatches · element) items).filter (·.2 ≠ [])).map Prod.fst).Sublist
      ((itemParts Json.places items).map Prod.fst) := by
    rw [Json.map_fst_itemParts, ← Json.map_fst_itemParts (mismatches · element)]
    exact List.filter_sublist.map _
  rw [mismatches_array, Json.places_array, Json.blocks_sublist_cons_nil_iff,
    Json.blocks_sublist_blocks_iff (Json.nodup_itemParts _ _) (Json.nodup_itemParts _ _),
    and_iff_right hsteps]
  constructor
  · intro h item hitem
    obtain ⟨n, hn⟩ := List.getElem?_of_mem hitem
    exact h (.index n) _ _ (Json.mem_itemParts.2 ⟨n, item, hn, rfl⟩)
      (Json.mem_itemParts.2 ⟨n, item, hn, rfl⟩)
  · intro h segment paths others hpaths hothers
    obtain ⟨n, item, hitem, heq⟩ := Json.mem_itemParts.1 hpaths
    obtain ⟨m, other, hother, heq'⟩ := Json.mem_itemParts.1 hothers
    cases heq
    cases heq'
    rw [hitem] at hother
    cases hother
    exact h item (List.mem_of_getElem? hitem)

theorem map_key_sublist_map_key_iff {names others : List String} :
    (names.map Segment.key).Sublist (others.map .key) ↔ names.Sublist others := by
  refine ⟨fun h => ?_, fun h => h.map _⟩
  obtain ⟨chosen, hchosen, heq⟩ := List.sublist_map_iff.1 h
  rwa [List.map_injective_iff.2 (fun _ _ => Segment.key.inj) heq]

/-- Fields are checked in the order of the shape, and members are read in that of the object. -/
theorem mismatches_object_sublist_iff (hfields : (Members.keys fields).Nodup)
    (hmembers : (Members.keys members).Nodup) :
    (mismatches (.object members) (object fields)).Sublist (Json.object members).places ↔
      (mismatchedFields fields members).Sublist (Members.keys members) ∧
        ∀ field ∈ fields, ∀ inner, Members.get? field.1 members = some inner →
          (mismatches inner field.2).Sublist inner.places := by
  have hsteps : ((keyParts (mismatchesAt members) fields).filter (·.2 ≠ [])).map Prod.fst =
      (mismatchedFields fields members).map .key := by
    rw [keyParts, List.filter_map, List.map_map, mismatchedFields, Members.keys, List.map_map]
    rfl
  have hat : ∀ {field inner}, Members.get? field.1 members = some inner →
      mismatchesAt members field = mismatches inner field.2 := by
    intro field inner hinner
    rw [mismatchesAt, hinner]
    rfl
  rw [mismatches_object, Json.places_object, Json.blocks_sublist_cons_nil_iff,
    Json.blocks_sublist_blocks_iff (Json.nodup_keyParts _ hfields) (Json.nodup_keyParts _ hmembers),
    hsteps, Json.map_fst_keyParts, map_key_sublist_map_key_iff]
  refine and_congr_right fun _ => ⟨?_, ?_⟩
  · intro h field hfield inner hinner
    rw [← hat hinner]
    exact h (.key field.1) _ _ (Json.mem_keyParts.2 ⟨field, hfield, rfl⟩)
      (Json.mem_keyParts.2 ⟨_, Members.mem_of_get? hinner, rfl⟩)
  · intro h segment paths others hpaths hothers
    obtain ⟨field, hfield, heq⟩ := Json.mem_keyParts.1 hpaths
    obtain ⟨⟨name, inner⟩, hmember, heq'⟩ := Json.mem_keyParts.1 hothers
    cases heq
    cases heq'
    have hinner : Members.get? field.1 members = some inner := Members.get?_of_mem hmembers hmember
    rw [hat hinner]
    exact h field hfield inner hinner

/-- Mismatches come in the order of the values just if the fields do. -/
theorem mismatches_sublist_places_iff (hvalue : value.Canonical) (hshape : shape.Distinct) :
    (mismatches value shape).Sublist value.places ↔ FieldsInOrder shape value := by
  induction shape, value using check_induction with
  | flat shape value hflat =>
      rw [mismatches_eq_blamed]
      refine iff_of_true ?_ ?_
      · exact hflat.blamed_sublist.trans (Json.singleton_nil_sublist_places value)
      · intro path fields members hgoverns hresolve
        exact absurd hresolve (hflat.no_object path fields members hgoverns)
  | array element items ih =>
      rw [Json.Canonical, Json.canonicalItems_iff] at hvalue
      rw [mismatches_array_sublist_iff, fieldsInOrder_array_iff]
      exact forall₂_congr fun item hitem =>
        ih item (hvalue item hitem) (distinct_array_iff.1 hshape)
  | object fields members ih =>
      obtain ⟨hnames, hfields⟩ := distinct_object_iff.1 hshape
      rw [Json.Canonical, Json.canonicalMembers_iff] at hvalue
      rw [mismatches_object_sublist_iff hnames hvalue.1, fieldsInOrder_object_iff]
      refine and_congr_right fun _ => forall₂_congr fun field hfield => ?_
      refine forall₂_congr fun inner hinner => ?_
      exact ih field hfield inner (hvalue.2 _ (Members.mem_of_get? hinner)) (hfields field hfield)

/-- **Mismatches come in the order of the values just if the fields do.**  Each stands at one of the
values inside, all of which are met, and once, when the value is read. -/
theorem mismatches_in_order_iff (hvalue : value.Canonical) (hshape : shape.Distinct) :
    (∀ path, path ∈ value.places ↔ (value.resolve? path).isSome) ∧ value.places.Nodup ∧
      (∀ path ∈ mismatches value shape, path ∈ value.places) ∧
      ((mismatches value shape).Sublist value.places ↔ FieldsInOrder shape value) := by
  refine ⟨fun path => Json.mem_places_iff hvalue, Json.nodup_places hvalue, ?_,
    mismatches_sublist_places_iff hvalue hshape⟩
  exact fun path hpath =>
    (Json.mem_places_iff hvalue).2 (resolve?_isSome_of_mem_mismatches hpath)

/-- Three records of two numbers, and behind them one with the given members. -/
def rowsBefore (members : Members Json) : Json :=
  .array (List.replicate 3 (.object [("a", Json.ofInt 1), ("b", Json.ofInt 1)]) ++
    [.object members])

/-- The shape of such rows, which is read off the first three. -/
def rowsShape : Shape := .array (.object [("a", .scalar .number), ("b", .scalar .number)])

theorem canonical_rowsBefore (h : (Json.object members).Canonical) :
    (rowsBefore members).Canonical := by
  rw [rowsBefore, Json.Canonical, Json.canonicalItems_iff, List.forall_mem_append,
    List.forall_mem_singleton]
  refine ⟨fun item hitem => ?_, h⟩
  rw [List.eq_of_mem_replicate hitem]
  exact ⟨by decide, trivial, trivial, trivial⟩

theorem distinct_rowsShape : rowsShape.Distinct := by
  rw [rowsShape, distinct_array_iff, distinct_object_iff, List.forall_mem_cons,
    List.forall_mem_singleton]
  exact ⟨by decide, nofun, nofun⟩

/-- Two wrong members in the order of the shape are reported in the order in which they are read. -/
theorem mismatches_in_order_iff_rows :
    mismatches (rowsBefore [("a", .string "y"), ("b", .string "x")]) rowsShape =
        [[.index 3, .key "a"], [.index 3, .key "b"]] ∧
      FieldsInOrder rowsShape (rowsBefore [("a", .string "y"), ("b", .string "x")]) := by
  have hvalue : (rowsBefore [("a", .string "y"), ("b", .string "x")]).Canonical :=
    canonical_rowsBefore ⟨by decide, trivial, trivial, trivial⟩
  exact ⟨by decide, (mismatches_in_order_iff hvalue distinct_rowsShape).2.2.2.1 (by decide)⟩

/-- **Two wrong members in another order are not**, although the shape is the one that is
inferred. -/
theorem not_mismatches_in_order_swapped :
    (rowsBefore [("b", .string "x"), ("a", .string "y")]).Canonical ∧ rowsShape.Distinct ∧
      infer (rowsBefore [("b", .string "x"), ("a", .string "y")]) = rowsShape ∧
      mismatches (rowsBefore [("b", .string "x"), ("a", .string "y")]) rowsShape =
        [[.index 3, .key "a"], [.index 3, .key "b"]] ∧
      ¬(mismatches (rowsBefore [("b", .string "x"), ("a", .string "y")]) rowsShape).Sublist
        (rowsBefore [("b", .string "x"), ("a", .string "y")]).places := by
  refine ⟨canonical_rowsBefore ⟨by decide, trivial, trivial, trivial⟩, distinct_rowsShape,
    by decide, by decide, by decide⟩

end JsonShelf.Shape
