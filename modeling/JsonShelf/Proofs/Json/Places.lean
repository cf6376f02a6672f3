/-
**A value, place by place.**

A path leads to a place in a value.  What stands there may be replaced, and the value is nothing
but what stands at its places.

Main definitions:

* `Json.replace` — the value with another one in the place that a path leads to;
* `Json.outline` — what a value shows without the contents of its items and members.

Main results:

* `Json.resolve?_replace` — what was put somewhere is found there;
* `Json.eq_of_outlines` — **values that show the same at all places are the same**.
-/

import JsonShelf.Proofs.Json.Nesting
import JsonShelf.Proofs.Json.Paths

set_option autoImplicit false

namespace JsonShelf.Json

variable {value new inner : Json} {segment : Segment} {path : Path}

/-! ### The last step of a path -/

theorem resolve?_concat (value : Json) (path : Path) (segment : Segment) :
    value.resolve? (path ++ [segment]) = (value.resolve? path).bind (step? · segment) := by
  rw [resolve?_append]
  exact congrArg _ (funext fun inner => Option.bind_fun_some _)

theorem step?_key_eq_some {key : String} :
    value.step? (.key key) = some inner ↔
      ∃ members, value = .object members ∧ Members.get? key members = some inner :=
  ⟨exists_members_of_get?, fun ⟨_, hvalue, h⟩ => hvalue ▸ h⟩

/-! ### Replacing -/

/-- The value with another one under an index or a key. -/
def put (new : Json) : Segment → Json → Json
  | .index n, .array items => .array (items.set n new)
  | .key key, .object members => .object (Members.put key new members)
  | _, value => value

/-- The value with another one in the place that a path leads to, if it leads anywhere. -/
def replace (new : Json) : Path → Json → Json
  | [], _ => new
  | segment :: rest, value =>
    match value.step? segment with
    | none => value
    | some inner => put (replace new rest inner) segment value

theorem replace_cons (h : value.step? segment = some inner) :
    replace new (segment :: path) value = put (replace new path inner) segment value := by
  rw [replace, h]

theorem step?_put (h : value.step? segment = some inner) :
    (put new segment value).step? segment = some new := by
  cases segment with
  | index n =>
      obtain ⟨items, rfl, hget⟩ := step?_index_eq_some.1 h
      exact List.getElem?_set_self (List.getElem?_eq_some_iff.1 hget).1
  | key key =>
      obtain ⟨members, rfl, -⟩ := step?_key_eq_some.1 h
      exact Members.get?_put_self key new members

/-- Putting what is there changes nothing. -/
theorem put_of_step? (h : value.step? segment = some inner) : put inner segment value = value := by
  cases segment with
  | index n =>
      obtain ⟨items, rfl, hget⟩ := step?_index_eq_some.1 h
      obtain ⟨hn, rfl⟩ := List.getElem?_eq_some_iff.1 hget
      exact congrArg array (List.set_getElem_self hn)
  | key key =>
      obtain ⟨members, rfl, hget⟩ := step?_key_eq_some.1 h
      exact congrArg object (Members.put_of_get? hget)

/-- What was put somewhere is found there. -/
theorem resolve?_replace (h : value.resolve? path = some inner) :
    (replace new path value).resolve? path = some new := by
  induction path generalizing value with
  | nil => rfl
  | cons segment path ih =>
      rw [resolve?_cons, Option.bind_eq_some_iff] at h
      obtain ⟨next, hstep, hpath⟩ := h
      rw [replace_cons hstep, resolve?_cons, step?_put hstep]
      exact ih hpath

/-! ### What a place shows -/

/-- What a value shows without the contents of its items and members: a scalar, the number of its
items, or its keys in order. -/
def outline : Json → Json
  | .array items => .array (items.map fun _ => .null)
  | .object members => .object (members.map fun member => (member.1, .null))
  | .null => .null
  | .bool value => .bool value
  | .number value => .number value
  | .string value => .string value

theorem outline_eq_array {items : List Json} (h : outline (.array items) = outline value) :
    ∃ items', value = .array items' ∧ items.length = items'.length := by
  cases value with
  | array items' => exact ⟨items', rfl, by simpa using congrArg List.length (array.inj h)⟩
  | null | bool | number | string | object => cases h

theorem outline_eq_object {members : Members Json} (h : outline (.object members) = outline value) :
    ∃ members', value = .object members' ∧ Members.keys members = Members.keys members' := by
  cases value with
  | object members' =>
      have hkeys := congrArg Members.keys (object.inj h)
      rw [Members.keys_map, Members.keys_map] at hkeys
      exact ⟨members', rfl, hkeys⟩
  | null | bool | number | string | array => cases h

/-- What is one step inside shows the same at all places, if the whole does. -/
theorem outlines_of_step? {value' inner' : Json} (segment : Segment)
    (h : ∀ path, (value.resolve? path).map outline = (value'.resolve? path).map outline)
    (hstep : value.step? segment = some inner) (hstep' : value'.step? segment = some inner')
    (path : Path) : (inner.resolve? path).map outline = (inner'.resolve? path).map outline := by
  have hpath := h (segment :: path)
  rwa [resolve?_cons, resolve?_cons, hstep, hstep'] at hpath

/-- **Values that show the same at all places are the same.** -/
theorem eq_of_outlines {value' : Json} (hvalue : value.Canonical) (hvalue' : value'.Canonical)
    (h : ∀ path, (value.resolve? path).map outline = (value'.resolve? path).map outline) :
    value = value' := by
  -- the empty path shows the kind; each step inside leads to smaller values that show the same
  have hnil : outline value = outline value' := Option.some.inj (h [])
  induction value using Json.induction generalizing value' with
  | null | bool | number | string =>
      cases value' with
      | null | bool | number | string => exact hnil
      | array | object => cases hnil
  | array items ih =>
      obtain ⟨items', rfl, hlength⟩ := outline_eq_array hnil
      rw [Canonical, canonicalItems_iff] at hvalue hvalue'
      refine congrArg array (List.ext_getElem hlength fun n hn hn' => ?_)
      have hmem := List.getElem_mem hn
      have hinner := outlines_of_step? (.index n) h (List.getElem?_eq_getElem hn)
        (List.getElem?_eq_getElem hn')
      exact ih _ hmem (hvalue _ hmem) (hvalue' _ (List.getElem_mem hn')) hinner
        (Option.some.inj (hinner []))
  | object members ih =>
      obtain ⟨members', rfl, hkeys⟩ := outline_eq_object hnil
      rw [Canonical, canonicalMembers_iff] at hvalue hvalue'
      refine congrArg object
        (Members.eq_of_get? hvalue.1 hkeys fun key inner inner' hget hget' => ?_)
      have hinner := outlines_of_step? (.key key) h hget hget'
      exact ih _ (Members.mem_of_get? hget) (hvalue.2 _ (Members.mem_of_get? hget))
        (hvalue'.2 _ (Members.mem_of_get? hget')) hinner (Option.some.inj (hinner []))

end JsonShelf.Json
