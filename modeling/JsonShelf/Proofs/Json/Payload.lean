/-
**Reading records.**

What a reader of records finds in a document, and that it finds what was written.

Main definitions:

* `Json.fieldAt?` — a field of a written record, under its name or at its place.

Main results:

* `Json.fieldAt?_of_fields?` — what is read as a field stands in the document;
* `Json.fields?_keys` — **a record that is written with its fields is read with these**;
* `Json.listOf?_map` — a list is read back if each of its members is;
* `Json.natural?_ofInt` — so is a natural number that 64 bits hold.
-/

import JsonShelf.Json.Payload
import JsonShelf.Proofs.Json.Members
import Mathlib.Data.List.Forall2

set_option autoImplicit false

namespace JsonShelf.Json

variable {members : Members Json} {name : String} {names : List String} {value document : Json}
  {fields : List (Option Json)} {place : ℕ}

/-! ### Fields that are read -/

/-- A field of a written record: under its name in an object, or at its place in an array. -/
def fieldAt? (place : ℕ) (name : String) : Json → Option Json
  | object members => Members.get? name members
  | array items => items[place]?
  | null | bool _ | number _ | string _ => none

theorem get?_eq_head?_filter (name : String) (members : Members Json) :
    Members.get? name members = (members.filter (·.1 == name)).head?.map Prod.snd := by
  induction members with
  | nil => rfl
  | cons first rest ih =>
      rw [Members.get?_cons, List.filter_cons]
      by_cases hname : first.1 = name
      · simp [hname]
      · simp [hname, ih]

theorem get?_of_single? (h : single? members name = some (some value)) :
    Members.get? name members = some value := by
  rw [get?_eq_head?_filter]
  unfold single? at h
  split at h
  · cases h
  · next member hfilter =>
    rw [hfilter]
    exact Option.some.inj h
  · cases h

/-- The members of a list are read one by one. -/
theorem forall₂_of_mapM {α β : Type} {read : α → Option β} {xs : List α} {ys : List β}
    (h : xs.mapM read = some ys) : List.Forall₂ (fun x y => read x = some y) xs ys := by
  induction xs generalizing ys with
  | nil =>
      cases h
      exact .nil
  | cons x xs ih =>
      rw [List.mapM_cons, Option.bind_eq_bind, Option.bind_eq_some_iff] at h
      obtain ⟨y, hy, h⟩ := h
      rw [Option.bind_eq_bind, Option.bind_eq_some_iff] at h
      obtain ⟨ys, hys, h⟩ := h
      cases h
      exact .cons hy (ih hys)

/-- What is read as a field stands in the document. -/
theorem fieldAt?_of_fields? (h : fields? names document = some fields)
    (hname : names[place]? = some name) (hfield : fields[place]? = some (some value)) :
    document.fieldAt? place name = some value := by
  cases document with
  | object members =>
      have hread := (List.forall₂_iff_get.1 (forall₂_of_mapM h)).2
      obtain ⟨hplace, rfl⟩ := List.getElem?_eq_some_iff.1 hname
      obtain ⟨hplace', hvalue⟩ := List.getElem?_eq_some_iff.1 hfield
      refine get?_of_single? ?_
      rw [← hvalue]
      exact hread place hplace hplace'
  | array items =>
      rw [fields?] at h
      split at h
      · cases h
        -- fields after the last item are missing, so this one is an item
        rw [List.getElem?_append] at hfield
        split at hfield
        · rw [List.getElem?_map, Option.map_eq_some_iff] at hfield
          obtain ⟨item, hitem, heq⟩ := hfield
          rw [fieldAt?, hitem, Option.some.inj heq]
        · rw [List.getElem?_replicate] at hfield
          split at hfield
          · cases hfield
          · cases hfield
      · cases h
  | null | bool | number | string => cases h

/-! ### Fields that were written -/

theorem single?_of_nodup (h : (Members.keys members).Nodup) (name : String) :
    single? members name = some (Members.get? name members) := by
  have hlength : (members.filter (·.1 == name)).length ≤ 1 := by
    have hcount := List.nodup_iff_count_le_one.1 h name
    rw [Members.keys, List.count, List.countP_map, List.countP_eq_length_filter] at hcount
    exact hcount
  rw [get?_eq_head?_filter, single?]
  cases hfilter : members.filter (·.1 == name) with
  | nil => rfl
  | cons first rest =>
      rw [hfilter, List.length_cons] at hlength
      have hrest : rest = [] := List.eq_nil_of_length_eq_zero (by omega)
      rw [hrest]
      rfl

/-- The members of a list are read if each of them is. -/
theorem mapM_map {α β γ : Type} {write : α → β} {read : β → Option γ} {f : α → γ} {xs : List α}
    (h : ∀ x ∈ xs, read (write x) = some (f x)) : (xs.map write).mapM read = some (xs.map f) := by
  induction xs with
  | nil => rfl
  | cons x xs ih =>
      obtain ⟨hx, hxs⟩ := List.forall_mem_cons.1 h
      rw [List.map_cons, List.mapM_cons, hx, ih hxs]
      rfl

/-- In an object that holds each key once, each field is read that stands under its name. -/
theorem fields?_object (h : (Members.keys members).Nodup) (names : List String) :
    fields? names (.object members) = some (names.map (Members.get? · members)) := by
  have hread : (names.map id).mapM (single? members) = some (names.map (Members.get? · members)) :=
    mapM_map fun name _ => single?_of_nodup h name
  rwa [List.map_id] at hread

/-- **A record that is written with its fields is read with these.** -/
theorem fields?_keys (h : (Members.keys members).Nodup) :
    fields? (Members.keys members) (.object members) =
      some (members.map fun member => some member.2) := by
  rw [fields?_object h, Members.keys, List.map_map]
  refine congrArg some (List.map_congr_left fun member hmember => ?_)
  exact Members.get?_of_mem h hmember

/-- A list is read back if each of its members is. -/
theorem listOf?_map {α : Type} {write : α → Json} {read : Json → Option α} {xs : List α}
    (h : ∀ x ∈ xs, read (write x) = some x) : listOf? read (.array (xs.map write)) = some xs := by
  rw [listOf?, mapM_map (f := id) h, List.map_id]

/-- A natural number that 64 bits hold is read back. -/
theorem natural?_ofInt {n : ℕ} (h : n < 2 ^ 64) : natural? (ofInt n) = some n := by
  have hfits : -2 ^ 63 ≤ (n : Int) ∧ (n : Int) < 2 ^ 64 := by omega
  have hread : natural? (number (.whole n hfits.1 hfits.2)) = some n := by
    rw [natural?, if_pos (Int.natCast_nonneg n), Int.toNat_natCast]
  rw [ofInt, Number.ofInt?, dif_pos hfits]
  exact hread

end JsonShelf.Json
