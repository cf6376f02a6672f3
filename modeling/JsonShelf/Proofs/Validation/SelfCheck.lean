/-
**Checking a value against its own shape.**

The shape of an array is inferred from its first items only, so a value need not be of the shape
that was inferred from it.  What is found then is never about the samples themselves: it lies in an
item after them, or it is the complaint that no member of a union takes an item, and in that item
there is an array of more items than are looked at.

Main definitions:

* `Shape.Overlooked` — a path leads through an item after the samples;
* `Shape.Excused` — a finding is due to items that were not looked at.

Main results:

* `Shape.excused_of_mem_check` — everything that is found is excused;
* `Shape.validateValue_infer` — **an issue of a value with its own shape lies beyond the samples or
  is about a union and a value with an array of more than three items; without such an array there
  is no issue**.
-/

import JsonShelf.Proofs.Json.Nesting
import JsonShelf.Proofs.Json.Paths
import JsonShelf.Proofs.Validation.Findings

set_option autoImplicit false

namespace JsonShelf.Shape

open Json (Segment Oversized)

variable {value item : Json} {segment : Segment} {f : Finding}

/-! ### Excuses -/

/-- The path leads through an item after the samples. -/
def Overlooked (value : Json) (path : Json.Path) : Prop :=
  ∃ front n back, path = front ++ .index n :: back ∧ sampleSize ≤ n ∧
    ∃ item, value.resolve? (front ++ [.index n]) = some item

/-- The finding is due to items that were not looked at: it lies in one of them, or no member of a
union takes a value in which there are such items. -/
def Excused (value : Json) (f : Finding) : Prop :=
  Overlooked value f.path ∨
    f.complaint = .noMember ∧ ∃ inner, value.resolve? f.path = some inner ∧ inner.Oversized

/-- There are such items. -/
theorem Overlooked.oversized {path : Json.Path} (h : Overlooked value path) : value.Oversized := by
  obtain ⟨front, n, back, -, hn, item, hitem⟩ := h
  rw [Json.resolve?_append, Option.bind_eq_some_iff] at hitem
  obtain ⟨inner, hinner, hstep⟩ := hitem
  rw [Json.resolve?_cons, Option.bind_eq_some_iff] at hstep
  obtain ⟨_, hstep, -⟩ := hstep
  obtain ⟨items, rfl, hget⟩ := Json.step?_index_eq_some.1 hstep
  obtain ⟨hlt, -⟩ := List.getElem?_eq_some_iff.1 hget
  exact ⟨front, items, hinner, Nat.lt_of_le_of_lt hn hlt⟩

theorem Excused.oversized (h : Excused value f) : value.Oversized := by
  rcases h with h | ⟨-, inner, hinner, h⟩
  · exact h.oversized
  · exact h.of_resolve? hinner

/-- An excuse holds from one step further out. -/
theorem Excused.under (hstep : value.step? segment = some item) (h : Excused item f) :
    Excused value (f.under segment) := by
  rcases h with ⟨front, n, back, hpath, hn, inner, hinner⟩ | ⟨hcomplaint, inner, hinner, h⟩
  · refine .inl ⟨segment :: front, n, back, ?_, hn, inner, ?_⟩
    · exact congrArg (segment :: ·) hpath
    · rw [List.cons_append, Json.resolve?_cons, hstep, Option.bind_some, hinner]
  · refine .inr ⟨hcomplaint, inner, ?_, h⟩
    exact (Json.resolve?_cons _ _ _).trans (by rw [hstep, Option.bind_some, hinner])

/-! ### The findings of a value with its own shape -/

theorem excused_of_mem_check_array {items : List Json}
    (ih : ∀ item ∈ items, ∀ f ∈ check (infer item) item, Excused item f)
    (hf : f ∈ check (infer (.array items)) (.array items)) : Excused (.array items) f := by
  obtain ⟨n, item, hitem, g, hg, rfl⟩ := mem_check_array.1 hf
  have hstep : (Json.array items).step? (.index n) = some item := hitem
  rcases Nat.lt_or_ge n sampleSize with hn | hn
  · refine Excused.under hstep ?_
    have hown := ih item (List.mem_of_getElem? hitem)
    rcases mem_check_unionOf (infer_mem_distinctAlternatives hitem hn) hg with hg | ⟨rfl, hnot⟩
    · exact hown g hg
    · -- the shape of the item is one of the union, so something in the item was not looked at
      obtain ⟨inner, hinner⟩ := List.exists_mem_of_ne_nil _ hnot
      exact .inr ⟨rfl, item, rfl, (hown inner hinner).oversized⟩
  · exact .inl ⟨[], n, g.path, rfl, hn, item,
      by rw [List.nil_append, Json.resolve?_cons, hstep]; rfl⟩

theorem excused_of_mem_check_object {members : Members Json} (hkeys : (Members.keys members).Nodup)
    (ih : ∀ member ∈ members, ∀ f ∈ check (infer member.2) member.2, Excused member.2 f)
    (hf : f ∈ check (infer (.object members)) (.object members)) :
    Excused (.object members) f := by
  obtain ⟨field, hfield, h⟩ := mem_checkFields.1 hf
  rw [inferMembers_eq_map] at hfield
  obtain ⟨member, hmember, rfl⟩ := List.mem_map.1 hfield
  have hget := Members.get?_of_mem hkeys hmember
  rcases h with ⟨value, hvalue, g, hg, rfl⟩ | ⟨hnone, -⟩
  · obtain rfl := Option.some.inj (hget.symm.trans hvalue)
    exact Excused.under hget (ih member hmember g hg)
  · rw [hnone] at hget
    cases hget

/-- Everything that is found in a value of its own shape is excused. -/
theorem excused_of_mem_check (h : value.Canonical) : ∀ f ∈ check (infer value) value,
    Excused value f := by
  induction value using Json.induction with
  | null | bool | number | string => exact nofun
  | array items ih =>
      rw [Json.Canonical, Json.canonicalItems_iff] at h
      exact fun f => excused_of_mem_check_array fun item hitem => ih item hitem (h item hitem)
  | object members ih =>
      rw [Json.Canonical, Json.canonicalMembers_iff] at h
      exact fun f => excused_of_mem_check_object h.1 fun member hmember =>
        ih member hmember (h.2 member hmember)

/-- **An issue of a value with its own shape lies beyond the first three items of an array, or says
that no member of a union takes a value that has an array of more than three items.  A value without
such an array has no issue.** -/
theorem validateValue_infer (value : Json) (h : value.Canonical) :
    (∀ issue ∈ validateValue value (infer value),
      (∃ n, sampleSize ≤ n ∧ .index n ∈ issue.path) ∨
        issue.message = "Invalid input" ∧
          ∃ inner, value.resolve? issue.path = some inner ∧ inner.Oversized) ∧
      (¬value.Oversized → validateValue value (infer value) = []) := by
  constructor
  · intro issue hissue
    obtain ⟨f, hf, rfl⟩ := List.mem_map.1 hissue
    rcases excused_of_mem_check h f hf with ⟨front, n, back, hpath, hn, -⟩ | ⟨hcomplaint, hinner⟩
    · refine .inl ⟨n, hn, ?_⟩
      show Segment.index n ∈ f.path
      rw [hpath]
      exact List.mem_append_right front List.mem_cons_self
    · refine .inr ⟨?_, hinner⟩
      show f.complaint.message = "Invalid input"
      rw [hcomplaint]
      rfl
  · intro hsmall
    rw [validateValue, List.map_eq_nil_iff, List.eq_nil_iff_forall_not_mem]
    exact fun f hf => hsmall (excused_of_mem_check h f hf).oversized

/-- An array of four nulls and booleans, next to a null. -/
def hiddenBoolean : Json := .array [.array [.null, .null, .null, .bool true], .null]

theorem not_oversized_singleton_null : ¬(Json.array [.null]).Oversized := by
  rintro ⟨path, items, h, hlength⟩
  cases path with
  | nil =>
      cases h
      exact absurd hlength (by decide)
  | cons segment rest =>
      rw [Json.resolve?_cons, Option.bind_eq_some_iff] at h
      obtain ⟨inner, hstep, h⟩ := h
      obtain rfl : inner = .null := by
        rcases segment with n | key
        · exact List.mem_singleton.1 (List.mem_of_getElem? hstep)
        · cases hstep
      cases rest with
      | nil => cases h
      | cons next rest => cases next <;> cases h

/-- The first item is a sample, and is refused all the same: its own last item was not looked at.
An array of one null has no issue. -/
theorem validateValue_infer_hiddenBoolean :
    validateValue hiddenBoolean (infer hiddenBoolean) = [⟨[.index 0], "Invalid input"⟩] ∧
      (∃ inner, hiddenBoolean.resolve? [.index 0] = some inner ∧ inner.Oversized) ∧
      validateValue (.array [.null]) (infer (.array [.null])) = [] := by
  have hissues : validateValue hiddenBoolean (infer hiddenBoolean) =
      [⟨[.index 0], "Invalid input"⟩] := by decide
  have hcanonical : hiddenBoolean.Canonical := by
    simp only [hiddenBoolean, Json.Canonical, Json.CanonicalItems, and_self]
  have hsmall := (validateValue_infer (.array [.null]) ⟨trivial, trivial⟩).2
    not_oversized_singleton_null
  refine ⟨hissues, ?_, hsmall⟩
  rcases (validateValue_infer hiddenBoolean hcanonical).1 _
    (hissues ▸ List.mem_singleton_self _) with ⟨n, hn, hmem⟩ | ⟨-, hinner⟩
  · obtain rfl := Segment.index.inj (List.mem_singleton.1 hmem)
    exact absurd hn (by decide)
  · exact hinner

end JsonShelf.Shape
