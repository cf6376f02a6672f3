/-
**The order in which a value is read.**

A value that is read from the start is met before what is inside it; items come in their order, and
members in the order in which their object lists them.

Main definitions:

* `Json.places` — the paths of all values inside a value, in the order in which these are met;
* `Json.blocks` — paths that begin with different steps, step by step.

Main results:

* `Json.mem_places_iff`, `Json.nodup_places` — every value inside is met, and once;
* `Json.blocks_sublist_blocks_iff` — paths keep an order just if their first steps keep it, and what
  follows each step does.
-/

import JsonShelf.Json.Path
import JsonShelf.Proofs.Json.Nesting
import JsonShelf.Proofs.Json.Paths
import Mathlib.Data.List.Flatten
import Mathlib.Data.List.Nodup

set_option autoImplicit false

namespace JsonShelf.Json

variable {path : Path} {parts whole : List (Segment × List Path)} {segment : Segment}

/-! ### The order -/

mutual

/-- The paths of the value and of all values inside it, in the order in which they are met. -/
def places : Json → List Path
  | array items => [] :: placesOfItems 0 items
  | object members => [] :: placesOfMembers members
  | null | bool _ | number _ | string _ => [[]]

/-- The paths into items that are counted from a number. -/
def placesOfItems : Nat → List Json → List Path
  | _, [] => []
  | n, item :: rest => (places item).map (.index n :: ·) ++ placesOfItems (n + 1) rest

/-- The paths into the values of members. -/
def placesOfMembers : List (String × Json) → List Path
  | [] => []
  | (key, value) :: rest => (places value).map (.key key :: ·) ++ placesOfMembers rest

end

/-! ### Blocks -/

/-- Paths that begin with different steps, step by step. -/
def blocks (parts : List (Segment × List Path)) : List Path :=
  parts.flatMap fun part => part.2.map (part.1 :: ·)

theorem blocks_cons (part : Segment × List Path) (parts : List (Segment × List Path)) :
    blocks (part :: parts) = part.2.map (part.1 :: ·) ++ blocks parts := rfl

theorem mem_blocks : path ∈ blocks parts ↔
    ∃ part ∈ parts, ∃ rest ∈ part.2, part.1 :: rest = path := by
  simp only [blocks, List.mem_flatMap, List.mem_map]

theorem nil_notMem_blocks (parts : List (Segment × List Path)) : [] ∉ blocks parts := by
  intro h
  obtain ⟨part, -, rest, -, heq⟩ := mem_blocks.1 h
  cases heq

theorem nodup_blocks (hsteps : (parts.map Prod.fst).Nodup) (h : ∀ part ∈ parts, part.2.Nodup) :
    (blocks parts).Nodup := by
  rw [blocks, List.nodup_flatMap]
  refine ⟨fun part hpart => (h part hpart).map List.cons_injective, ?_⟩
  refine (List.pairwise_map.1 hsteps).imp ?_
  intro part other hne path hpart hother
  obtain ⟨_, -, rfl⟩ := List.mem_map.1 hpart
  obtain ⟨_, -, heq⟩ := List.mem_map.1 hother
  exact hne (List.cons.inj heq).1.symm

/-- The first steps, each as often as there are paths. -/
theorem filterMap_head?_blocks (parts : List (Segment × List Path)) :
    (blocks parts).filterMap List.head? =
      parts.flatMap fun part => List.replicate part.2.length part.1 := by
  induction parts with
  | nil => rfl
  | cons part rest ih =>
      rw [blocks_cons, List.filterMap_append, ih, List.flatMap_cons, List.filterMap_map]
      congr 1
      induction part.2 with
      | nil => rfl
      | cons path paths ihp => simp [List.replicate_succ, ihp]

theorem filter_map_cons (step : Segment) (paths : List Path) :
    (paths.map (step :: ·)).filter (·.head? = some segment) =
      if step = segment then paths.map (step :: ·) else [] := by
  split
  · next heq =>
    refine List.filter_eq_self.2 ?_
    simp [heq]
  · next hne =>
    refine List.filter_eq_nil_iff.2 ?_
    simp [hne]

theorem filter_blocks_of_notMem (h : segment ∉ parts.map Prod.fst) :
    (blocks parts).filter (·.head? = some segment) = [] := by
  refine List.filter_eq_nil_iff.2 ?_
  intro path hpath
  obtain ⟨part, hpart, rest, -, rfl⟩ := mem_blocks.1 hpath
  have hne : part.1 ≠ segment := fun heq => h (heq ▸ List.mem_map_of_mem hpart)
  simp [hne]

/-- The paths that begin with a step are those of its part. -/
theorem filter_blocks {paths : List Path} (hsteps : (parts.map Prod.fst).Nodup)
    (h : (segment, paths) ∈ parts) :
    (blocks parts).filter (·.head? = some segment) = paths.map (segment :: ·) := by
  induction parts with
  | nil => cases h
  | cons part rest ih =>
      rw [List.map_cons, List.nodup_cons] at hsteps
      rw [blocks_cons, List.filter_append, filter_map_cons]
      rcases List.mem_cons.1 h with rfl | h
      · rw [if_pos rfl, filter_blocks_of_notMem hsteps.1, List.append_nil]
      · have hne : part.1 ≠ segment := fun heq => hsteps.1 (heq ▸ List.mem_map_of_mem h)
        rw [if_neg hne, List.nil_append, ih hsteps.2 h]

/-! ### Keeping an order -/

/-- Paths below the same steps keep an order if what follows each step does. -/
theorem blocks_sublist_of_map_fst (hsteps : parts.map Prod.fst = whole.map Prod.fst)
    (h : ∀ segment paths others, (segment, paths) ∈ parts → (segment, others) ∈ whole →
      paths.Sublist others) : (blocks parts).Sublist (blocks whole) := by
  induction whole generalizing parts with
  | nil =>
      rw [List.map_nil, List.map_eq_nil_iff] at hsteps
      rw [hsteps]
  | cons other rest ih =>
      obtain ⟨part, front, rfl, hpart, hfront⟩ := List.map_eq_cons_iff.1 hsteps
      obtain ⟨step, paths⟩ := part
      obtain ⟨_, others⟩ := other
      obtain rfl : step = _ := hpart
      rw [blocks_cons, blocks_cons]
      refine ((h step paths others List.mem_cons_self List.mem_cons_self).map _).append ?_
      refine ih hfront ?_
      intro segment paths others hpaths hothers
      exact h segment paths others (List.mem_cons_of_mem _ hpaths) (List.mem_cons_of_mem _ hothers)

/-- Steps that are different from one another keep the order of the parts, if they keep that of the
paths. -/
theorem sublist_of_sublist_replicate {steps : List Segment} (hnodup : steps.Nodup)
    (h : steps.Sublist (parts.flatMap fun part => List.replicate part.2.length part.1)) :
    steps.Sublist (parts.map Prod.fst) := by
  induction parts generalizing steps with
  | nil => exact h
  | cons part rest ih =>
      rw [List.flatMap_cons, List.sublist_append_iff] at h
      obtain ⟨front, back, rfl, hfront, hback⟩ := h
      obtain ⟨hfrontNodup, hbackNodup, -⟩ := List.nodup_append.1 hnodup
      obtain ⟨count, -, rfl⟩ := List.sublist_replicate_iff.1 hfront
      have hone : (List.replicate count part.1).Sublist [part.1] :=
        List.sublist_replicate_iff.2 ⟨count, List.nodup_replicate.1 hfrontNodup, rfl⟩
      exact hone.append (ih hbackNodup hback)

theorem blocks_filter_ne_nil (parts : List (Segment × List Path)) :
    blocks (parts.filter (·.2 ≠ [])) = blocks parts := by
  induction parts with
  | nil => rfl
  | cons part rest ih =>
      rw [List.filter_cons, blocks_cons]
      split
      · rw [blocks_cons, ih]
      · next hnil =>
        have hempty : part.2 = [] := by simpa using hnil
        rw [ih, hempty]
        rfl

/-- The steps that lead somewhere are first steps. -/
theorem map_fst_filter_sublist (parts : List (Segment × List Path)) :
    ((parts.filter (·.2 ≠ [])).map Prod.fst).Sublist
      (parts.flatMap fun part => List.replicate part.2.length part.1) := by
  induction parts with
  | nil => exact List.Sublist.refl _
  | cons part rest ih =>
      rw [List.filter_cons, List.flatMap_cons]
      split
      · next hne =>
        have hlength : 1 ≤ part.2.length := List.length_pos_iff.2 (by simpa using hne)
        exact (List.sublist_replicate_iff.2 ⟨1, hlength, rfl⟩ :
          [part.1].Sublist (List.replicate part.2.length part.1)).append ih
      · exact ih.trans (List.sublist_append_right _ _)

/-- **Paths keep an order just if their first steps keep it, and what follows each step does.** -/
theorem blocks_sublist_blocks_iff (hparts : (parts.map Prod.fst).Nodup)
    (hwhole : (whole.map Prod.fst).Nodup) :
    (blocks parts).Sublist (blocks whole) ↔
      ((parts.filter (·.2 ≠ [])).map Prod.fst).Sublist (whole.map Prod.fst) ∧
        ∀ segment paths others, (segment, paths) ∈ parts → (segment, others) ∈ whole →
          paths.Sublist others := by
  constructor
  · intro h
    constructor
    · refine sublist_of_sublist_replicate (hparts.sublist (List.filter_sublist.map _)) ?_
      have hheads := h.filterMap List.head?
      rw [filterMap_head?_blocks, filterMap_head?_blocks] at hheads
      exact (map_fst_filter_sublist parts).trans hheads
    · intro segment paths others hpaths hothers
      have hsegment := h.filter fun path => path.head? = some segment
      rw [filter_blocks hparts hpaths, filter_blocks hwhole hothers] at hsegment
      have htails := hsegment.map List.tail
      simpa [List.map_map, Function.comp_def] using htails
  · rintro ⟨hsteps, hpaths⟩
    obtain ⟨chosen, hchosen, heq⟩ := List.sublist_map_iff.1 hsteps
    rw [← blocks_filter_ne_nil parts]
    refine (blocks_sublist_of_map_fst heq ?_).trans (hchosen.flatMap _)
    intro segment paths others hpart hother
    exact hpaths segment paths others (List.mem_of_mem_filter hpart) (hchosen.subset hother)

/-- The value itself, which is met first, is not below any step. -/
theorem blocks_sublist_cons_nil_iff {paths : List Path} :
    (blocks parts).Sublist ([] :: paths) ↔ (blocks parts).Sublist paths := by
  rw [List.sublist_cons_iff, or_iff_left]
  rintro ⟨rest, heq, -⟩
  exact nil_notMem_blocks parts (heq ▸ List.mem_cons_self)

/-! ### Every value is met once -/

/-- What some function makes of the items, each behind the step to it. -/
def itemParts (f : Json → List Path) (items : List Json) : List (Segment × List Path) :=
  items.zipIdx.map fun item => (.index item.2, f item.1)

theorem mem_itemParts {f : Json → List Path} {items : List Json}
    {part : Segment × List Path} :
    part ∈ itemParts f items ↔ ∃ n item, items[n]? = some item ∧ (.index n, f item) = part := by
  simp only [itemParts, List.mem_map, Prod.exists, List.mem_zipIdx_iff_getElem?]
  exact exists_comm

theorem map_fst_itemParts (f : Json → List Path) (items : List Json) :
    (itemParts f items).map Prod.fst = (List.range items.length).map .index := by
  rw [itemParts, List.map_map, List.range_eq_range', ← List.zipIdx_map_snd, List.map_map]
  rfl

theorem nodup_itemParts (f : Json → List Path) (items : List Json) :
    ((itemParts f items).map Prod.fst).Nodup := by
  rw [map_fst_itemParts]
  exact List.nodup_range.map fun _ _ => Segment.index.inj

/-- What some function makes of the entries, each behind the step to its name. -/
def keyParts {α : Type} (f : String × α → List Path) (entries : Members α) :
    List (Segment × List Path) :=
  entries.map fun entry => (.key entry.1, f entry)

theorem blocks_keyParts_cons {α : Type} (f : String × α → List Path) (entry : String × α)
    (rest : Members α) : blocks (keyParts f (entry :: rest)) =
      (f entry).map (.key entry.1 :: ·) ++ blocks (keyParts f rest) := rfl

theorem mem_keyParts {α : Type} {f : String × α → List Path} {entries : Members α}
    {part : Segment × List Path} :
    part ∈ keyParts f entries ↔ ∃ entry ∈ entries, (.key entry.1, f entry) = part :=
  List.mem_map

theorem map_fst_keyParts {α : Type} (f : String × α → List Path) (entries : Members α) :
    (keyParts f entries).map Prod.fst = (Members.keys entries).map .key := by
  rw [keyParts, Members.keys, List.map_map, List.map_map]
  rfl

theorem nodup_keyParts {α : Type} {entries : Members α} (f : String × α → List Path)
    (h : (Members.keys entries).Nodup) : ((keyParts f entries).map Prod.fst).Nodup := by
  rw [map_fst_keyParts]
  exact h.map fun _ _ => Segment.key.inj

theorem places_array (items : List Json) :
    places (.array items) = [] :: blocks (itemParts places items) := by
  have hfrom : ∀ n, placesOfItems n items =
      blocks ((items.zipIdx n).map fun item => (.index item.2, places item.1)) := by
    induction items with
    | nil => exact fun _ => rfl
    | cons item rest ih =>
        intro n
        rw [placesOfItems, ih, List.zipIdx_cons, List.map_cons, blocks_cons]
  rw [places, hfrom, itemParts]

theorem places_object (members : Members Json) :
    places (.object members) = [] :: blocks (keyParts (places ·.2) members) := by
  have hmembers : placesOfMembers members = blocks (keyParts (places ·.2) members) := by
    induction members with
    | nil => rfl
    | cons member rest ih => rw [placesOfMembers, ih, blocks_keyParts_cons]
  rw [places, hmembers]

/-- The value itself is met. -/
theorem singleton_nil_sublist_places (value : Json) : [[]].Sublist value.places := by
  cases value with
  | array items => exact (List.nil_sublist _).cons_cons _
  | object members => exact (List.nil_sublist _).cons_cons _
  | null | bool | number | string => exact List.Sublist.refl _

/-- A path into a container leads somewhere if its first step leads to a value, and what follows
leads somewhere in that. -/
theorem resolve?_cons_isSome_iff {value : Json} {rest : Path} :
    (value.resolve? (segment :: rest)).isSome ↔
      ∃ inner, value.step? segment = some inner ∧ (inner.resolve? rest).isSome := by
  rw [resolve?_cons, Option.isSome_bind]
  cases value.step? segment <;> simp

theorem mem_places_scalar {value : Json} (hplaces : value.places = [[]])
    (hstep : ∀ segment, value.step? segment = none) :
    path ∈ value.places ↔ (value.resolve? path).isSome := by
  rw [hplaces, List.mem_singleton]
  cases path with
  | nil => exact iff_of_true rfl rfl
  | cons segment rest =>
      refine iff_of_false (List.cons_ne_nil _ _) ?_
      rw [resolve?_cons, hstep]
      exact Bool.false_ne_true

/-- **Every value inside a value is met.** -/
theorem mem_places_iff {value : Json} (h : value.Canonical) :
    path ∈ value.places ↔ (value.resolve? path).isSome := by
  induction value using Json.induction generalizing path with
  | null | bool | number | string =>
      refine mem_places_scalar rfl fun segment => ?_
      cases segment <;> rfl
  | array items ih =>
      rw [Canonical, canonicalItems_iff] at h
      rw [places_array]
      cases path with
      | nil => exact iff_of_true List.mem_cons_self rfl
      | cons segment rest =>
          simp only [List.mem_cons, reduceCtorEq, false_or, mem_blocks, mem_itemParts,
            resolve?_cons_isSome_iff]
          constructor
          · rintro ⟨_, ⟨n, item, hitem, rfl⟩, rest, hrest, heq⟩
            obtain ⟨rfl, rfl⟩ := List.cons.inj heq
            have hmem := List.mem_of_getElem? hitem
            exact ⟨item, hitem, (ih item hmem (h item hmem)).1 hrest⟩
          · rintro ⟨item, hstep, hrest⟩
            cases segment with
            | index n =>
                have hmem := List.mem_of_getElem? hstep
                exact ⟨_, ⟨n, item, hstep, rfl⟩, rest, (ih item hmem (h item hmem)).2 hrest, rfl⟩
            | key name => cases hstep
  | object members ih =>
      rw [Canonical, canonicalMembers_iff] at h
      rw [places_object]
      cases path with
      | nil => exact iff_of_true List.mem_cons_self rfl
      | cons segment rest =>
          simp only [List.mem_cons, reduceCtorEq, false_or, mem_blocks, mem_keyParts,
            resolve?_cons_isSome_iff]
          constructor
          · rintro ⟨_, ⟨member, hmem, rfl⟩, rest, hrest, heq⟩
            obtain ⟨rfl, rfl⟩ := List.cons.inj heq
            exact ⟨member.2, Members.get?_of_mem h.1 hmem,
              (ih member hmem (h.2 member hmem)).1 hrest⟩
          · rintro ⟨inner, hstep, hrest⟩
            cases segment with
            | index n => cases hstep
            | key name =>
                have hmem := Members.mem_of_get? hstep
                exact ⟨_, ⟨_, hmem, rfl⟩, rest, (ih _ hmem (h.2 _ hmem)).2 hrest, rfl⟩

/-- **No value inside a value is met twice.** -/
theorem nodup_places {value : Json} (h : value.Canonical) : value.places.Nodup := by
  induction value using Json.induction with
  | null | bool | number | string => exact List.nodup_singleton _
  | array items ih =>
      rw [Canonical, canonicalItems_iff] at h
      rw [places_array, List.nodup_cons]
      refine ⟨nil_notMem_blocks _, nodup_blocks (nodup_itemParts _ _) ?_⟩
      intro part hpart
      obtain ⟨n, item, hitem, rfl⟩ := mem_itemParts.1 hpart
      have hmem := List.mem_of_getElem? hitem
      exact ih item hmem (h item hmem)
  | object members ih =>
      rw [Canonical, canonicalMembers_iff] at h
      rw [places_object, List.nodup_cons]
      refine ⟨nil_notMem_blocks _, nodup_blocks (nodup_keyParts _ h.1) ?_⟩
      intro part hpart
      obtain ⟨member, hmem, rfl⟩ := mem_keyParts.1 hpart
      exact ih member hmem (h.2 member hmem)

end JsonShelf.Json
