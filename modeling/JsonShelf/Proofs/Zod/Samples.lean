/-
**The samples reach what they shaped.**

The samples of an expression are handed down with the shape, so that each number in it is marked by
the numbers that it stands for.  Along each path to a number there is a number among the samples,
and the mark is right for all of them; in particular the expression accepts the samples themselves.

Main definitions:

* `Zod.at?` — the expression at the end of a path.

Main results:

* `Zod.exists_part?_of_ofShape` — a step into an expression, and the samples after it;
* `Zod.at?_ofShape` — **a number is reached by numbers, and is marked if all of them are whole**;
* `Zod.accepts_ofShape_infer` — the expression of an inferred shape accepts its samples, pruned;
* `Zod.accepts_prune_of_infer` — **the generated validator accepts what it was generated from**.
-/

import JsonShelf.Proofs.Shape.Steps
import JsonShelf.Proofs.Zod.Acceptance

set_option autoImplicit false

namespace JsonShelf.Zod

open Shape (Step Fed infer inside reaching)

variable {step : Step} {path : List Step} {shape : Shape} {samples : List Json} {value : Zod}

/-! ### Steps into an expression -/

/-- The part of an expression one step inside. -/
def part? : Step → Zod → Option Zod
  | .element, array element => some element
  | .field name, object fields => Members.get? name fields
  | .member n, union members => members[n]?
  | _, _ => none

/-- The expression at the end of a path. -/
def at? : List Step → Zod → Option Zod
  | [], value => some value
  | step :: path, value => (part? step value).bind (at? path)

/-- The samples, each cut to what is looked at. -/
def pruned (samples : List Json) : List Json :=
  samples.map (Json.prune sampleSize)

theorem pruned_elementSamples (samples : List Json) (element : Shape) :
    pruned (elementSamples samples) = (pruned samples).flatMap (inside .element element) := by
  rw [pruned, pruned, elementSamples, List.map_flatMap, List.flatMap_map]
  refine List.flatMap_congr fun sample _ => ?_
  exact (Json.items_prune sampleSize sample).symm

theorem pruned_filterMap_get? (samples : List Json) (name : String) (part : Shape) :
    pruned (samples.filterMap (Json.get? name)) =
      (pruned samples).flatMap (inside (.field name) part) := by
  rw [pruned, pruned, List.filterMap_eq_flatMap_toList, List.map_flatMap, List.flatMap_map]
  refine List.flatMap_congr fun sample _ => ?_
  rw [inside, Json.get?_prune]
  cases sample.get? name <;> rfl

theorem pruned_filter_infer (samples : List Json) (n : ℕ) (part : Shape) :
    pruned (samples.filter fun sample => infer sample = part) =
      (pruned samples).flatMap (inside (.member n) part) := by
  induction samples with
  | nil => rfl
  | cons sample rest ih =>
      rw [pruned, pruned] at ih
      rw [pruned, pruned, List.map_cons, List.flatMap_cons, ← ih, inside, Shape.infer_prune,
        List.filter_cons]
      split
      · next h => rw [if_pos (of_decide_eq_true h), List.map_cons, List.singleton_append]
      · next h => rw [if_neg fun e => h (decide_eq_true e), List.nil_append]

/-- A step into the expression of a shape leads to the expression of the part, with the values that
the samples lead to as its samples. -/
theorem exists_part?_of_ofShape (h : part? step (ofShape shape samples) = some value) :
    ∃ part inner, shape.part? step = some part ∧ value = ofShape part inner ∧
      pruned inner = (pruned samples).flatMap (inside step part) := by
  cases shape with
  | null | undefined | unknown => cases step <;> cases h
  | scalar kind => cases kind <;> cases step <;> cases h
  | array element =>
      cases step with
      | element =>
          exact ⟨element, elementSamples samples, rfl, (Option.some.inj h).symm,
            pruned_elementSamples samples element⟩
      | field | member => cases h
  | object fields =>
      cases step with
      | field name =>
          rw [ofShape, part?, ofFields_eq_map, Members.get?_map name (fun name shape =>
            ofShape shape (samples.filterMap (Json.get? name))), Option.map_eq_some_iff] at h
          obtain ⟨part, hpart, rfl⟩ := h
          exact ⟨part, _, hpart, rfl, pruned_filterMap_get? samples name part⟩
      | element | member => cases h
  | union members =>
      cases step with
      | member n =>
          rw [ofShape, part?, ofMembers_eq_map, List.getElem?_map, Option.map_eq_some_iff] at h
          obtain ⟨part, hpart, rfl⟩ := h
          exact ⟨part, _, hpart, rfl, pruned_filter_infer samples n part⟩
      | element | field => cases h

/-! ### Marks -/

theorem number?_prune (sample : Json) : number? (sample.prune sampleSize) = number? sample := by
  cases sample <;> rfl

theorem allWhole_pruned (samples : List Json) : allWhole (pruned samples) = allWhole samples := by
  have hnumbers : (pruned samples).filterMap number? = samples.filterMap number? := by
    rw [pruned, List.filterMap_map]
    exact List.filterMap_congr fun sample _ => number?_prune sample
  rw [allWhole, hnumbers]
  rfl

theorem mem_filterMap_number? {n : Number} :
    n ∈ samples.filterMap number? ↔ Json.number n ∈ samples := by
  rw [List.mem_filterMap]
  constructor
  · rintro ⟨sample, hsample, hn⟩
    cases sample with
    | number m =>
        obtain rfl := Option.some.inj hn
        exact hsample
    | null | bool | string | array | object => cases hn
  · intro h
    exact ⟨.number n, h, rfl⟩

theorem allWhole_iff (h : ∃ n, Json.number n ∈ samples) :
    allWhole samples = true ↔ ∀ n, Json.number n ∈ samples → n.isWhole = true := by
  obtain ⟨n, hn⟩ := h
  have hsome : (samples.filterMap number?).isEmpty = false := by
    rw [List.isEmpty_eq_false_iff_exists_mem]
    exact ⟨n, mem_filterMap_number?.2 hn⟩
  rw [allWhole, hsome, Bool.not_false, Bool.true_and, List.all_eq_true]
  simp only [mem_filterMap_number?]

theorem ofShape_eq_number {isWhole : Bool} (h : ofShape shape samples = number isWhole) :
    shape = .scalar .number ∧ isWhole = allWhole samples := by
  cases shape with
  | scalar kind =>
      cases kind with
      | number => exact ⟨rfl, (number.inj h).symm⟩
      | string | boolean => cases h
  | null | undefined | unknown | array | object | union => cases h

/-- **A number in an expression is reached by numbers among the samples**, and it is marked if all
of them are whole. -/
theorem at?_ofShape {isWhole : Bool} (hfed : Fed (pruned samples) shape)
    (h : at? path (ofShape shape samples) = some (number isWhole)) :
    (∃ n, Json.number n ∈ (pruned samples).flatMap (reaching path shape)) ∧
      isWhole = allWhole ((pruned samples).flatMap (reaching path shape)) := by
  -- on the path, for all shapes that are fed: a step hands the samples down and keeps that
  induction path generalizing shape samples with
  | nil =>
      obtain ⟨rfl, hmark⟩ := ofShape_eq_number (Option.some.inj h)
      obtain ⟨sample, hsample, hinfer⟩ := hfed _ (List.mem_singleton_self _) (by simp)
      have hreaching : (pruned samples).flatMap (reaching [] (.scalar .number)) = pruned samples :=
        List.flatMap_singleton' _
      rw [hreaching, allWhole_pruned]
      refine ⟨?_, hmark⟩
      cases sample with
      | number n => exact ⟨n, hsample⟩
      | null | bool | string | array | object => cases hinfer
  | cons step path ih =>
      obtain ⟨value, hvalue, h⟩ := Option.bind_eq_some_iff.1 h
      obtain ⟨part, inner, hpart, rfl, hinner⟩ := exists_part?_of_ofShape hvalue
      have hreaching : (pruned samples).flatMap (reaching (step :: path) shape) =
          (pruned inner).flatMap (reaching path part) := by
        rw [hinner, List.flatMap_assoc]
        exact List.flatMap_congr fun sample _ => Shape.reaching_cons hpart sample
      rw [hreaching]
      refine ih ?_ h
      rw [hinner]
      exact hfed.of_part? hpart

/-! ### Acceptance -/

/-- What the expression of a sample accepts is accepted by the expression of the elements. -/
theorem accepts_ofShape_unionOf {item : Json} {kinds : List Shape} {w : Option Json}
    (hkind : infer item ∈ kinds) (hitem : item ∈ samples)
    (h : ∀ samples, item ∈ samples → accepts (ofShape (infer item) samples) w = true) :
    accepts (ofShape (Shape.unionOf kinds) samples) w = true := by
  have hdistinct : infer item ∈ Shape.distinctAlternatives kinds := by
    refine Shape.mem_distinctAlternatives.2 ⟨infer item, hkind, ?_⟩
    rw [Shape.alternatives_infer]
    exact List.mem_singleton_self _
  rcases Shape.unionOf_eq_or kinds with ⟨hnone, -⟩ | ⟨only, honly, hunion⟩ | hunion
  · rw [hnone] at hdistinct
    cases hdistinct
  · rw [honly, List.mem_singleton] at hdistinct
    rw [hunion, ← hdistinct]
    exact h samples hitem
  · -- the member of the item's own shape gets the item among its samples
    rw [hunion, ofShape, accepts, acceptsAny_iff, ofMembers_eq_map]
    refine ⟨_, List.mem_map.2 ⟨infer item, hdistinct, rfl⟩, h _ ?_⟩
    exact List.mem_filter.2 ⟨hitem, decide_eq_true rfl⟩

/-- The expression of an inferred shape accepts each of its samples, pruned. -/
theorem accepts_ofShape_infer {v : Json} (h : v.Canonical) (hv : v ∈ samples) :
    accepts (ofShape (infer v) samples) (some (v.prune sampleSize)) = true := by
  induction v using Json.induction generalizing samples with
  | null | bool | string => rfl
  | number n =>
      cases hmark : allWhole samples with
      | false => simp [infer, ofShape, ofScalar, hmark, Json.prune, accepts]
      | true =>
          have hwhole := (allWhole_iff ⟨n, hv⟩).1 hmark n hv
          simp [infer, ofShape, ofScalar, hmark, Json.prune, accepts,
            Number.isIntegral_of_isWhole hwhole]
  | array items ih =>
      rw [Json.Canonical, Json.canonicalItems_iff] at h
      rw [Json.prune_array, infer, ofShape, Shape.inferFirst_eq_map, accepts_array_iff]
      refine ⟨_, rfl, List.forall_mem_map.2 ?_⟩
      intro item hitem
      have hmem := List.mem_of_mem_take hitem
      refine accepts_ofShape_unionOf (List.mem_map_of_mem hitem) ?_
        fun samples hsamples => ih item hmem (h item hmem) hsamples
      exact List.mem_flatMap.2 ⟨.array items, hv, hitem⟩
  | object members ih =>
      rw [Json.Canonical, Json.canonicalMembers_iff] at h
      obtain ⟨hkeys, hmembers⟩ := h
      have hnames : (Members.keys (ofFields (Shape.inferMembers members) samples)).Nodup := by
        rw [keys_ofFields, Shape.inferMembers_eq_map, Members.keys, List.map_map]
        exact hkeys
      rw [Json.prune_object, infer, ofShape, accepts_object_iff hnames]
      refine ⟨_, rfl, ?_⟩
      rw [ofFields_eq_map, Shape.inferMembers_eq_map, List.map_map]
      refine List.forall_mem_map.2 ?_
      intro member hmember
      have hget := Members.get?_of_mem hkeys hmember
      have hsample : member.2 ∈ samples.filterMap (Json.get? member.1) :=
        List.mem_filterMap.2 ⟨.object members, hv, hget⟩
      have hpruned : Members.get? member.1
          (members.map fun member => (member.1, member.2.prune sampleSize)) =
            some (member.2.prune sampleSize) := by
        rw [Members.get?_map member.1 (fun _ => Json.prune sampleSize), hget, Option.map_some]
      show accepts _ (Members.get? member.1 _) = true
      rw [hpruned]
      exact ih member hmember (hmembers member hmember) hsample

/-- **The generated validator accepts the value that it was generated from**, with each array cut to
the items that are looked at.  A number in the expression is marked as whole just if all the numbers
that reach it are written as whole ones, and there is at least one. -/
theorem accepts_prune_of_infer (level : ℕ) (v : Json) (h : v.Canonical) :
    ∃ value, ofText? (chars level (ofShape (infer v) [v])) = some value ∧
      value.accepts (some (v.prune sampleSize)) = true ∧
      ∀ path isWhole, value.at? path = some (number isWhole) →
        (∃ n, Json.number n ∈ reaching path (infer v) (v.prune sampleSize)) ∧
        (isWhole = true ↔ ∀ n, Json.number n ∈ reaching path (infer v) (v.prune sampleSize) →
          n.isWhole = true) := by
  refine ⟨ofShape (infer v) [v], ofText?_chars level _, ?_, ?_⟩
  · exact accepts_ofShape_infer h (List.mem_singleton_self v)
  · intro path isWhole hnumber
    have hfed : Fed (pruned [v]) (infer v) := by
      rw [← Shape.infer_prune]
      exact Shape.fed_infer (List.mem_singleton_self _)
    have hsamples : (pruned [v]).flatMap (reaching path (infer v)) =
        reaching path (infer v) (v.prune sampleSize) := List.flatMap_singleton _ _
    obtain ⟨hreached, hmark⟩ := at?_ofShape hfed hnumber
    rw [hsamples] at hreached hmark
    rw [hmark]
    exact ⟨hreached, allWhole_iff hreached⟩

/-- Rows of numbers next to a text; the last number of the first row is not looked at. -/
def mixedRows : Json :=
  .array [.array [Json.ofInt 1, Json.ofInt 2, Json.ofInt 3, .number (.float (Binary64.ofInt 4))],
    .string "a", .array [Json.ofInt 5]]

/-- The numbers in the rows are marked, and the texts have none. -/
theorem accepts_prune_of_infer_mixedRows :
    ∃ value, ofText? (chars 0 (ofShape (infer mixedRows) [mixedRows])) = some value ∧
      value.accepts (some (mixedRows.prune sampleSize)) = true ∧
      value.at? [.element, .member 0, .element] = some (number true) ∧
      ∀ n, Json.number n ∈ reaching [.element, .member 0, .element] (infer mixedRows)
        (mixedRows.prune sampleSize) → n.isWhole = true := by
  have hcanonical : mixedRows.Canonical := by
    simp [mixedRows, Json.Canonical, Json.CanonicalItems, Json.ofInt, Number.ofInt?]
  obtain ⟨value, hread, haccepts, hmarks⟩ := accepts_prune_of_infer 0 mixedRows hcanonical
  obtain rfl := Option.some.inj ((ofText?_chars 0 _).symm.trans hread)
  have hnumber : (ofShape (infer mixedRows) [mixedRows]).at? [.element, .member 0, .element] =
      some (number true) := rfl
  exact ⟨_, hread, haccepts, hnumber, (hmarks _ true hnumber).2.1 rfl⟩

end JsonShelf.Zod
