/-
**Only the sampled items have an influence.**

Inference and the marks of whole numbers both look at the first items of an array only, and they
look equally far: whatever stands further on, at any depth, changes neither a shape nor an
expression nor the module made of them.

Main definitions:

* `Zod.Source.pruned` — a document whose content is cut to what is looked at.

Main results:

* `Zod.elementSamples_pruned`, `Zod.filterMap_get?_pruned`, `Zod.filter_infer_pruned` — pruned
  samples are handed down pruned;
* `Zod.ofShape_pruned` — **pruned samples give the same expression**;
* `Zod.moduleOf_pruned` — **pruned documents give the same module**.
-/

import JsonShelf.Proofs.Zod.Samples
import JsonShelf.Zod.Module

set_option autoImplicit false

namespace JsonShelf.Zod

/-! ### Samples handed down -/

theorem elementSamples_pruned (samples : List Json) :
    elementSamples (pruned samples) = pruned (elementSamples samples) := by
  rw [elementSamples, elementSamples, pruned, pruned, List.flatMap_map, List.map_flatMap]
  refine List.flatMap_congr fun sample _ => ?_
  rw [Json.items_prune, ← List.map_take, List.take_take, Nat.min_self]

theorem filterMap_get?_pruned (name : String) (samples : List Json) :
    (pruned samples).filterMap (Json.get? name) = pruned (samples.filterMap (Json.get? name)) := by
  rw [pruned, pruned, List.filterMap_map, List.map_filterMap]
  exact List.filterMap_congr fun sample _ => Json.get?_prune sampleSize name sample

/-- Pruned samples go to the members that the samples go to. -/
theorem filter_infer_pruned (member : Shape) (samples : List Json) :
    (pruned samples).filter (fun sample => Shape.infer sample = member) =
      pruned (samples.filter fun sample => Shape.infer sample = member) := by
  rw [pruned, pruned, List.filter_map]
  simp only [Function.comp_def, Shape.infer_prune]

/-! ### Expressions and modules -/

/-- **Pruned samples give the same expression.** -/
theorem ofShape_pruned (shape : Shape) (samples : List Json) :
    ofShape shape (pruned samples) = ofShape shape samples := by
  induction shape using Shape.induction generalizing samples with
  | null | undefined | unknown => rfl
  | scalar kind => cases kind <;> simp only [ofShape, ofScalar, allWhole_pruned]
  | array element ih => rw [ofShape, ofShape, elementSamples_pruned, ih]
  | object fields ih =>
      rw [ofShape, ofShape, ofFields_eq_map, ofFields_eq_map]
      refine congrArg object (List.map_congr_left ?_)
      intro field hfield
      rw [filterMap_get?_pruned, ih field hfield]
  | union members ih =>
      rw [ofShape, ofShape, ofMembers_eq_map, ofMembers_eq_map]
      refine congrArg union (List.map_congr_left ?_)
      intro member hmember
      rw [filter_infer_pruned, ih member hmember]

/-- The document with its content cut to what is looked at. -/
def Source.pruned (source : Source) : Source :=
  { source with sample := source.sample.prune sampleSize }

theorem schemaDeclaration_pruned (source : Source) (name : String) :
    schemaDeclaration source.pruned name = schemaDeclaration source name := by
  have hexpression : ofShape source.shape [source.sample.prune sampleSize] =
      ofShape source.shape [source.sample] := ofShape_pruned source.shape [source.sample]
  rw [schemaDeclaration, schemaDeclaration, Source.pruned, hexpression]

theorem moduleText_pruned (generatedAt : Option String) (sources : List Source)
    (names : List String) :
    moduleText generatedAt (sources.map Source.pruned) names =
      moduleText generatedAt sources names := by
  have hdeclaration : (fun source => schemaDeclaration source.pruned) = schemaDeclaration := by
    funext source name
    exact schemaDeclaration_pruned source name
  -- an entry of the registry tells the path and the name only
  have hentry : (fun source : Source => registryEntry source.pruned) = registryEntry := rfl
  rw [moduleText, moduleText, List.zipWith_map_left, List.zipWith_map_left, hdeclaration, hentry]

/-- **Only the first items of each array have an influence.**  Cut to them at every depth, a value
has the same shape, samples give the text of the same expression, and documents give the same
module, or the same clash of names. -/
theorem moduleOf_pruned :
    (∀ value : Json, Shape.infer (value.prune sampleSize) = Shape.infer value) ∧
    (∀ (shape : Shape) (samples : List Json) (level : ℕ),
      chars level (ofShape shape (samples.map (Json.prune sampleSize))) =
        chars level (ofShape shape samples)) ∧
    ∀ (generatedAt : Option String) (sources : List Source),
      moduleOf generatedAt (sources.map Source.pruned) = moduleOf generatedAt sources := by
  refine ⟨Shape.infer_prune, ?_, ?_⟩
  · intro shape samples level
    exact congrArg (chars level) (ofShape_pruned shape samples)
  · intro generatedAt sources
    have hpaths : (sources.map Source.pruned).map Source.path = sources.map Source.path :=
      List.map_map
    rw [moduleOf, moduleOf, hpaths]
    simp only [moduleText_pruned]

end JsonShelf.Zod
