/-
**Steps into a shape.**

The samples of a shape are handed down with it: one step into the shape leads each sample to the
values that the part was inferred from, and nothing else.  So a step keeps that every kind in the
part is the shape of some sample.

Main definitions:

* `Shape.Step`, `Shape.part?` — a step into a shape;
* `Shape.reaching` — the values inside a value that reach the end of a path through its shape;
* `Shape.Fed` — each kind in a shape is the shape of some sample.

Main results:

* `Shape.Fed.of_part?` — every kind is still the shape of some sample after a step.
-/

import JsonShelf.Proofs.Shape.Pruning

set_option autoImplicit false

namespace JsonShelf.Shape

/-! ### Steps -/

/-- A step into a shape, or into the expression of one. -/
inductive Step where
  | element
  | field (name : String)
  | member (n : ℕ)

variable {step : Step} {path : List Step} {shape part : Shape} {samples : List Json} {value : Json}

/-- The part of a shape one step inside. -/
def part? : Step → Shape → Option Shape
  | .element, array element => some element
  | .field name, object fields => Members.get? name fields
  | .member n, union members => members[n]?
  | _, _ => none

/-- The values that a step leads to from a value: its items, its member of the name, or the value
itself if it has the shape of the member of the union. -/
def inside : Step → Shape → Json → List Json
  | .element, _, value => value.items?.getD []
  | .field name, _, value => (value.get? name).toList
  | .member _, part, value => if infer value = part then [value] else []

/-- The values inside a value that reach the end of a path through its shape. -/
def reaching : List Step → Shape → Json → List Json
  | [], _, value => [value]
  | step :: path, shape, value =>
    match shape.part? step with
    | some part => (inside step part value).flatMap (reaching path part)
    | none => []

theorem reaching_cons (h : shape.part? step = some part) (value : Json) :
    reaching (step :: path) shape value =
      (inside step part value).flatMap (reaching path part) := by
  rw [reaching, h]

/-! ### Kinds that samples have -/

/-- Each kind in the shape is the shape of some sample, unless nothing is known about it. -/
def Fed (samples : List Json) (shape : Shape) : Prop :=
  ∀ kind ∈ alternatives shape, kind ≠ unknown → ∃ sample ∈ samples, infer sample = kind

/-- A sample feeds its own shape. -/
theorem fed_infer (h : value ∈ samples) : Fed samples (infer value) := by
  intro kind hkind _
  rw [alternatives_infer, List.mem_singleton] at hkind
  exact ⟨value, h, hkind.symm⟩

/-- The items that the element of an array was inferred from feed it. -/
theorem fed_unionOf {items : List Json} (h : items ⊆ samples) :
    Fed samples (unionOf (items.map infer)) := by
  have hdistinct : ∀ kind ∈ distinctAlternatives (items.map infer),
      ∃ sample ∈ samples, infer sample = kind := by
    intro kind hkind
    obtain ⟨_, hmember, hkind⟩ := mem_distinctAlternatives.1 hkind
    obtain ⟨item, hitem, rfl⟩ := List.mem_map.1 hmember
    rw [alternatives_infer, List.mem_singleton] at hkind
    exact ⟨item, h hitem, hkind.symm⟩
  rcases unionOf_eq_or (items.map infer) with ⟨-, hunion⟩ | ⟨only, honly, hunion⟩ | hunion
  · rw [hunion]
    intro kind hkind hknown
    exact absurd (List.mem_singleton.1 hkind) hknown
  · rw [honly] at hdistinct
    obtain ⟨sample, hsample, rfl⟩ := hdistinct only (List.mem_singleton_self only)
    rw [hunion]
    exact fed_infer hsample
  · rw [hunion]
    exact fun kind hkind _ => hdistinct kind hkind

theorem Fed.element {element : Shape} (h : Fed samples (.array element)) :
    Fed (samples.flatMap (inside .element element)) element := by
  obtain ⟨sample, hsample, hinfer⟩ := h _ (List.mem_singleton_self _) (by simp)
  cases sample with
  | array items =>
      obtain rfl := array.inj hinfer
      rw [inferFirst_eq_map]
      refine fed_unionOf ?_
      intro item hitem
      exact List.mem_flatMap.2 ⟨.array items, hsample, List.mem_of_mem_take hitem⟩
  | null | bool | number | string | object => cases hinfer

theorem Fed.field {fields : List (String × Shape)} {name : String}
    (h : Fed samples (.object fields)) (hpart : Members.get? name fields = some part) :
    Fed (samples.flatMap (inside (.field name) part)) part := by
  obtain ⟨sample, hsample, hinfer⟩ := h _ (List.mem_singleton_self _) (by simp)
  cases sample with
  | object members =>
      obtain rfl := object.inj hinfer
      rw [inferMembers_eq_map, Members.get?_map name (fun _ => infer),
        Option.map_eq_some_iff] at hpart
      obtain ⟨inner, hinner, rfl⟩ := hpart
      refine fed_infer (List.mem_flatMap.2 ⟨.object members, hsample, ?_⟩)
      exact Option.mem_toList.2 hinner
  | null | bool | number | string | array => cases hinfer

theorem Fed.member {members : List Shape} {n : ℕ}
    (h : Fed samples (.union members)) (hpart : members[n]? = some part) :
    Fed (samples.flatMap (inside (.member n) part)) part := by
  by_cases hknown : part = unknown
  · -- a member that is unknown has no other kind
    rw [hknown]
    intro kind hkind hne
    exact absurd (List.mem_singleton.1 hkind) hne
  · obtain ⟨sample, hsample, rfl⟩ := h part (List.mem_of_getElem? hpart) hknown
    refine fed_infer (List.mem_flatMap.2 ⟨sample, hsample, ?_⟩)
    rw [inside, if_pos rfl]
    exact List.mem_singleton_self sample

/-- Every kind in a part is the shape of some value that the step to it leads to. -/
theorem Fed.of_part? (h : Fed samples shape) (hpart : shape.part? step = some part) :
    Fed (samples.flatMap (inside step part)) part := by
  unfold part? at hpart
  split at hpart
  · obtain rfl := Option.some.inj hpart
    exact h.element
  · exact h.field hpart
  · exact h.member hpart
  · cases hpart

end JsonShelf.Shape
