/-
**The form of inferred shapes.**

Every part of an inferred shape was inferred from values inside the value, the ones that reach it:
an object from objects with just its names, an array from arrays, a member of a union from the
samples of its kind.  What a union may hold, and where it and the shape of unknown values may stand,
follows from the step that leads there.

Main definitions:

* `Shape.at?` — the part of a shape at the end of a path;
* `Shape.Drawn` — the kinds in a shape are the shapes of the samples;
* `Shape.NormalAt` — what may stand at the end of a path, above the values that reach it.

Main results:

* `Shape.Drawn.of_part?`, `Shape.Drawn.of_at?` — a step, and so a path, leads to a part whose kinds
  are the shapes of the values that reach it;
* `Shape.infer_normalAt` — **every part of an inferred shape is in normal form**.
-/

import JsonShelf.Proofs.Shape.NormalUnion
import JsonShelf.Proofs.Shape.Steps

set_option autoImplicit false

namespace JsonShelf

/-! ### Values that are all sample -/

namespace Json

variable {value inner : Json} {members : Members Json} {key : String}

theorem Canonical.of_get? (h : value.Canonical) (hget : value.get? key = some inner) :
    inner.Canonical := by
  obtain ⟨members, rfl, hget⟩ := exists_members_of_get? hget
  rw [Canonical, canonicalMembers_iff] at h
  exact h.2 _ (Members.mem_of_get? hget)

theorem Canonical.of_mem_items (h : value.Canonical) (hmem : inner ∈ value.items?.getD []) :
    inner.Canonical := by
  cases value with
  | array items =>
      rw [Canonical, canonicalItems_iff] at h
      exact h inner hmem
  | null | bool | number | string | object => cases hmem

theorem canonical_prune (count : ℕ) (h : value.Canonical) : (value.prune count).Canonical := by
  induction value using Json.induction with
  | null | bool | number | string => trivial
  | array items ih =>
      rw [Canonical, canonicalItems_iff] at h
      rw [prune_array, Canonical, canonicalItems_iff, List.forall_mem_map]
      intro item hitem
      have hmem := List.mem_of_mem_take hitem
      exact ih item hmem (h item hmem)
  | object members ih =>
      rw [Canonical, canonicalMembers_iff] at h
      rw [prune_object, Canonical, canonicalMembers_iff, List.forall_mem_map, Members.keys,
        List.map_map]
      exact ⟨h.1, fun member hmember => ih member hmember (h.2 member hmember)⟩

theorem prune_prune (count : ℕ) (value : Json) :
    (value.prune count).prune count = value.prune count := by
  induction value using Json.induction with
  | null | bool | number | string => rfl
  | array items ih =>
      rw [prune_array, prune_array, ← List.map_take, List.take_take, Nat.min_self, List.map_map]
      refine congrArg array (List.map_congr_left ?_)
      exact fun item hitem => ih item (List.mem_of_mem_take hitem)
  | object members ih =>
      rw [prune_object, prune_object, List.map_map]
      refine congrArg object (List.map_congr_left ?_)
      intro member hmember
      exact congrArg (Prod.mk member.1) (ih member hmember)

/-- Each key stands once in an object, and no array has items that are not looked at. -/
structure Sampled (value : Json) : Prop where
  canonical : value.Canonical
  prune_eq : value.prune sampleSize = value

theorem sampled_prune (h : value.Canonical) : (value.prune sampleSize).Sampled :=
  ⟨canonical_prune sampleSize h, prune_prune sampleSize value⟩

theorem Sampled.items_eq (h : value.Sampled) :
    value.items?.getD [] = ((value.items?.getD []).take sampleSize).map (prune sampleSize) := by
  have hitems := items_prune sampleSize value
  rwa [h.prune_eq] at hitems

theorem Sampled.length_le (h : value.Sampled) : (value.items?.getD []).length ≤ sampleSize := by
  rw [h.items_eq, List.length_map, List.length_take]
  exact Nat.min_le_left _ _

theorem Sampled.of_mem_items (h : value.Sampled) (hmem : inner ∈ value.items?.getD []) :
    inner.Sampled := by
  refine ⟨h.canonical.of_mem_items hmem, ?_⟩
  rw [h.items_eq] at hmem
  obtain ⟨item, -, rfl⟩ := List.mem_map.1 hmem
  exact prune_prune sampleSize item

theorem Sampled.of_get? (h : value.Sampled) (hget : value.get? key = some inner) :
    inner.Sampled := by
  refine ⟨h.canonical.of_get? hget, ?_⟩
  have hpruned := get?_prune sampleSize key value
  rw [h.prune_eq, hget, Option.map_some] at hpruned
  exact (Option.some.inj hpruned).symm

end Json

namespace Shape

variable {step : Step} {path : List Step} {shape part kind : Shape} {samples : List Json}
  {items : List Json} {value sample : Json} {members : List Shape}
  {fields : List (String × Shape)} {name : String} {n : ℕ}

/-! ### Shapes of samples -/

theorem infer_ne_unknown (value : Json) : infer value ≠ unknown := by
  cases value <;> simp [infer]

theorem infer_ne_undefined (value : Json) : infer value ≠ undefined := by
  cases value <;> simp [infer]

theorem not_isUnion_infer (value : Json) : ¬(infer value).IsUnion := by
  rintro ⟨members, h⟩
  cases value <;> simp [infer] at h

theorem acceptsMissing_infer (value : Json) : (infer value).acceptsMissing = false := by
  cases value <;> rfl

/-- An object shape has the keys of the object as names. -/
theorem keys_inferMembers (members : Members Json) :
    Members.keys (inferMembers members) = Members.keys members := by
  rw [inferMembers_eq_map, Members.keys_map]

theorem mem_distinctAlternatives_infer :
    kind ∈ distinctAlternatives (items.map infer) ↔ ∃ item ∈ items, infer item = kind := by
  simp [mem_distinctAlternatives, alternatives_infer, eq_comm]

theorem length_distinctAlternatives_infer_le (items : List Json) :
    (distinctAlternatives (items.map infer)).length ≤ items.length := by
  have h := length_distinctAlternatives_le (items.map infer)
  simpa [List.length_flatMap, alternatives_infer, Function.comp_def] using h

/-- The element of an array is unknown just if there are no samples. -/
theorem unionOf_infer_eq_unknown_iff : unionOf (items.map infer) = unknown ↔ items = [] := by
  constructor
  · intro hunknown
    rcases unionOf_cases (items.map infer) with ⟨hnone, -⟩ | ⟨only, hone, hunion⟩ | ⟨-, hunion⟩
    · refine List.eq_nil_iff_forall_not_mem.2 ?_
      intro item hitem
      have hmem := mem_distinctAlternatives_infer.2 ⟨item, hitem, rfl⟩
      rw [hnone] at hmem
      cases hmem
    · obtain ⟨item, -, hitem⟩ :=
        mem_distinctAlternatives_infer.1 (hone ▸ List.mem_singleton_self only)
      rw [hunion, ← hitem] at hunknown
      exact absurd hunknown (infer_ne_unknown item)
    · rw [hunion] at hunknown
      cases hunknown
  · rintro rfl
    rfl

theorem normalised_of_mem_map_infer : ∀ shape ∈ items.map infer, shape.Normalised :=
  List.forall_mem_map.2 fun item _ => normalised_of_not_isUnion (not_isUnion_infer item)

/-- The kinds in the element of an array are the shapes of its samples. -/
theorem mem_alternatives_unionOf_infer (h : items ≠ []) :
    kind ∈ alternatives (unionOf (items.map infer)) ↔ ∃ item ∈ items, infer item = kind := by
  rw [alternatives_unionOf (mt List.map_eq_nil_iff.1 h) normalised_of_mem_map_infer,
    mem_distinctAlternatives_infer]

theorem normalised_unionOf_infer (items : List Json) :
    (unionOf (items.map infer)).Normalised := by
  rcases unionOf_cases (items.map infer) with ⟨-, hunion⟩ | ⟨only, hone, hunion⟩ | ⟨htwo, hunion⟩
  · rw [hunion]
    trivial
  · obtain ⟨item, -, rfl⟩ :=
      mem_distinctAlternatives_infer.1 (hone ▸ List.mem_singleton_self only)
    rw [hunion]
    exact normalised_of_not_isUnion (not_isUnion_infer item)
  · rw [hunion, normalised_union_distinctAlternatives_iff htwo, List.forall_mem_map]
    intro item _ shape hshape
    rw [alternatives_infer, List.mem_singleton] at hshape
    rw [hshape]
    exact not_isUnion_infer item

theorem length_le_of_unionOf_infer (h : unionOf (items.map infer) = union members) :
    members.length ≤ items.length := by
  rcases unionOf_cases (items.map infer) with ⟨-, hunion⟩ | ⟨only, hone, hunion⟩ | ⟨-, hunion⟩
  · rw [hunion] at h
    cases h
  · obtain ⟨item, -, rfl⟩ :=
      mem_distinctAlternatives_infer.1 (hone ▸ List.mem_singleton_self only)
    exact absurd ⟨members, hunion.symm.trans h⟩ (not_isUnion_infer item)
  · rw [hunion, union.injEq] at h
    rw [← h]
    exact length_distinctAlternatives_infer_le items

/-! ### Parts and the values that reach them -/

/-- The part of a shape at the end of a path. -/
def at? : List Step → Shape → Option Shape
  | [], shape => some shape
  | step :: path, shape => (shape.part? step).bind (at? path)

theorem at?_append (front back : List Step) (shape : Shape) :
    shape.at? (front ++ back) = (shape.at? front).bind (at? back) := by
  induction front generalizing shape with
  | nil => rfl
  | cons step front ih =>
      rw [List.cons_append, at?, at?, Option.bind_assoc]
      exact congrArg _ (funext ih)

/-- The kinds in the shape are the shapes of the samples; without any, nothing is known. -/
structure Drawn (samples : List Json) (shape : Shape) : Prop where
  /-- Each kind is the shape of some sample. -/
  exists_sample : shape ≠ unknown → ∀ kind ∈ alternatives shape,
    ∃ sample ∈ samples, infer sample = kind
  /-- The shape of each sample is one of the kinds. -/
  mem_kinds : ∀ sample ∈ samples, infer sample ∈ alternatives shape

/-- A shape that is no union is the shape of all samples, and of at least one. -/
theorem drawn_infer (hmem : sample ∈ samples)
    (h : ∀ sample ∈ samples, infer sample = infer value) : Drawn samples (infer value) := by
  constructor
  · intro _ kind hkind
    rw [alternatives_infer, List.mem_singleton] at hkind
    exact ⟨sample, hmem, (h sample hmem).trans hkind.symm⟩
  · intro sample hsample
    rw [alternatives_infer, h sample hsample]
    exact List.mem_singleton_self _

theorem Drawn.infer_eq (h : Drawn samples shape) (halone : alternatives shape = [shape])
    (hsample : sample ∈ samples) : infer sample = shape := by
  have hmem := h.mem_kinds sample hsample
  rwa [halone, List.mem_singleton] at hmem

theorem Drawn.exists_mem (h : Drawn samples shape) (halone : alternatives shape = [shape])
    (hknown : shape ≠ unknown) : ∃ sample, sample ∈ samples := by
  obtain ⟨sample, hsample, -⟩ :=
    h.exists_sample hknown shape (halone ▸ List.mem_singleton_self shape)
  exact ⟨sample, hsample⟩

/-- An array from which the shape was inferred, all of whose items are looked at. -/
theorem exists_items_of_infer {element : Shape} (hsampled : sample.Sampled)
    (h : infer sample = array element) :
    ∃ items, sample = .array items ∧ items.length ≤ sampleSize ∧
      element = unionOf (items.map infer) := by
  cases sample with
  | array items =>
      have hlength : items.length ≤ sampleSize := hsampled.length_le
      rw [infer, inferFirst_eq_map, List.take_of_length_le hlength] at h
      exact ⟨items, rfl, hlength, (array.inj h).symm⟩
  | null | bool | number | string | object => cases h

/-- An object from which the shape was inferred has just its fields. -/
theorem exists_members_of_infer (h : infer sample = object fields) :
    ∃ members, sample = .object members ∧ fields = inferMembers members := by
  cases sample with
  | object members => exact ⟨members, rfl, (object.inj h).symm⟩
  | null | bool | number | string | array => cases h

theorem Drawn.element {element : Shape} (h : Drawn samples (array element))
    (hsampled : ∀ sample ∈ samples, sample.Sampled) :
    Drawn (samples.flatMap (inside .element element)) element := by
  have hitems : ∀ sample ∈ samples, ∃ items, sample = .array items ∧
      items.length ≤ sampleSize ∧ element = unionOf (items.map infer) := fun sample hsample =>
    exists_items_of_infer (hsampled sample hsample) (h.infer_eq rfl hsample)
  constructor
  · intro hknown kind hkind
    obtain ⟨sample, hsample⟩ := h.exists_mem rfl (by simp)
    obtain ⟨items, rfl, -, helement⟩ := hitems sample hsample
    have hne : items ≠ [] := fun hnil =>
      hknown (helement.trans (unionOf_infer_eq_unknown_iff.2 hnil))
    rw [helement] at hkind
    obtain ⟨item, hitem, hinfer⟩ := (mem_alternatives_unionOf_infer hne).1 hkind
    exact ⟨item, List.mem_flatMap.2 ⟨_, hsample, hitem⟩, hinfer⟩
  · intro item hmem
    obtain ⟨sample, hsample, hitem⟩ := List.mem_flatMap.1 hmem
    obtain ⟨items, rfl, -, helement⟩ := hitems sample hsample
    rw [helement]
    exact (mem_alternatives_unionOf_infer (List.ne_nil_of_mem hitem)).2 ⟨item, hitem, rfl⟩

theorem Drawn.field (h : Drawn samples (object fields))
    (hpart : Members.get? name fields = some part) :
    Drawn (samples.flatMap (inside (.field name) part)) part ∧ ∃ value, part = infer value := by
  have hvalue : ∀ sample ∈ samples,
      ∃ inner, sample.get? name = some inner ∧ infer inner = part := by
    intro sample hsample
    obtain ⟨members, rfl, rfl⟩ := exists_members_of_infer (h.infer_eq rfl hsample)
    rwa [inferMembers_eq_map, Members.get?_map name fun _ => infer, Option.map_eq_some_iff] at hpart
  obtain ⟨first, hfirst⟩ := h.exists_mem rfl (by simp)
  obtain ⟨value, hget, rfl⟩ := hvalue first hfirst
  have hmem : value ∈ samples.flatMap (inside (.field name) (infer value)) :=
    List.mem_flatMap.2 ⟨first, hfirst, Option.mem_toList.2 hget⟩
  refine ⟨drawn_infer hmem ?_, value, rfl⟩
  intro inner hmem
  obtain ⟨sample, hsample, hinner⟩ := List.mem_flatMap.1 hmem
  obtain ⟨other, hother, hinfer⟩ := hvalue sample hsample
  obtain rfl := Option.some.inj (hother.symm.trans (Option.mem_toList.1 hinner))
  exact hinfer

theorem Drawn.member (h : Drawn samples (union members)) (hpart : members[n]? = some part) :
    Drawn (samples.flatMap (inside (.member n) part)) part ∧ ∃ value, part = infer value := by
  obtain ⟨first, hfirst, rfl⟩ := h.exists_sample (by simp) part (List.mem_of_getElem? hpart)
  have hmem : first ∈ samples.flatMap (inside (.member n) (infer first)) := by
    refine List.mem_flatMap.2 ⟨first, hfirst, ?_⟩
    rw [inside, if_pos rfl]
    exact List.mem_singleton_self first
  refine ⟨drawn_infer hmem ?_, first, rfl⟩
  intro sample hmem
  obtain ⟨other, -, hsample⟩ := List.mem_flatMap.1 hmem
  rw [inside] at hsample
  split at hsample
  · next heq => rwa [List.mem_singleton.1 hsample]
  · cases hsample

/-- A step leads to a part whose kinds are the shapes of the values that the step leads to. -/
theorem Drawn.of_part? (h : Drawn samples shape) (hsampled : ∀ sample ∈ samples, sample.Sampled)
    (hpart : shape.part? step = some part) : Drawn (samples.flatMap (inside step part)) part := by
  unfold part? at hpart
  split at hpart
  · obtain rfl := Option.some.inj hpart
    exact h.element hsampled
  · exact (h.field hpart).1
  · exact (h.member hpart).1
  · cases hpart

theorem sampled_of_mem_inside (h : sample.Sampled) (hmem : value ∈ inside step part sample) :
    value.Sampled := by
  cases step with
  | element => exact h.of_mem_items hmem
  | field name => exact h.of_get? (Option.mem_toList.1 hmem)
  | member n =>
      rw [inside] at hmem
      split at hmem
      · rwa [List.mem_singleton.1 hmem]
      · cases hmem

/-- A path leads to a part whose kinds are the shapes of the values that reach it. -/
theorem Drawn.of_at? (h : Drawn samples shape) (hsampled : ∀ sample ∈ samples, sample.Sampled)
    (hat : shape.at? path = some part) :
    Drawn (samples.flatMap (reaching path shape)) part ∧
      ∀ sample ∈ samples.flatMap (reaching path shape), sample.Sampled := by
  induction path generalizing shape samples with
  | nil =>
      obtain rfl := Option.some.inj hat
      have hreaching : samples.flatMap (reaching [] shape) = samples := List.flatMap_singleton' _
      rw [hreaching]
      exact ⟨h, hsampled⟩
  | cons step path ih =>
      obtain ⟨next, hnext, hat⟩ := Option.bind_eq_some_iff.1 hat
      have hreaching : samples.flatMap (reaching (step :: path) shape) =
          (samples.flatMap (inside step next)).flatMap (reaching path next) := by
        rw [List.flatMap_assoc]
        exact List.flatMap_congr fun sample _ => reaching_cons hnext sample
      rw [hreaching]
      refine ih (h.of_part? hsampled hnext) ?_ hat
      intro value hvalue
      obtain ⟨sample, hsample, hvalue⟩ := List.mem_flatMap.1 hvalue
      exact sampled_of_mem_inside (hsampled sample hsample) hvalue

/-! ### Normal form -/

/-- What may stand at the end of a path, above the values that reach it.  A union of two or three
members, none of them a union and no two of them equal, and the shape of unknown values stand below
an array only; an array of unknown values is reached by empty arrays, and no other array is; the
fields of an object are the keys of the objects that reach it, and none may be missing. -/
def NormalAt (path : List Step) (sources : List Json) : Shape → Prop
  | undefined => False
  | unknown => ∃ front, path = front ++ [.element]
  | union members => (∃ front, path = front ++ [.element]) ∧
      (members.length = 2 ∨ members.length = 3) ∧ members.Nodup ∧
      ∀ member ∈ members, ¬member.IsUnion
  | array element => sources ≠ [] ∧ ∀ source ∈ sources, ∃ items, source = .array items ∧
      (element = unknown ↔ items = [])
  | object fields => sources ≠ [] ∧ (Members.keys fields).Nodup ∧
      (∀ source ∈ sources, ∃ members, source = .object members ∧
        Members.keys fields = Members.keys members) ∧
      ∀ field ∈ fields, field.2.acceptsMissing = false
  | null | scalar _ => True

/-- The element of an array is the union of the shapes of a few samples; every other part of an
inferred shape is an inferred shape. -/
theorem exists_eq_of_at? (h : value.Sampled) (hat : (infer value).at? path = some part) :
    (∃ value, part = infer value) ∨ ∃ front, ∃ items : List Json, path = front ++ [.element] ∧
      items.length ≤ sampleSize ∧ part = unionOf (items.map infer) := by
  have hroot : Drawn [value] (infer value) :=
    drawn_infer (List.mem_singleton_self value) (by simp)
  rcases List.eq_nil_or_concat path with rfl | ⟨front, step, rfl⟩
  · exact .inl ⟨value, (Option.some.inj hat).symm⟩
  · rw [List.concat_eq_append, at?_append] at hat
    obtain ⟨parent, hparent, hat⟩ := Option.bind_eq_some_iff.1 hat
    obtain ⟨next, hpart, hnext⟩ := Option.bind_eq_some_iff.1 hat
    obtain rfl := Option.some.inj hnext
    obtain ⟨hdrawn, hsampled⟩ := hroot.of_at? (List.forall_mem_singleton.2 h) hparent
    unfold part? at hpart
    split at hpart
    · obtain rfl := Option.some.inj hpart
      obtain ⟨sample, hsample⟩ := hdrawn.exists_mem rfl (by simp)
      obtain ⟨items, -, hlength, helement⟩ := exists_items_of_infer (hsampled sample hsample)
        (hdrawn.infer_eq rfl hsample)
      exact .inr ⟨front, items, List.concat_eq_append, hlength, helement⟩
    · exact .inl (hdrawn.field hpart).2
    · exact .inl (hdrawn.member hpart).2
    · cases hpart

/-- An array is unknown inside just if the samples are empty. -/
theorem Drawn.normalAt_array {element : Shape} (h : Drawn samples (array element))
    (hsampled : ∀ sample ∈ samples, sample.Sampled) : NormalAt path samples (array element) := by
  obtain ⟨first, hfirst⟩ := h.exists_mem rfl (by simp)
  refine ⟨List.ne_nil_of_mem hfirst, ?_⟩
  intro source hsource
  obtain ⟨items, rfl, -, rfl⟩ := exists_items_of_infer (hsampled source hsource)
    (h.infer_eq rfl hsource)
  exact ⟨items, rfl, unionOf_infer_eq_unknown_iff⟩

/-- An object has just the keys of the samples, each once. -/
theorem Drawn.normalAt_object (h : Drawn samples (object fields))
    (hsampled : ∀ sample ∈ samples, sample.Sampled) : NormalAt path samples (object fields) := by
  have hmembers : ∀ source ∈ samples, ∃ members, source = .object members ∧
      fields = inferMembers members := fun source hsource =>
    exists_members_of_infer (h.infer_eq rfl hsource)
  obtain ⟨first, hfirst⟩ := h.exists_mem rfl (by simp)
  obtain ⟨members, rfl, hfields⟩ := hmembers first hfirst
  refine ⟨List.ne_nil_of_mem hfirst, ?_, ?_, ?_⟩
  · rw [hfields, keys_inferMembers]
    have hcanonical := (hsampled _ hfirst).canonical
    rw [Json.Canonical] at hcanonical
    exact hcanonical.1
  · intro source hsource
    obtain ⟨members, rfl, rfl⟩ := hmembers source hsource
    exact ⟨members, rfl, keys_inferMembers members⟩
  · rw [hfields, inferMembers_eq_map, List.forall_mem_map]
    exact fun member _ => acceptsMissing_infer member.2

/-- A union of the shapes of a few samples has a few members. -/
theorem normalAt_of_unionOf_infer (front : List Step) (hlength : items.length ≤ sampleSize)
    (hunion : unionOf (items.map infer) = union members) :
    NormalAt (front ++ [.element]) samples (union members) := by
  have hnormal := normalised_unionOf_infer items
  rw [hunion] at hnormal
  obtain ⟨htwo, hflat, hnodup⟩ := hnormal
  have hthree : members.length ≤ 3 :=
    Nat.le_trans (length_le_of_unionOf_infer hunion) hlength
  exact ⟨⟨front, rfl⟩, by omega, hnodup, hflat⟩

/-- What is drawn from samples is normal above them, if it stands where its form allows it. -/
theorem Drawn.normalAt (h : Drawn samples part) (hsampled : ∀ sample ∈ samples, sample.Sampled)
    (horigin : (∃ value, part = infer value) ∨ ∃ front, ∃ items : List Json,
      path = front ++ [.element] ∧ items.length ≤ sampleSize ∧ part = unionOf (items.map infer)) :
    NormalAt path samples part := by
  cases part with
  | null | scalar => trivial
  | undefined =>
      obtain ⟨sample, -, hsample⟩ := h.exists_sample (by simp) _ (List.mem_singleton_self _)
      exact infer_ne_undefined sample hsample
  | unknown =>
      rcases horigin with ⟨value, hvalue⟩ | ⟨front, items, hpath, -⟩
      · exact absurd hvalue.symm (infer_ne_unknown value)
      · exact ⟨front, hpath⟩
  | union members =>
      rcases horigin with ⟨value, hvalue⟩ | ⟨front, items, rfl, hlength, hunion⟩
      · exact absurd ⟨members, hvalue.symm⟩ (not_isUnion_infer value)
      · exact normalAt_of_unionOf_infer front hlength hunion.symm
  | array element => exact h.normalAt_array hsampled
  | object fields => exact h.normalAt_object hsampled

/-- **Every part of an inferred shape is in normal form** above the values that it was inferred
from, and the field under a key may be missing just if it is. -/
theorem infer_normalAt (v : Json) (h : v.Canonical) :
    (∀ path part, (infer v).at? path = some part →
        NormalAt path (reaching path (infer v) (v.prune sampleSize)) part) ∧
      ∀ (members : Members Json) (key : String),
        (inferField members key).acceptsMissing = true ↔ Members.get? key members = none := by
  constructor
  · intro path part hat
    rw [← infer_prune] at hat ⊢
    have hsampled := Json.sampled_prune h
    have hroot : Drawn [v.prune sampleSize] (infer (v.prune sampleSize)) :=
      drawn_infer (List.mem_singleton_self _) (by simp)
    obtain ⟨hdrawn, hsources⟩ := hroot.of_at? (List.forall_mem_singleton.2 hsampled) hat
    have hsingle : [v.prune sampleSize].flatMap (reaching path (infer (v.prune sampleSize))) =
        reaching path (infer (v.prune sampleSize)) (v.prune sampleSize) :=
      List.flatMap_singleton _ _
    rw [hsingle] at hdrawn hsources
    exact hdrawn.normalAt hsources (exists_eq_of_at? hsampled hat)
  · intro members key
    rw [inferField]
    cases Members.get? key members with
    | none => simp [acceptsMissing]
    | some value => simp [acceptsMissing_infer]

/-- Rows under a key: an empty one, two with a number and a null, and a number that is not looked
at. -/
def unevenRows : Json :=
  .object [("rows", .array [.array [], .array [Json.ofInt 1, .null], .array [Json.ofInt 2, .null],
    Json.ofInt 3])]

/-- The rows are of two kinds, one of them empty; the one key may not be missing, any other may. -/
theorem infer_normalAt_unevenRows :
    (infer unevenRows).at? [.field "rows", .element] =
        some (.union [.array .unknown, .array (.union [.scalar .number, .null])]) ∧
      NormalAt [.field "rows", .element] [.array [], .array [Json.ofInt 1, .null],
          .array [Json.ofInt 2, .null]]
        (.union [.array .unknown, .array (.union [.scalar .number, .null])]) ∧
      NormalAt [.field "rows", .element, .member 0] [.array []] (.array .unknown) ∧
      NormalAt [.field "rows", .element, .member 0, .element] [] .unknown ∧
      (inferField [("rows", .null)] "row").acceptsMissing = true := by
  have hcanonical : unevenRows.Canonical := by
    simp [unevenRows, Json.Canonical, Json.CanonicalItems, Json.CanonicalMembers, Json.ofInt,
      Number.ofInt?]
  obtain ⟨hparts, hfields⟩ := infer_normalAt unevenRows hcanonical
  exact ⟨rfl, hparts [.field "rows", .element] _ rfl,
    hparts [.field "rows", .element, .member 0] _ rfl,
    hparts [.field "rows", .element, .member 0, .element] _ rfl, (hfields _ _).2 rfl⟩

end Shape

end JsonShelf
