/-
**The depth of a value is the length of its longest path.**

The depth of a value can be counted in two directions.  On the way up, a container is one deeper
than what is deepest in it.  On the way down, each value is told how deep it stands, leaves answer
with what they are told, and a container passes on the greatest answer.  Both count the steps of a
path to a leaf, and no path is longer than the depth: each step leads to something less deep.

Main definitions:

* `Json.IsLeaf` — a scalar, or a container with nothing in it;
* `Json.depthFrom` — the depth of the deepest leaf, counted on the way down.

Main results:

* `Json.isLeaf_iff` — no step leads on from a leaf, and only from leaves;
* `Json.depthFrom_eq` — both ways of counting agree;
* `Json.length_add_depth_le` — along a path there is less and less depth;
* `Json.exists_step?_of_depth` — some step loses no more than one;
* `Json.depth_eq_longest` — **the depth is the length of the longest path**.
-/

import JsonShelf.Proofs.Json.Places

set_option autoImplicit false

namespace JsonShelf.Json

variable {value inner : Json} {segment : Segment} {path : Path} {items : List Json}
  {members : Members Json}

/-! ### Leaves -/

/-- A scalar, or a container with nothing in it. -/
def IsLeaf : Json → Prop
  | array items => items = []
  | object members => members = []
  | null | bool _ | number _ | string _ => True

/-- No step leads on from a leaf, and only from leaves. -/
theorem isLeaf_iff (value : Json) : value.IsLeaf ↔ ∀ segment, value.step? segment = none := by
  cases value with
  | null | bool | number | string =>
      refine iff_of_true trivial fun segment => ?_
      cases segment <;> rfl
  | array items =>
      constructor
      · rintro rfl segment
        cases segment <;> rfl
      · intro h
        cases items with
        | nil => rfl
        | cons item rest => cases h (.index 0)
  | object members =>
      constructor
      · rintro rfl segment
        cases segment <;> rfl
      · intro h
        cases members with
        | nil => rfl
        | cons member rest =>
            have hfirst := h (.key member.1)
            rw [step?, get?, members?, Option.bind_some, Members.get?_cons, if_pos rfl] at hfirst
            cases hfirst

theorem isLeaf_of_depth (h : value.depth = 0) : value.IsLeaf := by
  cases value with
  | null | bool | number | string => trivial
  | array items =>
      cases items with
      | nil => rfl
      | cons => cases h
  | object members =>
      cases members with
      | nil => rfl
      | cons => cases h

/-! ### The deepest part of a container -/

/-- Some item is as deep as all items together. -/
theorem exists_depth_eq (h : items ≠ []) : ∃ item ∈ items, item.depth = depthOfItems items := by
  induction items with
  | nil => exact absurd rfl h
  | cons item rest ih =>
      rw [depthOfItems]
      rcases Nat.le_total (depthOfItems rest) item.depth with hle | hle
      · exact ⟨item, List.mem_cons_self, (Nat.max_eq_left hle).symm⟩
      · by_cases hrest : rest = []
        · subst hrest
          exact ⟨item, List.mem_cons_self, (Nat.max_eq_left (Nat.zero_le _)).symm⟩
        · obtain ⟨deepest, hmem, hdeepest⟩ := ih hrest
          rw [Nat.max_eq_right hle]
          exact ⟨deepest, List.mem_cons_of_mem item hmem, hdeepest⟩

/-! ### Counting on the way down -/

mutual

/-- The depth of the deepest leaf of a value that stands at some depth: leaves answer with what they
are told, a container tells its contents one more and passes on the greatest answer. -/
def depthFrom (start : ℕ) : Json → ℕ
  | array (item :: rest) => (depthsFrom (start + 1) (item :: rest)).max?.getD start
  | object (member :: rest) => (memberDepthsFrom (start + 1) (member :: rest)).max?.getD start
  | array [] | object [] | null | bool _ | number _ | string _ => start

/-- `Json.depthFrom` of each item. -/
def depthsFrom (start : ℕ) : List Json → List ℕ
  | [] => []
  | item :: rest => depthFrom start item :: depthsFrom start rest

/-- `Json.depthFrom` of the value of each member. -/
def memberDepthsFrom (start : ℕ) : List (String × Json) → List ℕ
  | [] => []
  | (_, value) :: rest => depthFrom start value :: memberDepthsFrom start rest

end

theorem depthsFrom_eq_map (start : ℕ) (items : List Json) :
    depthsFrom start items = items.map (depthFrom start) := by
  induction items with
  | nil => rfl
  | cons item rest ih => rw [depthsFrom, ih, List.map_cons]

theorem memberDepthsFrom_eq_map (start : ℕ) (members : Members Json) :
    memberDepthsFrom start members = (members.map Prod.snd).map (depthFrom start) := by
  induction members with
  | nil => rfl
  | cons member rest ih => rw [memberDepthsFrom, ih, List.map_cons, List.map_cons]

/-- The greatest answer of the contents of a container. -/
theorem max?_depthFrom {start : ℕ} (hne : items ≠ [])
    (h : ∀ item ∈ items, depthFrom start item = start + item.depth) :
    (items.map (depthFrom start)).max? = some (start + depthOfItems items) := by
  rw [List.max?_eq_some_iff]
  constructor
  · obtain ⟨deepest, hmem, hdeepest⟩ := exists_depth_eq hne
    exact List.mem_map.2 ⟨deepest, hmem, by rw [h deepest hmem, hdeepest]⟩
  · intro answer hanswer
    obtain ⟨item, hmem, rfl⟩ := List.mem_map.1 hanswer
    rw [h item hmem]
    exact Nat.add_le_add_left (depthOfItems_le_iff.1 (Nat.le_refl _) item hmem) start

/-- **Both ways of counting agree**, wherever the value stands. -/
theorem depthFrom_eq (start : ℕ) (value : Json) : depthFrom start value = start + value.depth := by
  induction value using Json.induction generalizing start with
  | null | bool | number | string => rfl
  | array items ih =>
      cases items with
      | nil => rfl
      | cons item rest =>
          rw [depthFrom, depthsFrom_eq_map,
            max?_depthFrom (List.cons_ne_nil _ _) fun part hpart => ih part hpart (start + 1),
            Option.getD_some, depth, Nat.add_right_comm, Nat.add_assoc]
  | object members ih =>
      cases members with
      | nil => rfl
      | cons member rest =>
          have hne : (member :: rest).map Prod.snd ≠ [] := List.cons_ne_nil _ _
          have hparts : ∀ part ∈ (member :: rest).map Prod.snd,
              depthFrom (start + 1) part = start + 1 + part.depth :=
            List.forall_mem_map.2 fun part hpart => ih part hpart (start + 1)
          rw [depthFrom, memberDepthsFrom_eq_map, max?_depthFrom hne hparts,
            Option.getD_some, depth, depthOfMembers_eq, Nat.add_right_comm, Nat.add_assoc]

/-! ### Paths against depth -/

/-- What is one step inside is less deep. -/
theorem depth_lt_of_step? (h : value.step? segment = some inner) : inner.depth < value.depth := by
  cases segment with
  | index n =>
      obtain ⟨items, rfl, hitem⟩ := step?_index_eq_some.1 h
      exact depth_lt_of_mem_items (List.mem_of_getElem? hitem)
  | key key =>
      obtain ⟨members, rfl, hmember⟩ := step?_key_eq_some.1 h
      exact depth_lt_of_mem_members (Members.mem_of_get? hmember)

/-- Along a path there is less and less depth. -/
theorem length_add_depth_le (h : value.resolve? path = some inner) :
    path.length + inner.depth ≤ value.depth := by
  induction path generalizing value with
  | nil =>
      obtain rfl : value = inner := Option.some.inj h
      exact Nat.le_of_eq (Nat.zero_add _)
  | cons segment path ih =>
      rw [resolve?_cons, Option.bind_eq_some_iff] at h
      obtain ⟨next, hstep, hpath⟩ := h
      have hlt : next.depth < value.depth := depth_lt_of_step? hstep
      have hle : path.length + inner.depth ≤ next.depth := ih hpath
      rw [List.length_cons]
      omega

/-- Some step into a value that is no leaf loses no more than one.  Every member can be looked up,
as no key is there twice. -/
theorem exists_step?_of_depth {n : ℕ} (hvalue : value.Canonical) (h : value.depth = n + 1) :
    ∃ segment inner, value.step? segment = some inner ∧ inner.Canonical ∧ inner.depth = n := by
  cases value with
  | null | bool | number | string => cases h
  | array items =>
      cases items with
      | nil => cases h
      | cons item rest =>
          rw [Canonical, canonicalItems_iff] at hvalue
          obtain ⟨deepest, hmem, hdeepest⟩ := exists_depth_eq (List.cons_ne_nil item rest)
          obtain ⟨index, hindex⟩ := List.getElem?_of_mem hmem
          exact ⟨.index index, deepest, hindex, hvalue deepest hmem,
            hdeepest.trans (Nat.succ.inj h)⟩
  | object members =>
      cases members with
      | nil => cases h
      | cons member rest =>
          rw [Canonical, canonicalMembers_iff] at hvalue
          have hne : (member :: rest).map Prod.snd ≠ [] := List.cons_ne_nil _ _
          obtain ⟨deepest, hmem, hdeepest⟩ := exists_depth_eq hne
          rw [← depthOfMembers_eq] at hdeepest
          obtain ⟨⟨key, found⟩, hfound, rfl⟩ := List.mem_map.1 hmem
          exact ⟨.key key, found, Members.get?_of_mem hvalue.1 hfound, hvalue.2 _ hfound,
            hdeepest.trans (Nat.succ.inj h)⟩

/-- Some path to a leaf is as long as the value is deep. -/
theorem exists_path_of_depth (hvalue : value.Canonical) :
    ∃ path leaf, value.resolve? path = some leaf ∧ leaf.IsLeaf ∧ path.length = value.depth := by
  -- on the depth, which the right step lowers by one
  induction hdepth : value.depth generalizing value with
  | zero => exact ⟨[], value, rfl, isLeaf_of_depth hdepth, rfl⟩
  | succ n ih =>
      obtain ⟨segment, inner, hstep, hinner, hn⟩ := exists_step?_of_depth hvalue hdepth
      obtain ⟨path, leaf, hleaf, hisLeaf, hlength⟩ := ih hinner hn
      refine ⟨segment :: path, leaf, ?_, hisLeaf, congrArg Nat.succ hlength⟩
      rw [resolve?_cons, hstep]
      exact hleaf

/-- **The depth is the length of the longest path.**  It is what is counted on the way down; no path
into the value is longer, each ends for good at a leaf and goes on elsewhere, and some path to a
leaf is as long. -/
theorem depth_eq_longest (hvalue : value.Canonical) :
    depthFrom 0 value = value.depth ∧
    (∀ path inner, value.resolve? path = some inner →
      path.length ≤ value.depth ∧
        (inner.IsLeaf ↔ ∀ segment, value.resolve? (path ++ [segment]) = none)) ∧
    ∃ path leaf, value.resolve? path = some leaf ∧ leaf.IsLeaf ∧ path.length = value.depth := by
  refine ⟨(depthFrom_eq 0 value).trans (Nat.zero_add _), fun path inner hpath => ⟨?_, ?_⟩,
    exists_path_of_depth hvalue⟩
  · exact Nat.le_of_add_right_le (length_add_depth_le hpath)
  · rw [isLeaf_iff]
    refine forall_congr' fun segment => ?_
    rw [resolve?_concat, hpath, Option.bind_some]

/-- An empty list beside an object that holds an empty object: a path of two steps is the
longest. -/
theorem depth_eq_longest_emptyContainers :
    let value : Json := .object [("a", .array []), ("b", .object [("c", .object [])])]
    value.Canonical ∧ depthFrom 0 value = 2 ∧
      value.resolve? [.key "a"] = some (.array []) ∧ IsLeaf (.array []) ∧
      (∀ segment, value.resolve? [.key "a", segment] = none) ∧
      ∃ path leaf, value.resolve? path = some leaf ∧ leaf.IsLeaf ∧ path.length = 2 := by
  intro value
  have hvalue : value.Canonical :=
    ⟨by decide, trivial, ⟨by decide, ⟨by decide, trivial⟩, trivial⟩, trivial⟩
  obtain ⟨hdown, hpaths, hlongest⟩ := depth_eq_longest hvalue
  obtain ⟨-, hends⟩ := hpaths [.key "a"] (.array []) rfl
  exact ⟨hvalue, hdown, rfl, rfl, hends.1 rfl, hlongest⟩

end JsonShelf.Json
