/-
**Paths into a JSON value.**

Main definitions:

* `Json.Segment`, `Json.Path` — a step to an item or a member, and a list of steps;
* `Json.resolve?` — the value at the end of a path;
* `Json.depth` — the length of the longest path;
* `Json.prune` — the value with every array cut to its first items.
-/

import JsonShelf.Json.Basic

set_option autoImplicit false

namespace JsonShelf.Json

/-- One step into a value. -/
inductive Segment where
  /-- To an item of an array, counted from zero. -/
  | index (n : Nat)
  /-- To the value of a member of an object. -/
  | key (k : String)
  deriving DecidableEq, Repr

/-- The steps from a value to one inside it. -/
abbrev Path := List Segment

/-- The text of a step. -/
def Segment.text : Segment → String
  | index n => toString n
  | key k => k

/-- The value one step inside, if there is one. -/
def step? (value : Json) : Segment → Option Json
  | .index n => value.items?.bind (·[n]?)
  | .key k => value.get? k

/-- The value at the end of a path, if the path leads anywhere. -/
def resolve? (value : Json) : Path → Option Json
  | [] => some value
  | segment :: rest => (value.step? segment).bind (resolve? · rest)

/-! ### Depth -/

mutual

/-- The length of the longest path; empty containers and scalars end a path. -/
def depth : Json → Nat
  | array (item :: rest) => depthOfItems (item :: rest) + 1
  | object (member :: rest) => depthOfMembers (member :: rest) + 1
  | array [] | object [] | null | bool _ | number _ | string _ => 0

/-- The greatest depth of an item. -/
def depthOfItems : List Json → Nat
  | [] => 0
  | item :: rest => max (depth item) (depthOfItems rest)

/-- The greatest depth of the value of a member. -/
def depthOfMembers : List (String × Json) → Nat
  | [] => 0
  | (_, value) :: rest => max (depth value) (depthOfMembers rest)

end

/-! ### Pruning -/

mutual

/-- The value with every array, at every depth, cut to its first `count` items. -/
def prune (count : Nat) : Json → Json
  | array items => array (pruneItems count count items)
  | object members => object (pruneMembers count members)
  | null => null
  | bool b => bool b
  | number n => number n
  | string s => string s

/-- The first `left` items, each pruned. -/
def pruneItems (count : Nat) : Nat → List Json → List Json
  | 0, _ => []
  | _ + 1, [] => []
  | left + 1, item :: rest => prune count item :: pruneItems count left rest

/-- The members, each value pruned. -/
def pruneMembers (count : Nat) : List (String × Json) → List (String × Json)
  | [] => []
  | (key, value) :: rest => (key, prune count value) :: pruneMembers count rest

end

end JsonShelf.Json
