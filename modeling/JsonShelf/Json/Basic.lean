/-
**JSON values.**

Main definitions:

* `Json` — values; an object keeps its members in order;
* `Json.kind` — the name of the kind of a value;
* `Json.items?`, `Json.members?`, `Json.get?` — what is inside a container;
* `Json.canonical` — the value whose objects hold each key once;
* `Json.Canonical` — the values of that form.

Main results:

* `Json.canonical_canonical` — the result of `Json.canonical` has that form.
-/

import JsonShelf.Json.Number
import JsonShelf.Json.Members

set_option autoImplicit false

namespace JsonShelf

/-- A JSON value. -/
inductive Json where
  | null
  | bool (value : Bool)
  | number (value : Number)
  | string (value : String)
  | array (items : List Json)
  | object (members : List (String × Json))

namespace Json

instance : Inhabited Json := ⟨null⟩

/-! ### Equality -/

mutual

/-- Decides equality of values. -/
def decEq : (a b : Json) → Decidable (a = b)
  | null, null => isTrue rfl
  | bool a, bool b => decidable_of_iff (a = b) (by simp)
  | number a, number b => decidable_of_iff (a = b) (by simp)
  | string a, string b => decidable_of_iff (a = b) (by simp)
  | array a, array b =>
    match decEqItems a b with
    | isTrue h => isTrue (by rw [h])
    | isFalse h => isFalse fun e => h (array.inj e)
  | object a, object b =>
    match decEqMembers a b with
    | isTrue h => isTrue (by rw [h])
    | isFalse h => isFalse fun e => h (object.inj e)
  | null, bool _ | null, number _ | null, string _ | null, array _ | null, object _
  | bool _, null | bool _, number _ | bool _, string _ | bool _, array _ | bool _, object _
  | number _, null | number _, bool _ | number _, string _ | number _, array _
  | number _, object _
  | string _, null | string _, bool _ | string _, number _ | string _, array _
  | string _, object _
  | array _, null | array _, bool _ | array _, number _ | array _, string _ | array _, object _
  | object _, null | object _, bool _ | object _, number _ | object _, string _
  | object _, array _ => isFalse nofun

/-- Decides equality of the items of two arrays. -/
def decEqItems : (a b : List Json) → Decidable (a = b)
  | [], [] => isTrue rfl
  | [], _ :: _ | _ :: _, [] => isFalse nofun
  | x :: xs, y :: ys =>
    match decEq x y, decEqItems xs ys with
    | isTrue h, isTrue t => isTrue (by rw [h, t])
    | isFalse h, _ => isFalse fun e => h (List.cons.inj e).1
    | _, isFalse t => isFalse fun e => t (List.cons.inj e).2

/-- Decides equality of the members of two objects. -/
def decEqMembers : (a b : List (String × Json)) → Decidable (a = b)
  | [], [] => isTrue rfl
  | [], _ :: _ | _ :: _, [] => isFalse nofun
  | (k, x) :: xs, (l, y) :: ys =>
    match decEq x y, decEqMembers xs ys with
    | isTrue h, isTrue t =>
      if hk : k = l then isTrue (by rw [hk, h, t])
      else isFalse fun e => hk (congrArg Prod.fst (List.cons.inj e).1)
    | isFalse h, _ => isFalse fun e => h (congrArg Prod.snd (List.cons.inj e).1)
    | _, isFalse t => isFalse fun e => t (List.cons.inj e).2

end

instance : DecidableEq Json := decEq

/-! ### Looking inside -/

/-- The name of the kind of a value. -/
def kind : Json → String
  | null => "null"
  | bool _ => "boolean"
  | number _ => "number"
  | string _ => "string"
  | array _ => "array"
  | object _ => "object"

/-- The items of an array. -/
def items? : Json → Option (List Json)
  | array items => some items
  | _ => none

/-- The members of an object. -/
def members? : Json → Option (Members Json)
  | object members => some members
  | _ => none

/-- The value under a key of an object. -/
def get? (key : String) (value : Json) : Option Json :=
  value.members?.bind (Members.get? key)

/-- A whole number that 64 bits hold, or null. -/
def ofInt (value : Int) : Json :=
  ((Number.ofInt? value).map number).getD null

/-! ### Objects that hold each key once -/

mutual

/-- The value with every object collapsed: each key once, at its first place and with its last
value. -/
def canonical : Json → Json
  | array items => array (canonicalItems items)
  | object members => object (Members.collapse (canonicalMembers members))
  | null => null
  | bool value => bool value
  | number value => number value
  | string value => string value

/-- `Json.canonical` on each item. -/
def canonicalItems : List Json → List Json
  | [] => []
  | item :: rest => canonical item :: canonicalItems rest

/-- `Json.canonical` on the value of each member. -/
def canonicalMembers : List (String × Json) → List (String × Json)
  | [] => []
  | (key, value) :: rest => (key, canonical value) :: canonicalMembers rest

end

mutual

/-- Does every object in the value hold each key once? -/
def Canonical : Json → Prop
  | array items => CanonicalItems items
  | object members => (Members.keys members).Nodup ∧ CanonicalMembers members
  | null | bool _ | number _ | string _ => True

/-- `Json.Canonical` for each item. -/
def CanonicalItems : List Json → Prop
  | [] => True
  | item :: rest => Canonical item ∧ CanonicalItems rest

/-- `Json.Canonical` for the value of each member. -/
def CanonicalMembers : List (String × Json) → Prop
  | [] => True
  | (_, value) :: rest => Canonical value ∧ CanonicalMembers rest

end

theorem canonicalMembers_put {key : String} {value : Json} {members : Members Json}
    (hv : Canonical value) (hm : CanonicalMembers members) :
    CanonicalMembers (Members.put key value members) := by
  induction members with
  | nil => exact ⟨hv, trivial⟩
  | cons member rest ih =>
    obtain ⟨k, v⟩ := member
    simp only [Members.put]
    split
    · exact ⟨hv, hm.2⟩
    · exact ⟨hm.1, ih hm.2⟩

theorem canonicalMembers_merge {members patch : Members Json}
    (hm : CanonicalMembers members) (hp : CanonicalMembers patch) :
    CanonicalMembers (Members.merge members patch) := by
  induction patch generalizing members with
  | nil => exact hm
  | cons member rest ih =>
    obtain ⟨k, v⟩ := member
    exact ih (canonicalMembers_put hp.1 hm) hp.2

mutual

theorem canonical_canonical : (value : Json) → Canonical (canonical value)
  | null | bool _ | number _ | string _ => trivial
  | array items => canonicalItems_canonicalItems items
  | object members =>
    ⟨Members.nodup_keys_collapse _,
      canonicalMembers_merge trivial (canonicalMembers_canonicalMembers members)⟩

theorem canonicalItems_canonicalItems : (items : List Json) → CanonicalItems (canonicalItems items)
  | [] => trivial
  | item :: rest => ⟨canonical_canonical item, canonicalItems_canonicalItems rest⟩

theorem canonicalMembers_canonicalMembers :
    (members : List (String × Json)) → CanonicalMembers (canonicalMembers members)
  | [] => trivial
  | (_, value) :: rest => ⟨canonical_canonical value, canonicalMembers_canonicalMembers rest⟩

end

end Json

end JsonShelf
