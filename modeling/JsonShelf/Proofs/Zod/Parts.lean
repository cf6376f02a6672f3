/-
**The parts of the text of an expression.**

An expression begins with the name of its method and an opening parenthesis, and it is closed before
anything but a point can follow.

Main definitions:

* `Zod.method`, `Zod.arguments` — the two parts of the text of an expression;
* `Zod.Follows` — a text that can follow an expression.

Main results:

* `Zod.induction` — induction with the parts as members of lists;
* `Zod.ofFields_eq_map`, `Zod.ofMembers_eq_map` — the samples that each part gets;
* `Zod.chars_eq` — the text in its parts;
* `Zod.infix_chars_object`, `Zod.infix_chars_union` — the texts of parts are pieces of the text.
-/

import JsonShelf.Zod.Expression
import Mathlib.Data.List.Basic

set_option autoImplicit false

namespace JsonShelf.Zod

/-! ### The parts of an expression -/

/-- A property of all kinds without parts, and of each array, object or union of whose parts it
holds, holds of all expressions. -/
theorem induction {motive : Zod → Prop} (null : motive .null) (undefined : motive .undefined)
    (unknown : motive .unknown) (string : motive .string) (boolean : motive .boolean)
    (number : ∀ isWhole, motive (.number isWhole))
    (array : ∀ element, motive element → motive (.array element))
    (object : ∀ fields : List (String × Zod), (∀ field ∈ fields, motive field.2) →
      motive (.object fields))
    (union : ∀ members, (∀ member ∈ members, motive member) → motive (.union members))
    (value : Zod) : motive value := by
  refine @Zod.rec motive (fun fields => ∀ field ∈ fields, motive field.2)
    (fun members => ∀ member ∈ members, motive member) (fun field => motive field.2)
    null undefined unknown string boolean number array object union ?_ ?_ ?_ ?_ ?_ value
  · exact nofun
  · exact fun field rest hfield hrest => List.forall_mem_cons.2 ⟨hfield, hrest⟩
  · exact nofun
  · exact fun member rest hmember hrest => List.forall_mem_cons.2 ⟨hmember, hrest⟩
  · exact fun name value hvalue => hvalue

theorem ofFields_eq_map (fields : List (String × Shape)) (samples : List Json) :
    ofFields fields samples = fields.map fun field =>
      (field.1, ofShape field.2 (samples.filterMap (Json.get? field.1))) := by
  induction fields with
  | nil => rfl
  | cons field rest ih => rw [ofFields, ih, List.map_cons]

theorem keys_ofFields (fields : List (String × Shape)) (samples : List Json) :
    Members.keys (ofFields fields samples) = Members.keys fields := by
  rw [ofFields_eq_map, Members.keys, List.map_map]
  rfl

theorem ofMembers_eq_map (members : List Shape) (samples : List Json) :
    ofMembers members samples = members.map fun member =>
      ofShape member (samples.filter fun sample => Shape.infer sample = member) := by
  induction members with
  | nil => rfl
  | cons member rest ih => rw [ofMembers, ih, List.map_cons]

/-! ### The parts of a text -/

/-- The name of the method that makes an expression. -/
def method : Zod → List Char
  | null => ['n', 'u', 'l', 'l']
  | undefined => ['u', 'n', 'd', 'e', 'f', 'i', 'n', 'e', 'd']
  | unknown => ['u', 'n', 'k', 'n', 'o', 'w', 'n']
  | string => ['s', 't', 'r', 'i', 'n', 'g']
  | boolean => ['b', 'o', 'o', 'l', 'e', 'a', 'n']
  | number _ => ['n', 'u', 'm', 'b', 'e', 'r']
  | array _ => ['a', 'r', 'r', 'a', 'y']
  | object _ => ['o', 'b', 'j', 'e', 'c', 't']
  | union _ => ['u', 'n', 'i', 'o', 'n']

/-- A field of an object on a line of its own, without what separates it from the others. -/
def fieldText (level : ℕ) (field : String × Zod) : List Char :=
  indent level ++ key field.1 ++ ':' :: ' ' :: chars level field.2

/-- What stands in an expression after the opening parenthesis. -/
def arguments (level : ℕ) : Zod → List Char
  | null | undefined | unknown | string | boolean | number false => [')']
  | number true => [')', '.', 'i', 'n', 't', '(', ')']
  | array element => chars level element ++ [')']
  | object [] => ['\x7b', '\x7d', ')']
  | object (field :: rest) =>
    '\x7b' :: '\n' :: (fieldText (level + 1) field ++
      rest.flatMap (fun field => ',' :: '\n' :: fieldText (level + 1) field) ++
      '\n' :: (indent level ++ ['\x7d', ')']))
  | union [] => ['[', ']', ')']
  | union (member :: rest) =>
    '[' :: (chars level member ++
      rest.flatMap (fun member => ',' :: ' ' :: chars level member) ++ [']', ')'])

theorem fieldChars_cons (level : ℕ) (field : String × Zod) (rest : List (String × Zod)) :
    fieldChars level (field :: rest) = fieldText level field ++
      rest.flatMap (fun field => ',' :: '\n' :: fieldText level field) := by
  induction rest generalizing field with
  | nil => simp [fieldChars, fieldText]
  | cons next rest ih => simp [fieldChars, ih, fieldText]

theorem memberChars_cons (level : ℕ) (member : Zod) (rest : List Zod) :
    memberChars level (member :: rest) = chars level member ++
      rest.flatMap (fun member => ',' :: ' ' :: chars level member) := by
  induction rest generalizing member with
  | nil => simp [memberChars]
  | cons next rest ih => simp [memberChars, ih]

theorem chars_array (level : ℕ) (element : Zod) :
    chars level (array element) = "z.array(".toList ++ chars level element ++ [')'] := rfl

theorem chars_object_cons (level : ℕ) (field : String × Zod) (rest : List (String × Zod)) :
    chars level (object (field :: rest)) =
      "z.object(\x7b\n".toList ++ fieldChars (level + 1) (field :: rest) ++
        '\n' :: indent level ++ "\x7d)".toList := rfl

theorem chars_union (level : ℕ) (members : List Zod) :
    chars level (union members) =
      "z.union([".toList ++ memberChars level members ++ "])".toList := rfl

/-- The text of an expression in its parts. -/
theorem chars_eq (level : ℕ) (value : Zod) :
    chars level value = 'z' :: '.' :: (method value ++ '(' :: arguments level value) := by
  cases value with
  | null | undefined | unknown | string | boolean => rfl
  | number isWhole => cases isWhole <;> rfl
  | array element => simp [chars_array, method, arguments]
  | object fields =>
      cases fields with
      | nil => rfl
      | cons field rest => simp [chars_object_cons, method, arguments, fieldChars_cons]
  | union members =>
      cases members with
      | nil => rfl
      | cons member rest => simp [chars_union, method, arguments, memberChars_cons]

theorem infix_flatMap {α : Type} {x : α} {xs : List α} (h : x ∈ xs) (text : α → List Char) :
    text x <:+: xs.flatMap text := by
  rw [List.flatMap_def]
  exact List.infix_of_mem_flatten (List.mem_map_of_mem h)

/-- The text of the value of a field is a piece of the text of the object. -/
theorem infix_chars_object {level : ℕ} {fields : List (String × Zod)} {field : String × Zod}
    (h : field ∈ fields) : chars (level + 1) field.2 <:+: chars level (object fields) := by
  have hfield : chars (level + 1) field.2 <:+: fieldText (level + 1) field :=
    ⟨indent (level + 1) ++ key field.1 ++ [':', ' '], [], by simp [fieldText]⟩
  cases fields with
  | nil => cases h
  | cons first rest =>
      rw [chars_object_cons, fieldChars_cons]
      refine List.infix_append_of_infix_left (List.infix_append_of_infix_left
        (List.infix_append_of_infix_right ?_))
      rcases List.mem_cons.1 h with rfl | h
      · exact List.infix_append_of_infix_left hfield
      · refine List.infix_append_of_infix_right (hfield.trans ?_)
        have hline := infix_flatMap h fun field => ',' :: '\n' :: fieldText (level + 1) field
        exact (List.infix_cons (List.infix_cons (List.infix_refl _))).trans hline

/-- The text of a member is a piece of the text of the union. -/
theorem infix_chars_union {level : ℕ} {members : List Zod} {member : Zod} (h : member ∈ members) :
    chars level member <:+: chars level (union members) := by
  cases members with
  | nil => cases h
  | cons first rest =>
      rw [chars_union, memberChars_cons]
      refine List.infix_append_of_infix_left (List.infix_append_of_infix_right ?_)
      rcases List.mem_cons.1 h with rfl | h
      · exact List.infix_append_of_infix_left (List.infix_refl _)
      · have hitem := infix_flatMap h fun member => ',' :: ' ' :: chars level member
        exact List.infix_append_of_infix_right
          ((List.infix_cons (List.infix_cons (List.infix_refl _))).trans hitem)

/-! ### What follows an expression -/

/-- The text can follow an expression: it does not go on with a point. -/
def Follows (r : List Char) : Prop := r.head? ≠ some '.'

theorem follows_cons {c : Char} (h : c ≠ '.') (r : List Char) : Follows (c :: r) := by
  simpa [Follows] using h

end JsonShelf.Zod
