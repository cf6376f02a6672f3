/-
**The parts of a shape.**

Main definitions:

* `Shape.Within` — a shape is another one or part of it, at some depth;
* `Shape.Distinct` — no object shape names two of its fields alike, at any depth.

Main results:

* `Shape.induction` — induction with the parts as members of lists;
* `Shape.distinct_array_iff`, `Shape.distinct_object_iff`, `Shape.distinct_union_iff` — what the
  names of a shape say about those of its parts.
-/

import JsonShelf.Json.Members
import JsonShelf.Shape.Basic
import Mathlib.Data.List.Basic

set_option autoImplicit false

namespace JsonShelf.Shape

variable {part shape : Shape}

/-- A property of all kinds without parts, and of each array, object or union of whose parts it
holds, holds of all shapes. -/
theorem induction {motive : Shape → Prop} (null : motive .null)
    (undefined : motive .undefined) (scalar : ∀ kind, motive (.scalar kind))
    (unknown : motive .unknown) (array : ∀ element, motive element → motive (.array element))
    (object : ∀ fields : List (String × Shape), (∀ field ∈ fields, motive field.2) →
      motive (.object fields))
    (union : ∀ members, (∀ member ∈ members, motive member) → motive (.union members))
    (shape : Shape) : motive shape := by
  refine @Shape.rec motive (fun fields => ∀ field ∈ fields, motive field.2)
    (fun members => ∀ member ∈ members, motive member) (fun field => motive field.2)
    null undefined scalar unknown array object union ?_ ?_ ?_ ?_ ?_ shape
  · exact nofun
  · exact fun field rest hfield hrest => List.forall_mem_cons.2 ⟨hfield, hrest⟩
  · exact nofun
  · exact fun member rest hmember hrest => List.forall_mem_cons.2 ⟨hmember, hrest⟩
  · exact fun name shape hshape => hshape

/-- The shape is the other one or a part of it, at some depth. -/
inductive Within (part : Shape) : Shape → Prop
  | self : Within part part
  | element {element : Shape} : Within part element → Within part (.array element)
  | field {fields : List (String × Shape)} {field : String × Shape} :
    field ∈ fields → Within part field.2 → Within part (.object fields)
  | member {members : List Shape} {member : Shape} :
    member ∈ members → Within part member → Within part (.union members)

/-- No object shape in the shape names two of its fields alike. -/
def Distinct (shape : Shape) : Prop :=
  ∀ fields, (Shape.object fields).Within shape → (Members.keys fields).Nodup

theorem distinct_array_iff {element : Shape} : (array element).Distinct ↔ element.Distinct := by
  constructor
  · exact fun h fields hwithin => h fields (.element hwithin)
  · rintro h fields (_ | hwithin)
    exact h fields hwithin

theorem distinct_object_iff {fields : List (String × Shape)} :
    (object fields).Distinct ↔
      (Members.keys fields).Nodup ∧ ∀ field ∈ fields, field.2.Distinct := by
  constructor
  · intro h
    exact ⟨h fields .self, fun field hfield _ hwithin => h _ (.field hfield hwithin)⟩
  · rintro ⟨hkeys, hfields⟩ _ (_ | _ | ⟨hfield, hwithin⟩)
    · exact hkeys
    · exact hfields _ hfield _ hwithin

theorem distinct_union_iff {members : List Shape} :
    (union members).Distinct ↔ ∀ member ∈ members, member.Distinct := by
  constructor
  · exact fun h member hmember _ hwithin => h _ (.member hmember hwithin)
  · rintro h _ (_ | _ | _ | ⟨hmember, hwithin⟩)
    exact h _ hmember _ hwithin

end JsonShelf.Shape
