/-
**Unions in normal form.**

A union is meant to hold at least two members, no two of them alike and none of them a union.  The
constructor of unions opens the unions that it is given, but not those inside them: it ends in that
form unless a union within a union comes to light.

Main definitions:

* `Shape.IsUnion` — the shape is a union;
* `Shape.Normalised` — the form that a union is meant to have.

Main results:

* `Shape.alternatives_unionOf` — members in that form make a union of their different alternatives;
* `Shape.normalised_unionOf_iff` — **when the constructor ends in that form**;
* `Shape.not_normalised_unionOf_nested` — a union that holds a union is opened once only.
-/

import JsonShelf.Proofs.Shape.Union

set_option autoImplicit false

namespace JsonShelf.Shape

variable {shape : Shape} {members : List Shape}

/-- The shape is a union. -/
def IsUnion (shape : Shape) : Prop :=
  ∃ members, shape = union members

/-- A union has at least two members, none of them a union and no two of them equal. -/
def Normalised : Shape → Prop
  | union members => 2 ≤ members.length ∧ (∀ member ∈ members, ¬member.IsUnion) ∧ members.Nodup
  | null | undefined | scalar _ | unknown | array _ | object _ => True

theorem normalised_of_not_isUnion (h : ¬shape.IsUnion) : shape.Normalised := by
  cases shape with
  | union members => exact absurd ⟨members, rfl⟩ h
  | null | undefined | scalar | unknown | array | object => trivial

theorem not_isUnion_of_mem_alternatives {member : Shape} (h : member.Normalised)
    (hshape : shape ∈ alternatives member) : ¬shape.IsUnion := by
  cases member with
  | union members => exact h.2.1 shape hshape
  | null | undefined | scalar | unknown | array | object =>
      rw [List.mem_singleton.1 hshape]
      rintro ⟨members, hunion⟩
      cases hunion

theorem alternatives_ne_nil (h : shape.Normalised) : alternatives shape ≠ [] := by
  cases shape with
  | union members =>
      intro hnil
      have hlength := h.1
      rw [show members = [] from hnil] at hlength
      exact absurd hlength (by decide)
  | null | undefined | scalar | unknown | array | object => exact List.cons_ne_nil _ _

theorem alternatives_of_not_isUnion (h : ¬shape.IsUnion) : alternatives shape = [shape] := by
  cases shape with
  | union members => exact absurd ⟨members, rfl⟩ h
  | null | undefined | scalar | unknown | array | object => rfl

/-- The alternatives of a union are the different ones of its members. -/
theorem alternatives_unionOf (hne : members ≠ []) (h : ∀ member ∈ members, member.Normalised) :
    alternatives (unionOf members) = distinctAlternatives members := by
  rcases unionOf_cases members with ⟨hnone, -⟩ | ⟨only, hone, hunion⟩ | ⟨-, hunion⟩
  · obtain ⟨member, hmember⟩ := List.exists_mem_of_ne_nil members hne
    obtain ⟨shape, hshape⟩ := List.exists_mem_of_ne_nil _ (alternatives_ne_nil (h member hmember))
    have hmem := mem_distinctAlternatives.2 ⟨member, hmember, hshape⟩
    rw [hnone] at hmem
    cases hmem
  · -- the only alternative came from a member, so it is no union
    obtain ⟨member, hmember, hshape⟩ :=
      mem_distinctAlternatives.1 (hone ▸ List.mem_singleton_self only)
    rw [hunion, hone]
    exact alternatives_of_not_isUnion (not_isUnion_of_mem_alternatives (h member hmember) hshape)
  · rw [hunion]
    rfl

/-- The union of at least two alternatives has the form if it holds no union. -/
theorem normalised_union_distinctAlternatives_iff (h : 2 ≤ (distinctAlternatives members).length) :
    (union (distinctAlternatives members)).Normalised ↔
      ∀ member ∈ members, ∀ shape ∈ alternatives member, ¬shape.IsUnion := by
  constructor
  · rintro ⟨-, hflat, -⟩ member hmember shape hshape
    exact hflat shape (mem_distinctAlternatives.2 ⟨member, hmember, hshape⟩)
  · intro hflat
    refine ⟨h, ?_, nodup_distinctAlternatives members⟩
    intro shape hshape
    obtain ⟨member, hmember, hshape⟩ := mem_distinctAlternatives.1 hshape
    exact hflat member hmember shape hshape

/-- **The constructor of unions ends in normal form exactly if no union comes to light when the
given ones are opened, or nothing but one shape does, and that has the form.** -/
theorem normalised_unionOf_iff (members : List Shape) :
    (unionOf members).Normalised ↔
      (∀ member ∈ members, ∀ shape ∈ alternatives member, ¬shape.IsUnion) ∨
        ∃ only, only.Normalised ∧
          ∀ member ∈ members, ∀ shape ∈ alternatives member, shape = only := by
  rcases unionOf_cases members with ⟨hnone, hunion⟩ | ⟨only, hone, hunion⟩ | ⟨htwo, hunion⟩
  · rw [hunion]
    refine iff_of_true trivial (.inl ?_)
    intro member hmember shape hshape
    have hmem := mem_distinctAlternatives.2 ⟨member, hmember, hshape⟩
    rw [hnone] at hmem
    cases hmem
  · -- one shape comes to light, whether it is a union or not
    have honly : ∀ shape, (∃ member ∈ members, shape ∈ alternatives member) ↔ shape = only := by
      intro shape
      rw [← mem_distinctAlternatives, hone, List.mem_singleton]
    rw [hunion]
    constructor
    · intro hnormal
      refine .inr ⟨only, hnormal, ?_⟩
      exact fun member hmember shape hshape => (honly shape).1 ⟨member, hmember, hshape⟩
    · obtain ⟨member, hmember, hshape⟩ := (honly only).2 rfl
      rintro (hflat | ⟨other, hnormal, hall⟩)
      · exact normalised_of_not_isUnion (hflat member hmember only hshape)
      · rw [hall member hmember only hshape]
        exact hnormal
  · rw [hunion, normalised_union_distinctAlternatives_iff htwo]
    refine (or_iff_left ?_).symm
    rintro ⟨only, -, hall⟩
    -- equal shapes come to light once
    have hsame : distinctAlternatives members =
        List.replicate (distinctAlternatives members).length only := by
      refine List.eq_replicate_of_mem ?_
      intro shape hshape
      obtain ⟨member, hmember, hshape⟩ := mem_distinctAlternatives.1 hshape
      exact hall member hmember shape hshape
    have hnodup := nodup_distinctAlternatives members
    rw [hsame, List.nodup_replicate] at hnodup
    omega

/-- A union of a text and a truth value, next to a number and another text. -/
def flatMembers : List Shape :=
  [.scalar .number, .union [.scalar .string, .scalar .boolean], .scalar .string]

/-- No union within a union comes to light. -/
theorem normalised_unionOf_iff_flatMembers :
    unionOf flatMembers = .union [.scalar .number, .scalar .string, .scalar .boolean] ∧
      (unionOf flatMembers).Normalised := by
  refine ⟨by decide, (normalised_unionOf_iff flatMembers).2 (.inl ?_)⟩
  intro member hmember shape hshape
  have hscalar : ∃ kind, shape = .scalar kind := by
    simp only [flatMembers, List.mem_cons, List.not_mem_nil, or_false] at hmember
    rcases hmember with rfl | rfl | rfl
    all_goals
      simp only [alternatives, List.mem_cons, List.not_mem_nil, or_false] at hshape
    · exact ⟨_, hshape⟩
    · rcases hshape with rfl | rfl <;> exact ⟨_, rfl⟩
    · exact ⟨_, hshape⟩
  obtain ⟨kind, rfl⟩ := hscalar
  rintro ⟨members, h⟩
  cases h

/-- A union whose first member is a union itself. -/
def nestedUnion : Shape :=
  .union [.union [.scalar .string, .scalar .number], .null]

/-- **A union that holds a union is opened once only**: the inner one stays among the members. -/
theorem not_normalised_unionOf_nested : ¬(unionOf [nestedUnion]).Normalised := by
  have hsame : unionOf [nestedUnion] = nestedUnion := by decide
  rw [hsame]
  rintro ⟨-, hflat, -⟩
  exact hflat _ List.mem_cons_self ⟨_, rfl⟩

/-- Neither is a single shape that comes to light looked at: a union without members stays. -/
example : unionOf [.union [.union []]] = .union [] := by decide

end JsonShelf.Shape
