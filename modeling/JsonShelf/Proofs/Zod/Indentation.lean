/-
**The lines of an expression.**

An object has each of its fields and its closing brace on a line of their own, behind blanks.  No
other line feed stands in the text of an expression: keys hold none, and nothing else is taken over
from the data.

Main results:

* `Zod.indented_fieldText` — a field on a line of its own is indented;
* `Zod.indented_chars` — **the lines of an expression after the first begin with a blank or a
  closing brace**.
-/

import JsonShelf.Proofs.Text.Lines
import JsonShelf.Proofs.Zod.Literals
import JsonShelf.Proofs.Zod.Parts

set_option autoImplicit false

namespace JsonShelf.Zod

open Text (Indented)

/-! ### Fields -/

/-- The indentation of a closing brace. -/
theorem indented_closing (level : ℕ) : Indented ('\n' :: (indent level ++ ['\x7d', ')'])) := by
  cases level with
  | zero => exact Indented.newline (.inr rfl) (Text.indented_of_notMem (by decide))
  | succ level =>
      have hblanks : Indented
          (' ' :: ' ' :: (List.replicate (2 * level) ' ' ++ ['\x7d', ')'])) :=
        Text.indented_of_notMem (by simp)
      exact hblanks.newline (.inl rfl)

theorem indented_fieldText {level : ℕ} {field : String × Zod}
    (ih : Indented (chars (level + 1) field.2)) :
    Indented ('\n' :: fieldText (level + 1) field) := by
  have hkey : Indented (' ' :: (List.replicate (2 * level + 1) ' ' ++ key field.1 ++ [':', ' '])) :=
    Text.indented_of_notMem (by simp [newline_notMem_key])
  have htext : fieldText (level + 1) field =
      ' ' :: (List.replicate (2 * level + 1) ' ' ++ key field.1 ++ [':', ' ']) ++
        chars (level + 1) field.2 := by
    simp [fieldText, indent, Nat.mul_add, List.replicate_succ]
  rw [htext]
  exact (hkey.newline (.inl rfl)).append ih

/-- The arguments of an expression are indented if its parts are. -/
theorem indented_object {level : ℕ} {fields : List (String × Zod)}
    (ih : ∀ field ∈ fields, Indented (chars (level + 1) field.2)) :
    Indented (arguments level (object fields)) := by
  cases fields with
  | nil => exact Text.indented_of_notMem (by simp [arguments])
  | cons field rest =>
      obtain ⟨hfield, hrest⟩ := List.forall_mem_cons.1 ih
      have hlines : Indented
          (rest.flatMap fun field => ',' :: '\n' :: fieldText (level + 1) field) :=
        Text.indented_flatMap fun field hmem =>
          Text.indented_cons (by decide) (indented_fieldText (hrest field hmem))
      exact Text.indented_cons (by decide) (((indented_fieldText hfield).append hlines).append
        (indented_closing level))

theorem indented_union {level : ℕ} {members : List Zod}
    (ih : ∀ member ∈ members, Indented (chars level member)) :
    Indented (arguments level (union members)) := by
  cases members with
  | nil => exact Text.indented_of_notMem (by simp [arguments])
  | cons member rest =>
      obtain ⟨hmember, hrest⟩ := List.forall_mem_cons.1 ih
      have hitems : Indented (rest.flatMap fun member => ',' :: ' ' :: chars level member) :=
        Text.indented_flatMap fun member hmem =>
          Text.indented_cons (by decide) (Text.indented_cons (by decide) (hrest member hmem))
      exact Text.indented_cons (by decide) ((hmember.append hitems).append
        (Text.indented_of_notMem (by decide)))

theorem newline_notMem_method (value : Zod) : '\n' ∉ method value := by
  cases value <;> simp [method]

theorem indented_of_arguments {level : ℕ} {value : Zod} (h : Indented (arguments level value)) :
    Indented (chars level value) := by
  rw [chars_eq]
  have hmethod : Indented (method value) := Text.indented_of_notMem (newline_notMem_method value)
  exact Text.indented_cons (by decide) (Text.indented_cons (by decide)
    (hmethod.append (Text.indented_cons (by decide) h)))

/-- The lines of an expression are indented. -/
theorem indented_chars (level : ℕ) (value : Zod) : Indented (chars level value) := by
  induction value using Zod.induction generalizing level with
  | null | undefined | unknown | string | boolean =>
      exact indented_of_arguments (Text.indented_of_notMem (by simp [arguments]))
  | number isWhole =>
      refine indented_of_arguments (Text.indented_of_notMem ?_)
      cases isWhole <;> simp [arguments]
  | array element ih =>
      exact indented_of_arguments ((ih level).append (Text.indented_of_notMem (by decide)))
  | object fields ih =>
      exact indented_of_arguments (indented_object fun field hfield => ih field hfield (level + 1))
  | union members ih =>
      exact indented_of_arguments (indented_union fun member hmember => ih member hmember level)

end JsonShelf.Zod
