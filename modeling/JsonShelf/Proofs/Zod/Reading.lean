/-
**Expressions read back.**

What is read from the text of an expression is that expression: each part is read by the reader of
its kind, up to the character that the text has after it.

Main definitions:

* `Zod.Reads` — a reader reads an expression from its text;
* `Zod.objectText` — the object literal in the text of an object.

Main results:

* `Zod.readObject_objectText` — **the object literal of some fields has their names, in order**;
* `Zod.read?_chars`, `Zod.ofText?_chars` — **the text of an expression reads back**;
* `Zod.chars_injective` — the text determines the expression.
-/

import JsonShelf.Proofs.Json.RoundTrip
import JsonShelf.Proofs.Zod.Reader

set_option autoImplicit false

namespace JsonShelf.Zod

variable {c : Char} {cs r : List Char} {bound level : ℕ}

/-! ### Properties are read -/

/-- There is no space at the start of an expression. -/
theorem skip_chars (level : ℕ) (value : Zod) (r : List Char) :
    skip (chars level value ++ r) = chars level value ++ r := by
  rw [chars_eq]
  rfl

/-- The name and the value of a field, as a property with a plain name. -/
def plainProperty {α : Type} (field : String × α) : PropertyName × α :=
  (⟨field.1, false⟩, field.2)

/-- A reader reads an expression from its text, whatever may follow it. -/
def Reads (readValue : List Char → Option (Zod × List Char)) (level : ℕ) (value : Zod) : Prop :=
  ∀ r, Follows (skip r) → readValue (chars level value ++ r) = some (value, skip r)

/-- The key and the value of a field. -/
def propertyText (level : ℕ) (field : String × Zod) : List Char :=
  key field.1 ++ ':' :: ' ' :: chars level field.2

theorem readProperty?_propertyText {readValue : List Char → Option (Zod × List Char)}
    {field : String × Zod} (h : Reads readValue level field.2) (hr : Follows (skip r)) :
    readProperty? readValue (propertyText level field ++ r) =
      some (plainProperty field, skip r) := by
  have htext : propertyText level field ++ r =
      key field.1 ++ ':' :: ' ' :: (chars level field.2 ++ r) := by simp [propertyText]
  have hspace : skip (' ' :: (chars level field.2 ++ r)) = chars level field.2 ++ r :=
    skip_chars level field.2 r
  rw [htext, readProperty?, readPropertyName?_key]
  simp only [Option.bind_eq_bind, Option.bind_some, expect?_self, hspace, h r hr]
  rfl

/-! ### Expressions are read -/

theorem isSpace_of_mem_indent (h : c ∈ '\n' :: indent level) : isSpace c = true := by
  rcases List.mem_cons.1 h with rfl | h
  · rfl
  · rw [List.eq_of_mem_replicate h]
    rfl

theorem skip_newline_indent (level : ℕ) (cs : List Char) :
    skip ('\n' :: (indent level ++ cs)) = skip cs := by
  rw [← List.cons_append]
  exact skip_append (fun c hc => isSpace_of_mem_indent hc) cs

theorem isSpace_of_beginsIdentifier (h : beginsIdentifier c = true) : isSpace c = false := by
  by_contra hspace
  simp only [isSpace, Bool.not_eq_false, Bool.or_eq_true, beq_iff_eq] at hspace
  rcases hspace with ((rfl | rfl) | rfl) | rfl <;> cases h

theorem exists_cons_propertyText (level : ℕ) (field : String × Zod) :
    ∃ c cs, propertyText level field = c :: cs ∧ isSpace c = false ∧ c ≠ '\x7d' := by
  obtain ⟨c, cs, hkey, hc⟩ := exists_cons_key field.1
  refine ⟨c, cs ++ ':' :: ' ' :: chars level field.2, ?_, ?_, ?_⟩
  · rw [propertyText, hkey, List.cons_append]
  · rcases hc with hc | rfl
    · exact isSpace_of_beginsIdentifier hc
    · rfl
  · rintro rfl
    rcases hc with hc | hc <;> cases hc

/-- The object literal in the text of an object. -/
def objectText (level : ℕ) : List (String × Zod) → List Char
  | [] => ['\x7b', '\x7d']
  | field :: rest =>
    '\x7b' :: '\n' :: (fieldText (level + 1) field ++
      rest.flatMap (fun field => ',' :: '\n' :: fieldText (level + 1) field) ++
      '\n' :: (indent level ++ ['\x7d']))

theorem arguments_object (level : ℕ) (fields : List (String × Zod)) :
    arguments level (object fields) = objectText level fields ++ [')'] := by
  cases fields with
  | nil => rfl
  | cons field rest => simp [arguments, objectText]

/-- **The object literal of some fields has their names, in order**, all of them plain. -/
theorem readObject_objectText {readValue : List Char → Option (Zod × List Char)}
    {fields : List (String × Zod)} (h : ∀ field ∈ fields, Reads readValue (level + 1) field.2)
    (hb : fields.length < bound) (r : List Char) :
    readObject readValue bound (objectText level fields ++ r) =
      some (fields.map plainProperty, skip r) := by
  cases fields with
  | nil =>
      obtain ⟨b, rfl⟩ : ∃ b, bound = b + 1 := ⟨bound - 1, by omega⟩
      exact @readItems_close b _ (readProperty? readValue) '\x7d' r
  | cons field rest =>
      rw [List.length_cons] at hb
      have htext : objectText level (field :: rest) ++ r =
          '\x7b' :: '\n' :: (indent (level + 1) ++ (propertyText (level + 1) field ++
            (rest.flatMap (fun field => ',' :: (('\n' :: indent (level + 1)) ++
              propertyText (level + 1) field)) ++ '\n' :: (indent level ++ '\x7d' :: r)))) := by
        simp [objectText, fieldText, propertyText]
      have hstop : skip ('\n' :: (indent level ++ '\x7d' :: r)) = '\x7d' :: r := by
        rw [skip_newline_indent, skip_cons rfl]
      have hspace : ∀ c ∈ '\n' :: indent (level + 1), isSpace c = true :=
        fun c hc => isSpace_of_mem_indent hc
      have hlist := readItems_flatMap hspace hstop (by decide) (by decide)
        (fun f _ => exists_cons_propertyText (level + 1) f)
        (fun f hf r hr => readProperty?_propertyText (h f hf) hr)
        (by omega : rest.length < bound)
      obtain ⟨c, cs, hfirst, hc, -⟩ := exists_cons_propertyText (level + 1) field
      have hopen : ∀ after, skip ('\n' :: (indent (level + 1) ++
          (propertyText (level + 1) field ++ after))) =
            propertyText (level + 1) field ++ after := by
        intro after
        rw [skip_newline_indent, hfirst]
        exact skip_cons hc _
      rw [htext, readObject, expect?_self, hopen]
      exact hlist

theorem isIdentifier_method (value : Zod) : isIdentifier (method value) = true := by
  cases value <;> rfl

/-- The text of an expression begins with the call of its method. -/
theorem readCall?_chars (level : ℕ) (value : Zod) (r : List Char) :
    readCall? (chars level value ++ r) =
      some (String.ofList (method value), skip (arguments level value ++ r)) := by
  have htext : chars level value ++ r =
      ['z'] ++ '.' :: (method value ++ '(' :: (arguments level value ++ r)) := by
    rw [chars_eq]
    simp
  have hlibrary :
      readName? (['z'] ++ '.' :: (method value ++ '(' :: (arguments level value ++ r))) =
      some ("z", skip ('.' :: (method value ++ '(' :: (arguments level value ++ r)))) :=
    readName?_append rfl rfl _
  have hmethod := readName?_append (isIdentifier_method value) (d := '(') rfl
    (arguments level value ++ r)
  have hname : skip (method value ++ '(' :: (arguments level value ++ r)) =
      method value ++ '(' :: (arguments level value ++ r) := by
    cases value <;> rfl
  rw [htext, readCall?, hlibrary]
  simp only [Option.bind_eq_bind, Option.bind_some, skip_cons (c := '.') rfl, expect?_self, hname,
    hmethod, skip_cons (c := '(') rfl]
  rfl

theorem length_chars_array (level : ℕ) (element : Zod) :
    (chars level (array element)).length = (chars level element).length + 9 := by
  simp [chars_array]

/-- No field has a longer text than the object, and there are fewer fields than characters. -/
theorem length_chars_object (level : ℕ) (fields : List (String × Zod)) :
    (∀ field ∈ fields, (chars (level + 1) field.2).length < (chars level (object fields)).length) ∧
      fields.length + 1 < (chars level (object fields)).length := by
  cases fields with
  | nil => exact ⟨nofun, (by decide : 1 < "z.object(\x7b\x7d)".toList.length)⟩
  | cons field rest =>
      have hcount := Json.length_le_flatMap_comma
        (fun field => '\n' :: fieldText (level + 1) field) rest
      have hfield : ∀ f, (chars (level + 1) f.2).length ≤ (fieldText (level + 1) f).length := by
        intro f
        simp only [fieldText, List.length_append, List.length_cons]
        omega
      rw [chars_eq, arguments_object]
      simp only [objectText, List.length_append, List.length_cons, List.length_nil]
      refine ⟨List.forall_mem_cons.2 ⟨?_, ?_⟩, by omega⟩
      · have := hfield field
        omega
      · intro f hf
        have := hfield f
        have := Json.length_le_flatMap
          (fun field => ',' :: '\n' :: fieldText (level + 1) field) hf
        simp only [List.length_cons] at this
        omega

/-- No member has a longer text than the union, and there are fewer members than characters. -/
theorem length_chars_union (level : ℕ) (members : List Zod) :
    (∀ member ∈ members, (chars level member).length < (chars level (union members)).length) ∧
      members.length + 1 < (chars level (union members)).length := by
  cases members with
  | nil => exact ⟨nofun, (by decide : 1 < ("z.union([".toList ++ [] ++ "])".toList).length)⟩
  | cons member rest =>
      have hcount := Json.length_le_flatMap_comma (fun member => ' ' :: chars level member) rest
      rw [chars_eq]
      simp only [arguments, List.length_append, List.length_cons, List.length_nil]
      refine ⟨List.forall_mem_cons.2 ⟨by omega, ?_⟩, by omega⟩
      intro m hm
      have := Json.length_le_flatMap (fun member => ',' :: ' ' :: chars level member) hm
      simp only [List.length_cons] at this
      omega

theorem readMark_of_follows (h : Follows cs) : readMark cs = (false, cs) := by
  simp [readMark, expect?_point h]

theorem skip_parenthesis (cs : List Char) : skip (')' :: cs) = ')' :: cs := rfl

variable {readValue : List Char → Option (Zod × List Char)}

theorem readArguments?_number (isWhole : Bool) (hr : Follows (skip r)) :
    readArguments? readValue bound "number" (skip (arguments level (number isWhole) ++ r)) =
      some (number isWhole, skip r) := by
  cases isWhole with
  | false =>
      have hmark := readMark_of_follows hr
      simp [readArguments?, arguments, skip_parenthesis, expect?_self, hmark]
  | true =>
      have hmark : readMark ('.' :: 'i' :: 'n' :: 't' :: '(' :: ')' :: r) = (true, skip r) := by
        rfl
      have hskip : skip ('.' :: 'i' :: 'n' :: 't' :: '(' :: ')' :: r) =
          '.' :: 'i' :: 'n' :: 't' :: '(' :: ')' :: r := rfl
      simp [readArguments?, arguments, skip_parenthesis, expect?_self, hskip, hmark]

theorem readArguments?_array {element : Zod} (h : Reads readValue level element) (r : List Char) :
    readArguments? readValue bound "array" (skip (arguments level (array element) ++ r)) =
      some (array element, skip r) := by
  have hread := h (')' :: r) (follows_cons (by decide) r)
  rw [arguments, List.append_assoc, skip_chars]
  simp [readArguments?, hread, skip_parenthesis, expect?_self]

theorem readArguments?_object {fields : List (String × Zod)}
    (h : ∀ field ∈ fields, Reads readValue (level + 1) field.2) (hb : fields.length < bound)
    (r : List Char) :
    readArguments? readValue bound "object" (skip (arguments level (object fields) ++ r)) =
      some (object fields, skip r) := by
  have hread := readObject_objectText h hb (')' :: r)
  have hskip : skip (objectText level fields ++ ')' :: r) =
      objectText level fields ++ ')' :: r := by
    cases fields <;> rfl
  rw [arguments_object, List.append_assoc, List.singleton_append, hskip]
  simp [readArguments?, hread, plainProperty, Function.comp_def, skip_parenthesis, expect?_self]

theorem exists_cons_chars (level : ℕ) (value : Zod) :
    ∃ c cs, chars level value = c :: cs ∧ isSpace c = false ∧ c ≠ ']' :=
  ⟨'z', _, chars_eq level value, rfl, by decide⟩

theorem readArguments?_union {members : List Zod}
    (h : ∀ member ∈ members, Reads readValue level member) (hb : members.length < bound)
    (r : List Char) :
    readArguments? readValue bound "union" (skip (arguments level (union members) ++ r)) =
      some (union members, skip r) := by
  obtain ⟨items, htext, hitems⟩ : ∃ items, arguments level (union members) ++ r = '[' :: items ∧
      readItems readValue ']' bound (skip items) = some (members, ')' :: r) := by
    cases members with
    | nil =>
        obtain ⟨b, rfl⟩ : ∃ b, bound = b + 1 := ⟨bound - 1, by omega⟩
        exact ⟨']' :: ')' :: r, rfl, readItems_close ']' (')' :: r)⟩
    | cons member rest =>
        rw [List.length_cons] at hb
        refine ⟨chars level member ++ (rest.flatMap (fun member => ',' :: ([' '] ++
          chars level member)) ++ ']' :: ')' :: r), by simp [arguments], ?_⟩
        rw [skip_chars]
        have hspace : ∀ c ∈ [' '], isSpace c = true := List.forall_mem_singleton.2 rfl
        have hstop : skip (']' :: ')' :: r) = ']' :: ')' :: r := rfl
        have hread : ∀ m ∈ member :: rest, ∀ r, Follows (skip r) →
            readValue (chars level m ++ r) = some (id m, skip r) := h
        have hlist := readItems_flatMap hspace hstop (by decide) (by decide)
          (fun m _ => exists_cons_chars level m) hread (by omega : rest.length < bound)
        rwa [List.map_id] at hlist
  have hskip : skip ('[' :: items) = '[' :: items := rfl
  rw [htext, hskip]
  simp [readArguments?, hitems, expect?_self]

/-- An expression is read if its arguments are, for every bound that its text gives. -/
theorem reads_of_arguments {value : Zod}
    (h : ∀ b r, (chars level value).length ≤ b + 1 → Follows (skip r) →
      readArguments? (read? b) b (String.ofList (method value))
        (skip (arguments level value ++ r)) = some (value, skip r))
    (hb : (chars level value).length ≤ bound) : Reads (read? bound) level value := by
  have hpos : 0 < (chars level value).length := by
    rw [chars_eq]
    exact Nat.succ_pos _
  obtain ⟨b, rfl⟩ : ∃ b, bound = b + 1 := ⟨bound - 1, by omega⟩
  intro r hr
  rw [read?, readCall?_chars]
  exact h b r hb hr

/-- **The text of an expression reads back**, whatever may follow it. -/
theorem read?_chars (value : Zod) (hb : (chars level value).length ≤ bound) :
    Reads (read? bound) level value := by
  -- every part has a shorter text, so the bound that is left is enough for it
  induction value using Zod.induction generalizing level bound with
  | null | undefined | unknown | string | boolean =>
      refine reads_of_arguments ?_ hb
      intro b r _ _
      simp [method, arguments, skip_parenthesis, readArguments?, ofMethod?, expect?_self]
  | number isWhole =>
      refine reads_of_arguments ?_ hb
      intro b r _ hr
      exact readArguments?_number isWhole hr
  | array element ih =>
      refine reads_of_arguments ?_ hb
      intro b r hb _
      rw [length_chars_array] at hb
      exact readArguments?_array (ih (by omega)) r
  | object fields ih =>
      refine reads_of_arguments ?_ hb
      intro b r hb _
      obtain ⟨hfields, hcount⟩ := length_chars_object level fields
      refine readArguments?_object ?_ (by omega) r
      intro field hfield
      have hlength := hfields field hfield
      exact ih field hfield (by omega)
  | union members ih =>
      refine reads_of_arguments ?_ hb
      intro b r hb _
      obtain ⟨hmembers, hcount⟩ := length_chars_union level members
      refine readArguments?_union ?_ (by omega) r
      intro member hmember
      have hlength := hmembers member hmember
      exact ih member hmember (by omega)

/-- The text of an expression writes that expression. -/
theorem ofText?_chars (level : ℕ) (value : Zod) : ofText? (chars level value) = some value := by
  have hread := read?_chars value (Nat.le_refl (chars level value).length) [] nofun
  rw [List.append_nil] at hread
  rw [ofText?, hread]
  rfl

/-- The text determines the expression. -/
theorem chars_injective (level : ℕ) : Function.Injective (chars level) := by
  intro a b h
  have hread := ofText?_chars level a
  rw [h, ofText?_chars, Option.some.injEq] at hread
  exact hread.symm

end JsonShelf.Zod
