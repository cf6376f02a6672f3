/-
**The keys that an object literal declares.**

The argument of an object expression is an object literal, and what it says depends on the rules for
evaluating such literals.  A property declares the key that is its name, with one exception: a
property whose name is that of the prototype, quoted or not, declares no key but sets the prototype,
unless the name is computed.  The names of fields are written plain, so a field with the name of the
prototype is not declared, and it is the only one that can be lost.

Main definitions:

* `Zod.evaluate` — the keys and values that an object literal declares;
* `Zod.readObjectCall?` — the properties in the argument of an object expression.

Main results:

* `Zod.exists_chars_of_within` — the text of a part stands in the text of the whole;
* `Zod.readObjectCall?_chars` — the properties of an object expression are its fields, in order;
* `Zod.declared_iff_of_within` — **the declared keys are the names of the fields other than that of
  the prototype**, so they are all of them just if no field has that name.
-/

import JsonShelf.Proofs.Json.Members
import JsonShelf.Proofs.Shape.Parts
import JsonShelf.Proofs.Zod.Reading

set_option autoImplicit false

namespace JsonShelf.Zod

variable {part shape : Shape} {fields : List (String × Shape)}

/-! ### Evaluating object literals -/

/-- Does a property of the name declare a key?  A plain name of the prototype sets the prototype
instead. -/
def PropertyName.declares (name : PropertyName) : Bool :=
  name.isComputed || name.text != prototypeName

/-- The keys and values that an object literal declares; a key that is declared again keeps its
place and gets the new value. -/
def evaluate {α : Type} (properties : List (PropertyName × α)) : Members α :=
  properties.foldl (fun declared property =>
    if property.1.declares then Members.put property.1.text property.2 declared else declared) []

/-- Plain properties declare what they would write as members, without that of the prototype. -/
theorem evaluate_plainProperty {α : Type} (members : Members α) :
    evaluate (members.map plainProperty) =
      Members.collapse (members.filter (·.1 != prototypeName)) := by
  rw [evaluate, Members.collapse, Members.merge, List.foldl_map, List.foldl_filter]
  rfl

theorem keys_filter {α : Type} (p : String → Bool) (members : Members α) :
    Members.keys (members.filter (p ·.1)) = (Members.keys members).filter p := by
  rw [Members.keys, Members.keys, List.filter_map]
  rfl

/-- The declared keys of plain properties with different names. -/
theorem keys_evaluate_plainProperty {α : Type} {members : Members α}
    (h : (Members.keys members).Nodup) :
    Members.keys (evaluate (members.map plainProperty)) =
      (Members.keys members).filter (· != prototypeName) := by
  have hkeys := keys_filter (· != prototypeName) members
  have hnodup : (Members.keys (members.filter (·.1 != prototypeName))).Nodup := by
    rw [hkeys]
    exact h.filter _
  rw [evaluate_plainProperty, Members.collapse_eq_self hnodup, hkeys]

/-! ### The argument of an object expression -/

/-- The properties in the argument of an object expression, and what follows the expression. -/
def readObjectCall? (cs : List Char) : Option (List (PropertyName × Zod) × List Char) := do
  let (method, rest) ← readCall? cs
  guard (method = "object")
  let (properties, rest) ← readObject (read? cs.length) cs.length rest
  return (properties, ← expect? ')' rest)

/-- The properties of an object expression are its fields, in order and with plain names. -/
theorem readObjectCall?_chars (level : ℕ) (fields : List (String × Zod)) (r : List Char) :
    readObjectCall? (chars level (object fields) ++ r) =
      some (fields.map plainProperty, skip r) := by
  obtain ⟨hfields, hcount⟩ := length_chars_object level fields
  have hlength : (chars level (object fields) ++ r).length =
      (chars level (object fields)).length + r.length := List.length_append
  have hskip : skip (objectText level fields ++ ')' :: r) =
      objectText level fields ++ ')' :: r := by
    cases fields <;> rfl
  have hread : readObject (read? (chars level (object fields) ++ r).length)
      (chars level (object fields) ++ r).length (objectText level fields ++ ')' :: r) =
        some (fields.map plainProperty, ')' :: r) := by
    refine readObject_objectText ?_ (by omega) (')' :: r)
    intro field hfield
    have hshort := hfields field hfield
    exact read?_chars field.2 (by omega)
  rw [readObjectCall?, readCall?_chars, arguments_object, List.append_assoc, List.singleton_append,
    hskip]
  simp [method, hread, expect?_self, -List.length_append]

/-! ### Parts of a shape -/

/-- The text of a part stands in the text of the whole, with samples of its own. -/
theorem exists_chars_of_within (h : part.Within shape) (level : ℕ) (samples : List Json) :
    ∃ level' samples',
      chars level' (ofShape part samples') <:+: chars level (ofShape shape samples) := by
  induction h generalizing level samples with
  | self => exact ⟨level, samples, List.infix_refl _⟩
  | element _ ih =>
      obtain ⟨level', samples', hinfix⟩ := ih level (elementSamples samples)
      refine ⟨level', samples', hinfix.trans ?_⟩
      rw [ofShape, chars_array]
      exact List.infix_append _ _ _
  | @field fields field hmem _ ih =>
      obtain ⟨level', samples', hinfix⟩ :=
        ih (level + 1) (samples.filterMap (Json.get? field.1))
      refine ⟨level', samples', hinfix.trans ?_⟩
      have hfield : (field.1, ofShape field.2 (samples.filterMap (Json.get? field.1))) ∈
          ofFields fields samples := by
        rw [ofFields_eq_map]
        exact List.mem_map.2 ⟨field, hmem, rfl⟩
      rw [ofShape]
      exact infix_chars_object hfield
  | @member members member hmem _ ih =>
      obtain ⟨level', samples', hinfix⟩ :=
        ih level (samples.filter fun sample => Shape.infer sample = member)
      refine ⟨level', samples', hinfix.trans ?_⟩
      have hmember : ofShape member (samples.filter fun sample => Shape.infer sample = member) ∈
          ofMembers members samples := by
        rw [ofMembers_eq_map]
        exact List.mem_map.2 ⟨member, hmem, rfl⟩
      rw [ofShape]
      exact infix_chars_union hmember

/-! ### The declared keys -/

/-- The literal of an object shape declares the names of its fields, that of the prototype apart. -/
theorem declared_ofShape_object (level : ℕ) (samples : List Json) (r : List Char)
    (h : (Members.keys fields).Nodup) :
    ∃ properties,
      readObjectCall? (chars level (ofShape (.object fields) samples) ++ r) =
        some (properties, skip r) ∧
      ∀ name, name ∈ Members.keys (evaluate properties) ↔
        name ∈ Members.keys fields ∧ name ≠ prototypeName := by
  rw [ofShape, readObjectCall?_chars]
  refine ⟨_, rfl, ?_⟩
  intro name
  rw [keys_evaluate_plainProperty ((keys_ofFields fields samples).symm ▸ h), keys_ofFields,
    List.mem_filter, bne_iff_ne]

/-- **The keys that an object literal declares are the names of the fields other than that of the
prototype.**  So each object shape with different names in a shape has its literal in the text of
the expression, and the literal declares all the names just if that of the prototype is not among
them. -/
theorem declared_iff_of_within (level : ℕ) (shape : Shape) (samples : List Json)
    (fields : List (String × Shape)) (hwithin : (Shape.object fields).Within shape)
    (hkeys : (Members.keys fields).Nodup) :
    ∃ front text back properties,
      chars level (ofShape shape samples) = front ++ text ++ back ∧
      (∃ level' samples', text = chars level' (ofShape (.object fields) samples')) ∧
      readObjectCall? (text ++ back) = some (properties, skip back) ∧
      (∀ name, name ∈ Members.keys (evaluate properties) ↔
        name ∈ Members.keys fields ∧ name ≠ prototypeName) ∧
      ((∀ name, name ∈ Members.keys (evaluate properties) ↔ name ∈ Members.keys fields) ↔
        prototypeName ∉ Members.keys fields) := by
  obtain ⟨level', samples', front, back, htext⟩ := exists_chars_of_within hwithin level samples
  obtain ⟨properties, hread, hdeclared⟩ := declared_ofShape_object level' samples' back hkeys
  refine ⟨front, _, back, properties, htext.symm, ⟨level', samples', rfl⟩, hread, hdeclared, ?_⟩
  constructor
  · -- the name of the prototype is never declared, so it cannot be the name of a field
    intro hall hprototype
    exact ((hdeclared prototypeName).1 ((hall prototypeName).2 hprototype)).2 rfl
  · intro hprototype name
    rw [hdeclared]
    exact and_iff_left_of_imp fun hname => ne_of_mem_of_not_mem hname hprototype

/-- Records with a name that is quoted, one that is not and that of the prototype. -/
def quotedFields : List (String × Shape) := [("it's", .null), ("__proto__", .null), ("a", .null)]

/-- In an array of records without the name of the prototype the literal of the records declares all
names, and in one with it all the others. -/
theorem declared_iff_of_within_records :
    (∃ front text back properties,
      chars 0 (ofShape (.array (.object [("it's", .null), ("a", .null)])) []) =
        front ++ text ++ back ∧
      readObjectCall? (text ++ back) = some (properties, skip back) ∧
      ∀ name, name ∈ Members.keys (evaluate properties) ↔ name ∈ ["it's", "a"]) ∧
    ∃ front text back properties,
      chars 0 (ofShape (.array (.object quotedFields)) []) = front ++ text ++ back ∧
      readObjectCall? (text ++ back) = some (properties, skip back) ∧
      "it's" ∈ Members.keys (evaluate properties) ∧
      "__proto__" ∉ Members.keys (evaluate properties) ∧
      "a" ∈ Members.keys (evaluate properties) ∧
      ¬∀ name, name ∈ Members.keys (evaluate properties) ↔ name ∈ Members.keys quotedFields := by
  constructor
  · obtain ⟨front, text, back, properties, htext, -, hread, -, hall⟩ := declared_iff_of_within 0
      (.array (.object [("it's", .null), ("a", .null)])) [] _ (.element .self) (by decide)
    exact ⟨front, text, back, properties, htext, hread, hall.2 (by decide)⟩
  · obtain ⟨front, text, back, properties, htext, -, hread, hdeclared, hall⟩ :=
      declared_iff_of_within 0 (.array (.object quotedFields)) [] _ (.element .self) (by decide)
    refine ⟨front, text, back, properties, htext, hread, (hdeclared _).2 (by decide), ?_,
      (hdeclared _).2 (by decide), fun h => hall.1 h (by decide)⟩
    exact fun h => ((hdeclared _).1 h).2 rfl

/-- The literal of an object with the name of the prototype as its only field declares nothing, so
the field is not looked at. -/
theorem declared_ne_of_prototype :
    (readObjectCall? (chars 0 (ofShape (.object [("__proto__", .scalar .number)])
        [.object [("__proto__", Json.ofInt 1)]]))).map
      (fun read => Members.keys (evaluate read.1)) = some [] ∧
      Members.keys [("__proto__", Shape.scalar .number)] = ["__proto__"] := by
  decide +kernel

end JsonShelf.Zod
