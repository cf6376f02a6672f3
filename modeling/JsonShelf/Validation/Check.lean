/-
**Checking a value against a shape.**

Main definitions:

* `Complaint`, `Finding` — what may be wrong with a value, and where;
* `Shape.check` — everything that is wrong with a value of a shape;
* `validateValue`, `validateText` — the issues of a value, and of a text against the shape inferred
  from it.
-/

import JsonShelf.Shape.Infer
import JsonShelf.Validation.Issue

set_option autoImplicit false

namespace JsonShelf

open Json (Segment)

/-- What may be wrong with a value. -/
inductive Complaint where
  /-- A field is missing. -/
  | required
  /-- The value is of another kind. -/
  | mismatch (expected received : String)
  /-- No member of a union takes the value. -/
  | noMember
  deriving DecidableEq, Repr

/-- The wording of a complaint. -/
def Complaint.message : Complaint → String
  | required => "Required"
  | mismatch expected received => "Expected " ++ expected ++ ", received " ++ received
  | noMember => "Invalid input"

/-- A complaint and the path of the value it is about. -/
structure Finding where
  path : Json.Path
  complaint : Complaint
  deriving DecidableEq, Repr

/-- The finding as seen from one step further out. -/
def Finding.under (segment : Segment) (finding : Finding) : Finding :=
  { finding with path := segment :: finding.path }

/-- The finding as an issue. -/
def Finding.toIssue (finding : Finding) : Issue :=
  ⟨finding.path, finding.complaint.message⟩

namespace Shape

/-- A value that is not of the expected kind. -/
def mismatch (expected : String) (value : Json) : List Finding :=
  [⟨[], .mismatch expected value.kind⟩]

/-- Is the value of the kind of scalars? -/
def scalarAdmits : Scalar → Json → Bool
  | .string, .string _ | .number, .number _ | .boolean, .bool _ => true
  | _, _ => false

mutual

/-- Everything that is wrong with a value of the shape, in the order of the shape. -/
def check : Shape → Json → List Finding
  | unknown, _ => []
  | undefined, value => mismatch "undefined" value
  | null, value => if value = .null then [] else mismatch "null" value
  | scalar kind, value => if scalarAdmits kind value then [] else mismatch kind.name value
  | array element, value =>
    match value with
    | .array items =>
      items.zipIdx.flatMap fun (item, n) => (check element item).map (.under (.index n))
    | other => mismatch "array" other
  | object fields, value =>
    match value with
    | .object members => checkFields fields members
    | other => mismatch "object" other
  | union members, value => if takenByAny members value then [] else [⟨[], .noMember⟩]

/-- Everything that is wrong with the members of an object of the fields. -/
def checkFields : List (String × Shape) → Members Json → List Finding
  | [], _ => []
  | (name, shape) :: rest, members =>
    (match Members.get? name members with
      | some value => (check shape value).map (.under (.key name))
      | none => if shape.acceptsMissing then [] else [⟨[.key name], .required⟩]) ++
    checkFields rest members

/-- Is nothing wrong with the value of one of the shapes? -/
def takenByAny : List Shape → Json → Bool
  | [], _ => false
  | shape :: rest, value => (check shape value).isEmpty || takenByAny rest value

end

end Shape

/-- The issues of a value of a shape. -/
def validateValue (value : Json) (shape : Shape) : List Issue :=
  (shape.check value).map Finding.toIssue

/-- The result for a text that does not parse. -/
def parseFailure (e : Json.ParseError) : ValidationResult :=
  ⟨false, [⟨[], "Failed to parse JSON: " ++ e.message⟩]⟩

/-- The issues of a text against the shape inferred from it. -/
def validateText (text : String) : ValidationResult :=
  match Json.parse text with
  | .ok value => .ofIssues (validateValue value (Shape.infer value))
  | .error e => parseFailure e

end JsonShelf
