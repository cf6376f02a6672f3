/-
**Shapes.**

A shape says which JSON values are meant: values of one kind, arrays of a shape, objects with named
fields, or the values of some member of a union.

Main definitions:

* `Scalar`, `Shape` — the shapes;
* `Shape.union` — a union in normal form;
* `Shape.acceptsMissing` — may a field of this shape be missing?
* `Shape.describe` — a short label.
-/

set_option autoImplicit false

namespace JsonShelf

/-- The kinds of scalars other than null. -/
inductive Scalar where
  | string
  | number
  | boolean
  deriving DecidableEq, Repr

/-- The name of a kind of scalars. -/
def Scalar.name : Scalar → String
  | string => "string"
  | number => "number"
  | boolean => "boolean"

/-- A structural type of JSON values. -/
inductive Shape where
  | null
  /-- Of a field that is not there. -/
  | undefined
  | scalar (kind : Scalar)
  /-- Of any value. -/
  | unknown
  | array (element : Shape)
  /-- Of objects with named fields, in order. -/
  | object (fields : List (String × Shape))
  | union (members : List Shape)

namespace Shape

instance : Inhabited Shape := ⟨unknown⟩

/-! ### Equality -/

mutual

/-- Decides equality of shapes. -/
def decEq : (a b : Shape) → Decidable (a = b)
  | null, null => isTrue rfl
  | undefined, undefined => isTrue rfl
  | unknown, unknown => isTrue rfl
  | scalar a, scalar b => decidable_of_iff (a = b) (by simp)
  | array a, array b =>
    match decEq a b with
    | isTrue h => isTrue (by rw [h])
    | isFalse h => isFalse fun e => h (array.inj e)
  | object a, object b =>
    match decEqFields a b with
    | isTrue h => isTrue (by rw [h])
    | isFalse h => isFalse fun e => h (object.inj e)
  | union a, union b =>
    match decEqMembers a b with
    | isTrue h => isTrue (by rw [h])
    | isFalse h => isFalse fun e => h (union.inj e)
  | null, undefined | null, scalar _ | null, unknown | null, array _ | null, object _
  | null, union _
  | undefined, null | undefined, scalar _ | undefined, unknown | undefined, array _
  | undefined, object _ | undefined, union _
  | scalar _, null | scalar _, undefined | scalar _, unknown | scalar _, array _
  | scalar _, object _ | scalar _, union _
  | unknown, null | unknown, undefined | unknown, scalar _ | unknown, array _
  | unknown, object _ | unknown, union _
  | array _, null | array _, undefined | array _, scalar _ | array _, unknown
  | array _, object _ | array _, union _
  | object _, null | object _, undefined | object _, scalar _ | object _, unknown
  | object _, array _ | object _, union _
  | union _, null | union _, undefined | union _, scalar _ | union _, unknown
  | union _, array _ | union _, object _ => isFalse nofun

/-- Decides equality of the fields of two object shapes. -/
def decEqFields : (a b : List (String × Shape)) → Decidable (a = b)
  | [], [] => isTrue rfl
  | [], _ :: _ | _ :: _, [] => isFalse nofun
  | (k, x) :: xs, (l, y) :: ys =>
    match decEq x y, decEqFields xs ys with
    | isTrue h, isTrue t =>
      if hk : k = l then isTrue (by rw [hk, h, t])
      else isFalse fun e => hk (congrArg Prod.fst (List.cons.inj e).1)
    | isFalse h, _ => isFalse fun e => h (congrArg Prod.snd (List.cons.inj e).1)
    | _, isFalse t => isFalse fun e => t (List.cons.inj e).2

/-- Decides equality of the members of two unions. -/
def decEqMembers : (a b : List Shape) → Decidable (a = b)
  | [], [] => isTrue rfl
  | [], _ :: _ | _ :: _, [] => isFalse nofun
  | x :: xs, y :: ys =>
    match decEq x y, decEqMembers xs ys with
    | isTrue h, isTrue t => isTrue (by rw [h, t])
    | isFalse h, _ => isFalse fun e => h (List.cons.inj e).1
    | _, isFalse t => isFalse fun e => t (List.cons.inj e).2

end

instance : DecidableEq Shape := decEq

/-! ### Unions -/

/-- The members of a union, or the shape alone. -/
def alternatives : Shape → List Shape
  | union members => members
  | shape => [shape]

/-- The list with the shape at its end, unless it is there already. -/
def addDistinct (shapes : List Shape) (shape : Shape) : List Shape :=
  if shape ∈ shapes then shapes else shapes ++ [shape]

/-- The different shapes among the alternatives, each at its first place. -/
def distinctAlternatives (members : List Shape) : List Shape :=
  (members.flatMap alternatives).foldl addDistinct []

/-- The union of some shapes: unions among them are opened, repeated shapes dropped, a single one
stands for itself, and without any nothing is known. -/
def unionOf (members : List Shape) : Shape :=
  match distinctAlternatives members with
  | [] => unknown
  | [shape] => shape
  | shapes => union shapes

/-! ### Questions about shapes -/

mutual

/-- May a field of this shape be missing? -/
def acceptsMissing : Shape → Bool
  | undefined | unknown => true
  | union members => anyAcceptsMissing members
  | null | scalar _ | array _ | object _ => false

/-- May a field of one of these shapes be missing? -/
def anyAcceptsMissing : List Shape → Bool
  | [] => false
  | shape :: rest => acceptsMissing shape || anyAcceptsMissing rest

end

/-- A short label: the kind, the label of the elements, or the number of fields or members. -/
def describe : Shape → String
  | null => "null"
  | undefined => "undefined"
  | scalar kind => kind.name
  | unknown => "unknown"
  | array element => "array<" ++ describe element ++ ">"
  | object fields => "object\x7b" ++ toString fields.length ++ "\x7d"
  | union members => "union(" ++ toString members.length ++ ")"

end Shape

end JsonShelf
