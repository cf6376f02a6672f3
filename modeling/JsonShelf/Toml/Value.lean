/-
**TOML values.**

Main definitions:

* `Toml` — values; numbers with a fraction, dates and times are kept as they are written;
* `Toml.Fault` — why a text is no TOML document, with the wording.
-/

import JsonShelf.Json.Members

set_option autoImplicit false

namespace JsonShelf

/-- A TOML value. -/
inductive Toml where
  | string (value : String)
  | integer (value : Int)
  | float (text : String)
  | boolean (value : Bool)
  | datetime (text : String)
  | array (items : List Toml)
  | table (entries : List (String × Toml))

namespace Toml

instance : Inhabited Toml := ⟨table []⟩

/-- Why a text is no TOML document. -/
inductive Fault where
  | unexpectedEnd
  | unexpected (c : Char)
  | invalidKey
  | invalidString
  | invalidScalar (text : String)
  | duplicateKey (key : String)
  /-- Something is to go into a value that takes nothing more. -/
  | cannotExtend (key : String)
  | nestingTooDeep
  deriving DecidableEq, Repr

/-- The wording of a fault. -/
def Fault.message : Fault → String
  | unexpectedEnd => "the text ends too early"
  | unexpected c => "unexpected character " ++ String.singleton c
  | invalidKey => "invalid key"
  | invalidString => "invalid string"
  | invalidScalar text => "invalid value " ++ text
  | duplicateKey key => "duplicate key " ++ key
  | cannotExtend key => "cannot extend " ++ key
  | nestingTooDeep => "values nest too deep"

/-- The entries of a table. -/
def entries? : Toml → Option (Members Toml)
  | table entries => some entries
  | _ => none

/-- The text of a string. -/
def string? : Toml → Option String
  | string value => some value
  | _ => none

/-- A truth value. -/
def boolean? : Toml → Option Bool
  | boolean value => some value
  | _ => none

/-- A natural number below a bound. -/
def natural? (bound : Nat) : Toml → Option Nat
  | integer value => if 0 ≤ value ∧ value < bound then some value.toNat else none
  | _ => none

/-- An array of values of one kind. -/
def listOf? {α : Type} (read : Toml → Option α) : Toml → Option (List α)
  | array items => items.mapM read
  | _ => none

end Toml

end JsonShelf
