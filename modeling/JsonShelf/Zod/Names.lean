/-
**Names in a generated module.**

Each document declares a schema, a function that validates and a type.  The name of the schema comes
from the name of the document; where the declarations of two documents clash, the name of the
directory is put in front, and where they still clash, a fingerprint of the path is added.

Main definitions:

* `Zod.identifier` — a text as an identifier in camel case;
* `Zod.declared` — the three identifiers that a schema name declares;
* `Zod.NameClash` — documents that still declare the same identifier;
* `Zod.assignNames` — the schema names of some documents.
-/

import JsonShelf.Paths.DocPath
import JsonShelf.Sha256

set_option autoImplicit false

namespace JsonShelf.Zod

/-! ### Names -/

/-- The text with its first letter in upper case. -/
def capitalize : List Char → List Char
  | [] => []
  | c :: rest => c.toUpper :: rest

/-- The runs of ASCII letters and digits in a text. -/
def segments (cs : List Char) : List (List Char) :=
  (cs.splitOnP (!·.isAlphanum)).filter (!·.isEmpty)

/-- The first segment as it is and the others with a capital. -/
def camelCase : List (List Char) → List Char
  | [] => []
  | first :: rest => first ++ rest.flatMap capitalize

/-- The text as an identifier in camel case; a digit at the start gets an underscore in front. -/
def identifier (text : String) : String :=
  match camelCase (segments text.toList) with
  | [] => ""
  | c :: rest => String.ofList (if c.isDigit then '_' :: c :: rest else c :: rest)

/-- The name of the schema with a base name. -/
def schemaName (base : String) : String := base ++ "Schema"

/-- The name of the function that validates by a schema. -/
def validatorName (name : String) : String :=
  "validate" ++ String.ofList (capitalize name.toList)

/-- The name of the type of a schema. -/
def typeName (name : String) : String :=
  String.ofList (capitalize name.toList) ++ "Type"

/-- The identifiers that a schema name declares. -/
def declared (name : String) : List String :=
  [name, validatorName name, typeName name]

/-- The name that a document has for itself. -/
def plainName (path : DocPath) : String :=
  schemaName (identifier path.stem)

/-- The name that says the directory as well. -/
def qualifiedName (path : DocPath) : String :=
  if path.parentName.isEmpty then plainName path
  else schemaName (identifier (path.parentName ++ "_" ++ path.stem))

/-! ### Clashes -/

/-- Do two names declare a common identifier? -/
def shares (a b : String) : Bool :=
  (declared a).any (declared b).contains

/-- Does a name declare an identifier that another of the names declares too?  The name itself is
one of the names. -/
def clashes (names : List String) (name : String) : Bool :=
  1 < names.countP (shares name)

/-- The names, of which those that clash are replaced. -/
def refine (rename : DocPath → String → String) (paths : List DocPath) (names : List String) :
    List String :=
  List.zipWith (fun path name => if clashes names name then rename path name else name) paths names

/-- Documents that declare the same identifier. -/
structure NameClash where
  identifier : String
  paths : List DocPath
  deriving DecidableEq, Repr

/-- The wording of a clash. -/
def NameClash.message (clash : NameClash) : String :=
  "schema name collision: " ++ clash.identifier ++ " is generated for " ++
    ", ".intercalate (clash.paths.map DocPath.text)

/-- The documents whose names declare the identifier. -/
def owners (paths : List DocPath) (names : List String) (ident : String) : List DocPath :=
  ((paths.zip names).filter fun entry => (declared entry.2).contains ident).map Prod.fst

/-- The lesser of two texts. -/
def lesser (a b : String) : String :=
  if b < a then b else a

/-- The clash over the least identifier, if there is one. -/
def firstClash? (paths : List DocPath) (names : List String) : Option NameClash :=
  match (names.flatMap declared).filter fun ident => 1 < (owners paths names ident).length with
  | [] => none
  | first :: rest =>
    let least := rest.foldl lesser first
    some ⟨least, owners paths names least⟩

/-- The schema names of some documents, in order, where `fingerprint` tells paths apart. -/
def assignNames (fingerprint : String → String) (paths : List DocPath) :
    Except NameClash (List String) :=
  let plain := paths.map plainName
  let qualified := refine (fun path _ => qualifiedName path) paths plain
  let marked := refine (fun path name => name ++ "_" ++ fingerprint path.text) paths qualified
  match firstClash? paths marked with
  | some clash => .error clash
  | none => .ok marked

/-- The first eight hexadecimal digits of the hash of a text. -/
def fingerprint (text : String) : String :=
  String.ofList ((Sha256.hexDigest text).toList.take 8)

end JsonShelf.Zod
