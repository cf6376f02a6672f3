/-
**Reading path texts.**

A path text is read as a list of components.  Repeated slashes, a slash at the end and single dots
count for nothing, except a dot at the very start.

Main definitions:

* `Paths.Component`, `Paths.components` — the components of a path;
* `Paths.fileName?`, `Paths.stem`, `Paths.extension?` — the last component and its parts;
* `Paths.parent?` — the text of the path without its last component;
* `Paths.join` — a path read from the place that another one names.
-/

set_option autoImplicit false

namespace JsonShelf.Paths

/-- A part of a path. -/
inductive Component where
  /-- The slash at the start of an absolute path. -/
  | root
  /-- The dot at the start of a path. -/
  | current
  /-- Two dots. -/
  | parent
  | normal (name : String)
  deriving DecidableEq, Repr

/-- Does the path start at the root? -/
def isAbsolute (path : List Char) : Bool :=
  path.head? == some '/'

/-- What stands before the pieces of a path: the slash of the root, or a dot that is the whole
first piece. -/
def anchor (path : List Char) : List Char :=
  if isAbsolute path then ['/']
  else if (path.takeWhile (· != '/')) = ['.'] then ['.']
  else []

/-- The pieces between the slashes of what follows the anchor. -/
def pieces (path : List Char) : List (List Char) :=
  (path.drop (anchor path).length).splitOnP (· == '/')

/-- Pieces that are no component. -/
def isIdle (piece : List Char) : Bool :=
  piece == [] || piece == ['.']

/-- The component that a piece is. -/
def componentOf (piece : List Char) : Component :=
  if piece = ['.', '.'] then .parent else .normal (String.ofList piece)

/-- The component that an anchor is. -/
def anchorComponent : List Char → List Component
  | ['/'] => [.root]
  | ['.'] => [.current]
  | _ => []

/-- The components of a path. -/
def components (path : String) : List Component :=
  anchorComponent (anchor path.toList) ++
    ((pieces path.toList).filter (!isIdle ·)).map componentOf

/-- The name in a component. -/
def Component.name? : Component → Option String
  | normal name => some name
  | _ => none

/-- The name at the end of a path. -/
def fileName? (path : String) : Option String :=
  (components path).getLast?.bind Component.name?

/-- A file name cut at its last point, unless that is its first character: what stands before the
point and what after. -/
def cutAtPoint (name : String) : String × Option String :=
  let (tail, front) := name.toList.reverse.span (· != '.')
  match front with
  | _ :: before@(_ :: _) => (String.ofList before.reverse, some (String.ofList tail.reverse))
  | _ => (name, none)

/-- The name at the end of a path without its extension; empty if there is none. -/
def stem (path : String) : String :=
  ((fileName? path).map fun name => (cutAtPoint name).1).getD ""

/-- The extension of the name at the end of a path. -/
def extension? (path : String) : Option String :=
  (fileName? path).bind fun name => (cutAtPoint name).2

/-- The name of the directory that holds the end of a path; empty if that has no name. -/
def parentName (path : String) : String :=
  ((components path).dropLast.getLast?.bind Component.name?).getD ""

/-- The path without its last component, as far as its text says something. -/
def parent? (path : String) : Option String :=
  let cs := path.toList
  match (pieces cs).reverse.dropWhile isIdle with
  | _ :: before =>
    some (String.ofList (anchor cs ++
      ['/'].intercalate (before.dropWhile isIdle).reverse))
  | [] => if anchor cs = ['.'] then some "" else none

/-- The second path, read from the place that the first one names. -/
def join (base path : String) : String :=
  if isAbsolute path.toList then path
  else if base.isEmpty || base.toList.getLast? == some '/' then base ++ path
  else base ++ "/" ++ path

end JsonShelf.Paths
