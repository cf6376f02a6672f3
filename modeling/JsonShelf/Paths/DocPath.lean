/-
**Paths of documents.**

A document is named by its path below the data directory, with forward slashes and without a dot at
the start; a single dot stands for the data directory itself.

Main definitions:

* `DocPath` — the text of a path;
* `DocPath.ofString` — the path that a text names;
* `DocPath.escapes` — does the path leave the data directory?
* `DocPath.isDocument` — may the path name a document?

Main results:

* `DocPath.ofString_text_ne_empty` — a path is never empty.
-/

import JsonShelf.Paths.Components
import JsonShelf.Text.Blank
import JsonShelf.Text.Layout

set_option autoImplicit false

namespace JsonShelf

/-- The path of a document below the data directory. -/
structure DocPath where
  text : String
  deriving DecidableEq, Repr

namespace DocPath

/-- The text without the `./` at its start, however often repeated. -/
def dropDots : List Char → List Char
  | '.' :: '/' :: rest => dropDots rest
  | cs => cs

/-- A forward slash for a backslash. -/
def forward (c : Char) : Char :=
  if c = '\\' then '/' else c

/-- The path that a text names. -/
def ofString (s : String) : DocPath :=
  match dropDots (s.toList.map forward) with
  | [] => ⟨"."⟩
  | cs => ⟨String.ofList cs⟩

theorem ofString_text_ne_empty (s : String) : (ofString s).text ≠ "" := by
  unfold ofString
  split
  · decide
  · next h =>
    intro e
    have hl := congrArg String.toList e
    rw [String.toList_ofList] at hl
    exact h hl

/-- The name of the document, without its extension. -/
def stem (path : DocPath) : String := Paths.stem path.text

/-- The name of the directory that holds the document; empty at the top. -/
def parentName (path : DocPath) : String := Paths.parentName path.text

/-- Does the name end in `.json`, after something else? -/
def hasJsonExtension (path : DocPath) : Bool := Paths.extension? path.text == some "json"

/-- Does the path leave the data directory, or might it? -/
def escapes (path : DocPath) : Bool :=
  (Paths.components path.text).any fun c => c == .root || c == .parent

/-- May the path name a document?  It has to stay in the data directory and end in `.json`. -/
def isDocument (path : DocPath) : Bool :=
  path.text != "." && !path.escapes && path.hasJsonExtension

/-- The path that a user means: blanks around it do not count, and the extension may be left
out. -/
def ofArgument (name : String) : DocPath :=
  let path := ofString (Text.trim name)
  if path.hasJsonExtension then path else ofString (path.text ++ ".json")

/-- What follows the last slash. -/
def fileName (path : DocPath) : String :=
  ((Text.split (· == '/') path.text).getLast?).getD path.text

end DocPath

end JsonShelf
