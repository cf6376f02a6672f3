/-
**Finding documents.**

A scan walks the tree below the data directory, leaves out what the filter leaves out, and keeps
the files whose text parses.

Main definitions:

* `Scan.walk` — the names that lead to the files below a directory;
* `Scan.discover` — the sorted paths of the documents of a data directory.
-/

import JsonShelf.Files.Call
import JsonShelf.Json.Parser
import JsonShelf.Scan.Policy
import JsonShelf.Store.Call

set_option autoImplicit false

namespace JsonShelf.Scan

open Files (FileScript)

/-- The path of some names below the data directory. -/
def pathOf (names : List String) : DocPath :=
  .ofString ("/".intercalate names)

/-- How many levels below the data directory are looked at: one more than are entered, counted with
64 bits, and at least one. -/
def levels (filter : ScanFilter) : Nat :=
  max 1 ((filter.maxDepth + 1) % 2 ^ 64)

/-- The names that lead to the files below a directory, through directories that may be entered. -/
def walk (filter : ScanFilter) (root : String) : Nat → List String → FileScript (List (List String))
  | 0, _ => return []
  | level + 1, above => do
    match ← (Files.entries (above.foldl Paths.join root)).run with
    | .error _ => return []
    | .ok names =>
      let found ← names.mapM fun name => do
        let place := above ++ [name]
        if ← Files.isDirectory (place.foldl Paths.join root) then
          if filter.allowsDirectory (pathOf place) then walk filter root level place
          else return []
        else
          return [place]
      return found.flatten

/-- Does the text of a file parse? -/
def isDocument (path : String) : FileScript Bool := do
  match ← (Files.readText path).run with
  | .ok text => return (Json.parse text).toBool
  | .error _ => return false

/-- The list with a path at its place in the order, unless it is there. -/
def insertSorted (path : DocPath) : List DocPath → List DocPath
  | [] => [path]
  | p :: rest =>
    if p = path then p :: rest
    else if path.text < p.text then path :: p :: rest
    else p :: insertSorted path rest

/-- The paths in order, each once. -/
def sorted (paths : List DocPath) : List DocPath :=
  paths.foldr insertSorted []

/-- The paths of the documents of a data directory, which has to exist. -/
def discover (root : String) (filter : ScanFilter) :
    FileScript (Except StoreError (List DocPath)) := do
  if ← Files.isDirectory root then
    let found ← walk filter root (levels filter) []
    let candidates := (found.map pathOf).filter filter.allowsFile
    let documents ← candidates.filterM fun path => isDocument (Paths.join root path.text)
    return .ok (sorted documents)
  else
    return .error (.system (.ofString root) "data directory does not exist")

end JsonShelf.Scan
